import RetainedUi.Color.Basic
import RetainedUi.Geometry.Vec

/-!
# What events are about

An event has a kind, by which it is routed, and an information, which goes with the kind but is not
bound to it. Positions of the pointer are in the coordinates of the window's root.
-/

namespace RetainedUi

inductive MouseButton where
  | left
  | right
  | middle
  | back
  | forward
  | other (number : Nat)
  deriving DecidableEq, Repr

def MouseButton.valueText : MouseButton → String
  | left => "Left"
  | right => "Right"
  | middle => "Middle"
  | back => "Back"
  | forward => "Forward"
  | other number => "Other(" ++ toString number ++ ")"

inductive ButtonState where
  | pressed
  | released
  deriving DecidableEq, Repr

def ButtonState.valueText : ButtonState → String
  | pressed => "Pressed"
  | released => "Released"

/-- The modifier keys that are held. -/
structure Modifiers where
  shift : Bool
  control : Bool
  alt : Bool
  super : Bool
  deriving DecidableEq, Repr

namespace Modifiers

def none : Modifiers := ⟨false, false, false, false⟩

/-- The text of the held keys, always in the same order. -/
def valueText (m : Modifiers) : String :=
  let keys := [(m.shift, "SHIFT"), (m.control, "CONTROL"), (m.alt, "ALT"), (m.super, "SUPER")]
  let held := keys.filterMap fun key ↦ if key.1 then some key.2 else Option.none
  "ModifiersState(" ++ (if held.isEmpty then "0x0" else String.intercalate " | " held) ++ ")"

end Modifiers

/-- What an event is routed by. A custom kind is never one of the others, whatever its name. -/
inductive EventKind where
  | mouseButton
  | cursorMoved
  | resize
  | move
  | closeRequest
  | custom (name : String)
  deriving DecidableEq, Repr

def EventKind.text : EventKind → String
  | mouseButton => "mouse_button"
  | cursorMoved => "cursor_moved"
  | resize => "resize"
  | move => "move"
  | closeRequest => "close_request"
  | custom name => name

/-- What a custom event carries. -/
inductive Payload where
  | unit
  | word (value : UInt32)
  | integer (value : Int)
  | text (value : String)
  | color (value : Color)
  deriving DecidableEq, Repr

/-- What an event says beside its kind. -/
inductive EventInfo where
  | nothing
  | mouseButton (button : MouseButton) (state : ButtonState) (modifiers : Modifiers) (position : Vec)
  | cursorMoved (position : Vec)
  | resize (size : Vec)
  | move (position : Vec)
  | custom (payload : Payload)
  deriving DecidableEq, Repr

/-- The text of an information as a value. A payload does not show. -/
def EventInfo.valueText : EventInfo → String
  | nothing => "None"
  | mouseButton button state modifiers position =>
    "MouseButton \x7b button: " ++ button.valueText ++ ", state: " ++ state.valueText
      ++ ", modifiers: " ++ modifiers.valueText ++ ", position: " ++ position.valueText ++ " \x7d"
  | cursorMoved position => "CursorMoved \x7b position: " ++ position.valueText ++ " \x7d"
  | resize size => "Resize \x7b size: " ++ size.valueText ++ " \x7d"
  | move position => "Move \x7b position: " ++ position.valueText ++ " \x7d"
  | custom _ => "Custom(..)"

end RetainedUi
