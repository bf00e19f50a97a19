import RetainedUi.Event.Info
import RetainedUi.Fault

/-!
# Events

An event keeps its sender, kind, information and addressee for good. What changes on its way is
its current target and two flags, and the flags only ever change in one direction: an event that was
cancelled stays cancelled, and an event that was stopped stays stopped.
-/

namespace RetainedUi

/-- An event on its way through the views of a window. -/
structure Event where
  sender : Option View
  kind : EventKind
  info : EventInfo
  addressee : Option View
  target : Option View
  cancellable : Bool
  cancelled : Bool
  propagating : Bool
  deriving DecidableEq, Repr

namespace Event

/-- A new event without a target. -/
def new (sender : Option View) (kind : EventKind) (info : EventInfo) : Event :=
  { sender, kind, info, addressee := none, target := none, cancellable := true, cancelled := false,
    propagating := true }

def mouseButton (sender : Option View) (button : MouseButton) (state : ButtonState)
    (modifiers : Modifiers) (position : Vec) : Event :=
  new sender .mouseButton (.mouseButton button state modifiers position)

def cursorMoved (sender : Option View) (position : Vec) : Event :=
  new sender .cursorMoved (.cursorMoved position)

def resize (sender : Option View) (size : Vec) : Event := new sender .resize (.resize size)

def moved (sender : Option View) (position : Vec) : Event := new sender .move (.move position)

def closeRequest (sender : Option View) : Event := new sender .closeRequest .nothing

def custom (sender : Option View) (name : String) (payload : Payload) : Event :=
  new sender (.custom name) (.custom payload)

/-- The event with a target, which becomes its addressee as well. -/
def withTarget (e : Event) (target : View) : Event :=
  { e with addressee := some target, target := some target }

def notCancellable (e : Event) : Event := { e with cancellable := false }

/-- The position of a pointer or move event. -/
def position? (e : Event) : Option Vec :=
  match e.info with
  | .mouseButton _ _ _ position => some position
  | .cursorMoved position => some position
  | .move position => some position
  | _ => none

/-- The payload, if the event carries one. -/
def payload? (e : Event) : Option Payload :=
  match e.info with
  | .custom payload => some payload
  | _ => none

/-- Nobody receives the event any more. -/
def stop (e : Event) : Event := { e with propagating := false }

/-- Marks the event as cancelled, which does not stop it. -/
def cancel (e : Event) : Except Fault Event :=
  if e.cancellable then .ok { e with cancelled := true } else .error .notCancellable

/-- What a receiver made of an event, as far as a receiver may: it may set another target, stop the
event, and cancel it if it can be cancelled. -/
def amended (e answer : Event) : Event :=
  { e with
    target := answer.target
    cancelled := e.cancelled || (e.cancellable && answer.cancelled)
    propagating := e.propagating && answer.propagating }

/-! ## Texts -/

/-- The text of a view that may be missing. -/
def viewText : Option View → String
  | some v => toString v.index
  | none => "none"

/-- Two coordinates for people. -/
def pairText (v : Vec) : String := Spelling.plain.text v.x ++ " " ++ Spelling.plain.text v.y

/-- The part of the text that tells the information. -/
def infoText : EventInfo → String
  | .nothing => ""
  | .mouseButton button state modifiers position =>
    " (button " ++ button.valueText ++ ") (state " ++ state.valueText ++ ") (modifiers "
      ++ modifiers.valueText ++ ") (position " ++ pairText position ++ ")"
  | .cursorMoved position => " (position " ++ pairText position ++ ")"
  | .move position => " (position " ++ pairText position ++ ")"
  | .resize size => " (size " ++ pairText size ++ ")"
  | .custom _ => " (custom ..)"

/-- The text for people. It names the addressee, if there is one. -/
def text (e : Event) : String :=
  "(event (sender " ++ viewText e.sender ++ ") (kind " ++ e.kind.text ++ ")"
    ++ (if e.addressee.isSome then " (target " ++ viewText e.addressee ++ ")" else "")
    ++ infoText e.info ++ ")"

end Event

end RetainedUi
