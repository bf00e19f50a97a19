import RetainedUi.Geometry.Rect
import RetainedUi.Halt

/-!
# Nodes

A node is what the forest keeps of one view: its frame in the coordinates of its superview, its links
in both directions, what has to be painted and laid out again, three cached answers about the views
around it, and its widget.

A view without a superview is a root of its own.
-/

namespace RetainedUi

/-- Whether a view stands for a window. -/
inductive Role where
  | plain
  | window
  deriving DecidableEq, Repr

def Role.valueText : Role → String
  | plain => "Plain"
  | window => "Window"

/-- A view and how deep it lies below the view of a query, which has depth one itself. -/
structure Placed where
  view : View
  depth : Nat
  deriving DecidableEq, Repr

/-- One view, with a widget of type W if it has any. -/
structure Node (W : Type) where
  frame : Rect
  tag : Option String
  role : Role
  /-- Tells the view from every other one that ever had the same slot. -/
  serial : Nat
  superview : Option View
  subviews : List View
  /-- The region that has to be painted again, in the coordinates of the view. -/
  invalidated : Option Rect
  needsLayout : Bool
  leafCache : Option (List Placed)
  windowCache : Option View
  rootCache : Option View
  /-- Taken out while one of its callbacks runs. -/
  widget : Option W
  deriving Repr

namespace Node

variable {W : Type}

/-- A view on its own: to be painted as a whole, and to be laid out. -/
def detached (frame : Rect) (role : Role) : Node W :=
  { frame
    tag := none
    role
    serial := 0
    superview := none
    subviews := []
    invalidated := some (frame.withOrigin .zero)
    needsLayout := true
    leafCache := none
    windowCache := none
    rootCache := none
    widget := none }

/-- The frame in the coordinates of the view itself. -/
def bounds (node : Node W) : Rect := node.frame.withOrigin .zero

end Node

end RetainedUi
