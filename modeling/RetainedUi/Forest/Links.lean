import RetainedUi.Fault
import RetainedUi.Forest.Dirty

/-!
# Attaching, detaching and destroying

A link is stored on both sides, and every change of one clears the cached answers that may depend on
it: the leaves known to the views above, and the window and root known to the views below. The
superview is painted and laid out again. A refused attachment changes nothing at all.
-/

namespace RetainedUi.Forest

variable {W : Type}

/-- Forgets the leaves known to a view and its ancestors. -/
def clearLeafCaches (f : Forest W) (v : View) : Except Halt (Forest W) := do
  return (← f.lineage v).foldl (fun f above ↦ f.modify above fun node ↦ { node with leafCache := none }) f

/-- Forgets the window and the root known to the views of a family. -/
def clearAncestorCaches (f : Forest W) (v : View) : Except Halt (Forest W) := do
  return (← f.family v).foldl (fun f p ↦
    f.modify p.view fun node ↦ { node with windowCache := none, rootCache := none }) f

/-- What follows every change of the link between a superview and a view with the given frame. -/
def relinked (f : Forest W) (parent child : View) (frame : Rect) : Except Halt (Forest W) := do
  let f ← f.clearLeafCaches parent
  let f ← f.clearAncestorCaches child
  let f ← f.invalidate parent (some frame)
  f.requestLayout parent

/-- Makes a view the last subview of another one. Refused are dead views, a child that has a superview
already, and a child at or above its parent, in this order. -/
def addView (f : Forest W) (parent child : View) : Except Halt (Except Fault (Forest W)) := do
  if !f.contains parent then return .error (.invalidTarget parent)
  if !f.contains child then return .error (.invalidTarget child)
  let node ← f.read child
  if node.superview.isSome then return .error (.alreadyAttached child)
  if (← f.lineage parent).contains child then return .error (.wouldCycle child)
  let f := f.modify child fun node ↦ { node with superview := some parent }
  let f := f.modify parent fun node ↦ { node with subviews := node.subviews ++ [child] }
  return .ok (← f.relinked parent child node.frame)

/-- Makes a view a root of its own, unless it is one already. Its family stays together. -/
def removeFromSuperview (f : Forest W) (v : View) : Except Halt (Forest W) := do
  let node ← f.read v
  match node.superview with
  | none => return f
  | some parent =>
    let f := f.modify v fun node ↦ { node with superview := none }
    let f ← f.update parent fun node ↦ { node with subviews := node.subviews.filter (· != v) }
    f.relinked parent v node.frame

/-- Frees the views of a stack and everything below them. The last subview of a view is freed before
the others, which decides the order in which the slots are used again. -/
def freeStack : Nat → Forest W → List View → Except Halt (Forest W)
  | _, f, [] => .ok f
  | 0, _, _ :: _ => .error .exhausted
  | steps + 1, f, v :: rest => do
    let (node, f) ← f.free v
    freeStack steps f (node.subviews.reverse ++ rest)

/-- Detaches a view and frees its family. A dead handle is left alone. -/
def destroy (f : Forest W) (v : View) : Except Halt (Forest W) := do
  if !f.contains v then return f
  let f ← f.removeFromSuperview v
  freeStack f.slots.size f [v]

end RetainedUi.Forest
