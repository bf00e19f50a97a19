import RetainedUi.Forest.Walks

/-!
# What has to be painted and laid out again

A region to be painted is clipped to the bounds of its view, merged into the pending region of that
view, and passed on to the superview in the coordinates there, as long as something of it is left.
The window at the top therefore knows of every region that shows.

A view that has to be laid out marks everything below it as well. A view that was marked before had
its family marked then, so the walk does not enter it again.
-/

namespace RetainedUi.Forest

variable {W : Type}

/-- The pending region after another clipped region is added. -/
def merged (pending : Option Rect) (clipped : Rect) : Rect :=
  match pending with
  | some existing => existing.union clipped
  | none => clipped

/-- Adds a region, or the whole bounds, to the pending region of a view and of the views above it. -/
def invalidateUp : Nat → Forest W → View → Option Rect → Except Halt (Forest W)
  | 0, _, _, _ => .error .exhausted
  | steps + 1, f, v, region => do
    let node ← f.read v
    let clipped := (region.getD node.bounds).intersection node.bounds
    let f := f.modify v fun node ↦ { node with invalidated := some (merged node.invalidated clipped) }
    if clipped.isEmpty then return f
    match node.superview with
    | none => return f
    | some above => invalidateUp steps f above (some (clipped.translated node.frame.origin))

/-- Marks a region of a view, or all of it, as to be painted again. -/
def invalidate (f : Forest W) (v : View) (region : Option Rect) : Except Halt (Forest W) :=
  invalidateUp f.slots.size f v region

/-- The pending region of a view, which is clean afterwards. -/
def takeInvalidated (f : Forest W) (v : View) : Except Halt (Option Rect × Forest W) := do
  let node ← f.read v
  return (node.invalidated, f.modify v fun node ↦ { node with invalidated := none })

/-- Marks the views of a stack. Only a view that was clean has its subviews put on the stack. -/
def markStack : Nat → Forest W → List View → Except Halt (Forest W)
  | _, f, [] => .ok f
  | 0, _, _ :: _ => .error .exhausted
  | steps + 1, f, v :: rest => do
    let node ← f.read v
    let f := f.modify v fun node ↦ { node with needsLayout := true }
    markStack steps f (if node.needsLayout then rest else node.subviews ++ rest)

/-- Marks a view and its family as to be laid out. -/
def requestLayout (f : Forest W) (v : View) : Except Halt (Forest W) :=
  markStack f.slots.size f [v]

/-- Whether some view of a family has to be laid out. -/
def needsLayoutBelow (f : Forest W) (v : View) : Except Halt Bool := do
  return (← f.family v).any fun p ↦ (f.node? p.view).any (·.needsLayout)

/-- Moves or resizes a view. The old and the new place are painted again, and a new size has to be
laid out. -/
def setFrame (f : Forest W) (v : View) (frame : Rect) : Except Halt (Forest W) := do
  let node ← f.read v
  if node.frame == frame then return f
  let f := f.modify v fun node ↦ { node with frame }
  let f ← if node.frame.size == frame.size then pure f else f.requestLayout v
  let f ← match node.superview with
    | some above => f.invalidate above (some node.frame)
    | none => pure f
  f.invalidate v none

end RetainedUi.Forest
