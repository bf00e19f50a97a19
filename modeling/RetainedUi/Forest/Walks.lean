import RetainedUi.Forest.Basic

/-!
# Walks along the links

Upwards a view has one chain of superviews, which ends at its root. Downwards its family is the view
itself and everything below it, a view before the views inside it and siblings in the order of their
superview. Each walk reads every node on its way and halts at a dead link. Its length is bounded by
the number of slots, since a forest has no longer chain and no larger family.
-/

namespace RetainedUi.Forest

variable {W : Type}

/-- The links upwards from a view that may be missing, at most as many as given. -/
def climb (f : Forest W) : Nat → Option View → Except Halt (List View)
  | _, none => .ok []
  | 0, some _ => .error .exhausted
  | steps + 1, some v => do
    let node ← f.read v
    return v :: (← f.climb steps node.superview)

/-- The ancestors of a view, the closest one first. -/
def superviews (f : Forest W) (v : View) : Except Halt (List View) := do
  let node ← f.read v
  f.climb f.slots.size node.superview

/-- A view and its ancestors. -/
def lineage (f : Forest W) (v : View) : Except Halt (List View) :=
  f.climb f.slots.size (some v)

/-- The walk downwards from a stack of views, the next one in front. Subviews go before the rest of
the stack, so the walk is depth first. -/
def descend (f : Forest W) : Nat → List Placed → Except Halt (List Placed)
  | _, [] => .ok []
  | 0, _ :: _ => .error .exhausted
  | steps + 1, p :: rest => do
    let node ← f.read p.view
    let inside := node.subviews.map fun sub ↦ ⟨sub, p.depth + 1⟩
    return p :: (← f.descend steps (inside ++ rest))

/-- A view and everything below it, each with its depth. -/
def family (f : Forest W) (v : View) : Except Halt (List Placed) :=
  f.descend f.slots.size [⟨v, 1⟩]

/-! ## Questions about ancestors -/

/-- The closest view with the window role at or above a view, or else its root. -/
def closestWindow (f : Forest W) : Nat → View → Except Halt View
  | 0, _ => .error .exhausted
  | steps + 1, v => do
    let node ← f.read v
    match node.role, node.superview with
    | .window, _ => return v
    | .plain, none => return v
    | .plain, some above => f.closestWindow steps above

/-- The view found by `closestWindow`. The answer is kept in the node until a link above changes. -/
def windowOf (f : Forest W) (v : View) : Except Halt (View × Forest W) := do
  let node ← f.read v
  match node.windowCache with
  | some window => return (window, f)
  | none =>
    let window ← f.closestWindow f.slots.size v
    return (window, f.modify v fun node ↦ { node with windowCache := some window })

/-- The topmost ancestor, or the view itself if it has none. The answer is kept in the node until a
link above changes. -/
def rootOf (f : Forest W) (v : View) : Except Halt (View × Forest W) := do
  let node ← f.read v
  match node.rootCache with
  | some root => return (root, f)
  | none =>
    let root := (← f.superviews v).getLast?.getD v
    return (root, f.modify v fun node ↦ { node with rootCache := some root })

/-- The frame origins of a view and its ancestors, the root excepted, whose own origin never matters
to the views inside. -/
def originsBelowRoot (f : Forest W) : Nat → View → Except Halt (List Vec)
  | 0, _ => .error .exhausted
  | steps + 1, v => do
    let node ← f.read v
    match node.superview with
    | none => return []
    | some above => return node.frame.origin :: (← f.originsBelowRoot steps above)

/-- A point of a view in the coordinates of its root. -/
def convertToRoot (f : Forest W) (v : View) (point : Vec) : Except Halt Vec := do
  return (← f.originsBelowRoot f.slots.size v).foldl (· + ·) point

/-- A point of the root of a view in the coordinates of that view. -/
def convertFromRoot (f : Forest W) (v : View) (point : Vec) : Except Halt Vec := do
  return (← f.originsBelowRoot f.slots.size v).foldl (· - ·) point

/-! ## Questions about the family -/

/-- The views that contain a point, each in its own coordinates, starting at a view. A view that does
not contain the point hides everything below it. The first number bounds the depth. -/
def containing (f : Forest W) : Nat → View → Vec → Except Halt (List View)
  | 0, _, _ => .error .exhausted
  | depth + 1, v, point => do
    let node ← f.read v
    if node.bounds.contains point then
      let inside ← node.subviews.mapM fun sub ↦ do
        f.containing depth sub (point - (← f.read sub).frame.origin)
      return v :: inside.flatten
    else return []

/-- The views at or below a view that contain a point, outer ones before the views inside them. -/
def viewsContaining (f : Forest W) (v : View) (point : Vec) : Except Halt (List View) :=
  f.containing f.slots.size v point

/-- The first view of a family with a tag. -/
def viewWithTag (f : Forest W) (v : View) (tag : String) : Except Halt (Option View) := do
  let found := (← f.family v).find? fun p ↦ (f.node? p.view).any (·.tag == some tag)
  return found.map (·.view)

/-- Whether a view has no subviews. -/
def isLeaf (f : Forest W) (v : View) : Bool := (f.node? v).any (·.subviews.isEmpty)

/-- The views without subviews in a family, each once, the deepest first. At equal depth the order of
the walk stays. -/
def leafViewsUncached (f : Forest W) (v : View) : Except Halt (List Placed) := do
  let leaves := (← f.family v).filter fun p ↦ f.isLeaf p.view
  let distinct := leaves.eraseDupsBy fun a b ↦ a.view == b.view
  return distinct.mergeSort fun a b ↦ decide (b.depth ≤ a.depth)

/-- The same views. The answer is kept in the node until a link below changes. -/
def leafViews (f : Forest W) (v : View) : Except Halt (List Placed × Forest W) := do
  let node ← f.read v
  match node.leafCache with
  | some leaves => return (leaves, f)
  | none =>
    let leaves ← f.leafViewsUncached v
    return (leaves, f.modify v fun node ↦ { node with leafCache := some leaves })

end RetainedUi.Forest
