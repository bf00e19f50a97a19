import RetainedUi.Forest.Links
import RetainedUi.Journal

/-!
# Layout

Laying out a view clears its mark, lets its widget arrange the subviews, and then settles each of the
subviews the view has by then. Settling a view lays it out if it is marked, and settles its subviews
otherwise.

A widget's layout may do to the forest what it likes: resize, attach, create or destroy views, and
lay out others. The widget itself is taken out of its node meanwhile. Nothing bounds how deep such a
layout goes, so the bound on the depth is given by the caller.
-/

namespace RetainedUi

/-- What a layout works on: the forest and what surrounds it. -/
structure Grove (W A : Type) where
  forest : Forest W
  ambient : Ambient A

namespace Grove

variable {W A α : Type}

/-- An answer about the forest. -/
def ask (question : Forest W → Except Halt α) : Pass (Grove W A) α := do
  Pass.lift (question (← get).forest)

/-- A change of the forest. -/
def change (step : Forest W → Except Halt (Forest W)) : Pass (Grove W A) Unit := fun s ↦
  match step s.forest with
  | .ok forest => .ok () { s with forest }
  | .error halt => .error halt s

/-- A change of the forest that answers something. -/
def changeAsk (step : Forest W → Except Halt (α × Forest W)) : Pass (Grove W A) α := fun s ↦
  match step s.forest with
  | .ok (answer, forest) => .ok answer { s with forest }
  | .error halt => .error halt s

end Grove

/-- The layout that a widget performs for its view, if it performs any. It answers with the widget as
it is afterwards. -/
abbrev LayoutConduct (W A : Type) := W → Option (View → Pass (Grove W A) W)

namespace Forest

variable {W A : Type}

/-- Clears the mark of a view and lets its widget arrange the subviews. The widget goes back to the
view's slot, whatever is in there by then. -/
def arrange (conduct : LayoutConduct W A) (v : View) : Pass (Grove W A) Unit := do
  Grove.change fun f ↦ f.update v fun node ↦ { node with needsLayout := false }
  let node ← Grove.ask fun f ↦ f.read v
  match node.widget with
  | none => pure ()
  | some widget =>
    Grove.change fun f ↦ f.update v fun node ↦ { node with widget := none }
    let widget ← match conduct widget with
      | some layout => layout v
      | none => pure widget
    Grove.change fun f ↦ .ok (f.modify v fun node ↦ { node with widget := some widget })

/-- Settles a view, which is laid out even without a mark if forced. The first number bounds the
depth. -/
def settle (conduct : LayoutConduct W A) : Nat → Bool → View → Pass (Grove W A) Unit
  | 0, _, _ => throw .exhausted
  | depth + 1, forced, v => do
    let node ← Grove.ask fun f ↦ f.read v
    if forced || node.needsLayout then arrange conduct v
    let node ← Grove.ask fun f ↦ f.read v
    node.subviews.forM fun sub ↦ settle conduct depth false sub

/-- Lays out a view and then whatever needs it below. -/
def performLayout (conduct : LayoutConduct W A) (depth : Nat) (v : View) : Pass (Grove W A) Unit :=
  settle conduct depth true v

/-- Lays out the topmost marked views of a family, and whatever needs it below them. -/
def layoutIfNeeded (conduct : LayoutConduct W A) (depth : Nat) (v : View) : Pass (Grove W A) Unit :=
  settle conduct depth false v

end Forest

end RetainedUi
