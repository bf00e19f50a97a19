import RetainedUi.Proofs.Routing.Delivery

/-!
# Widgets in custody

While the widget of a view receives an event it is in nobody's node. The receiver may destroy the view,
create others, and give the view another widget. Afterwards the widget belongs back to that very view, if it
is still there and has got no other one, and to no view else.

A delivery looks at the slot of the view only. It gives the widget to whatever view is in there without one,
so the rule holds just if the slot has not been taken by a new view without a widget.
-/

namespace RetainedUi.Routing

variable {W D A : Type}

/-- The widget is given back to the view from which it was taken, if that view is live and has no other
widget, and all views else keep what the receiver has left them with. -/
def GivesBack (v : View) (serial : Nat) (widget : W) (left after : Forest W) : Prop :=
  ∀ w, after.widget? w =
    if w = v ∧ left.serial? v = some serial ∧ left.widget? v = none then some widget else left.widget? w

theorem serial?_putBack (s : Desk W D A) (v : View) (widget : W) (w : View) :
    (putBack s v widget).forest.serial? w = s.forest.serial? w :=
  Forest.serial?_modify s.forest v w fun _ ↦ rfl

/-- Putting back fills the slot if a view without a widget is in it. -/
theorem widget?_putBack (s : Desk W D A) (v : View) (widget : W) (w : View) :
    (putBack s v widget).forest.widget? w =
      if w = v ∧ s.forest.contains v = true ∧ s.forest.widget? v = none then some widget
      else s.forest.widget? w := by
  unfold putBack Forest.widget?
  rw [Forest.node?_modify]
  by_cases hview : w = v
  · subst hview
    cases hnode : s.forest.node? w with
    | none => simp [Forest.contains, hnode]
    | some node => cases hwidget : node.widget <;> simp [Forest.contains, hnode, hwidget]
  · simp [hview]

theorem givesBack_putBack_iff (s : Desk W D A) (v : View) (serial : Nat) (widget : W) :
    GivesBack v serial widget s.forest (putBack s v widget).forest ↔
      ¬ ∃ other, s.forest.node? v = some other ∧ other.serial ≠ serial ∧ other.widget = none := by
  constructor
  · rintro h ⟨other, hother, hserial, hwidget⟩
    have hcontains : s.forest.contains v = true := Forest.contains_iff.mpr ⟨other, hother⟩
    have hempty : s.forest.widget? v = none := by simp [Forest.widget?, hother, hwidget]
    have hchanged : s.forest.serial? v ≠ some serial := by simpa [Forest.serial?, hother] using hserial
    have hgiven := h v
    rw [widget?_putBack, if_pos ⟨rfl, hcontains, hempty⟩, if_neg fun h ↦ hchanged h.2.1, hempty] at hgiven
    cases hgiven
  · intro hkept w
    rw [widget?_putBack]
    congr 1
    refine propext (and_congr_right fun _ ↦ and_congr_left fun hempty ↦ ?_)
    constructor
    · intro hlive
      obtain ⟨other, hother⟩ := Forest.contains_iff.mp hlive
      by_contra hchanged
      refine hkept ⟨other, hother, ?_, ?_⟩
      · simpa [Forest.serial?, hother] using hchanged
      · simpa [Forest.widget?, hother] using hempty
    · intro hserial
      obtain ⟨other, hother, -⟩ := Forest.serial?_eq_some_iff.mp hserial
      exact Forest.contains_iff.mpr ⟨other, hother⟩

/-- A delivery gives the widget back to its own view and to no other, unless the receiver has left a new
view without a widget in the slot. -/
theorem deliver_gives_back_iff {conduct : HandlingConduct W D A} {s t : Desk W D A} {v : View}
    {node : Node W} {widget : W} {e : Event} {answer : W × Event} (hnode : s.forest.node? v = some node)
    (hwidget : node.widget = some widget) (hrun : receive conduct widget v e (takeWidget s v) = .ok answer t) :
    ∃ u, deliver conduct v e s = .ok (e.amended answer.2) u ∧
      (∀ w, u.forest.serial? w = t.forest.serial? w) ∧
      (GivesBack v node.serial answer.1 t.forest u.forest ↔
        ¬ ∃ other, t.forest.node? v = some other ∧ other.serial ≠ node.serial ∧ other.widget = none) := by
  refine ⟨putBack t v answer.1, ?_, serial?_putBack t v answer.1,
    givesBack_putBack_iff t v node.serial answer.1⟩
  rw [deliver_eq hnode, hwidget]
  dsimp only
  rw [hrun]

/-- A receiver destroys its view, and the widget goes with it. -/
theorem deliver_gives_back_destroyed : ∃ (conduct : HandlingConduct Bool Unit Unit)
    (s t u : Desk Bool Unit Unit) (e e' : Event), s.forest.widget? ⟨1⟩ = some true ∧
      t.forest.contains ⟨1⟩ = false ∧ deliver conduct ⟨1⟩ e s = .ok e' u ∧
      GivesBack ⟨1⟩ 1 true t.forest u.forest := by
  let conduct : HandlingConduct Bool Unit Unit := fun widget ↦ some fun v e ↦ do
    Desk.onGrove (Grove.change fun f ↦ f.destroy v)
    return (widget, e)
  let node : Node Bool :=
    { (Node.detached .zero .plain : Node Bool) with serial := 1, widget := some true }
  let s : Desk Bool Unit Unit :=
    { forest := (Forest.empty.create .zero).2.modify ⟨1⟩ fun node ↦ { node with widget := some true }
      queue := [], redirects := .empty, deferred := [], ambient := ⟨#[], ()⟩ }
  let e : Event := Event.closeRequest none
  have hnode : s.forest.node? ⟨1⟩ = some node := rfl
  let gone : Forest Bool :=
    { slots := #[some (.detached .zero .plain), none], vacant := [1], lastSerial := 1, scaleFactor := 1 }
  have hrun : receive conduct true ⟨1⟩ e (takeWidget s ⟨1⟩) = .ok (true, e) { s with forest := gone } := rfl
  obtain ⟨u, hdeliver, -, hback⟩ := deliver_gives_back_iff hnode rfl hrun
  refine ⟨conduct, s, _, u, e, _, rfl, rfl, hdeliver, hback.mpr ?_⟩
  rintro ⟨other, hother, -⟩
  cases hother

/-- A receiver destroys its view and creates another one, which takes the slot and is given the widget. -/
theorem deliver_gives_widget_to_newcomer : ∃ (conduct : HandlingConduct Bool Unit Unit)
    (s t u : Desk Bool Unit Unit) (e e' : Event) (answer : Bool × Event), Forest.empty.Reaches s.forest ∧
      s.forest.serial? ⟨1⟩ = some 1 ∧ s.forest.widget? ⟨1⟩ = some true ∧
      receive conduct true ⟨1⟩ e (takeWidget s ⟨1⟩) = .ok answer t ∧
      t.forest.serial? ⟨1⟩ = some 2 ∧ t.forest.widget? ⟨1⟩ = none ∧ deliver conduct ⟨1⟩ e s = .ok e' u ∧
      u.forest.serial? ⟨1⟩ = some 2 ∧ u.forest.widget? ⟨1⟩ = some true ∧
      ¬ GivesBack ⟨1⟩ 1 answer.1 t.forest u.forest := by
  let conduct : HandlingConduct Bool Unit Unit := fun widget ↦ some fun v e ↦ do
    Desk.onGrove (Grove.change fun f ↦ f.destroy v)
    Desk.onGrove (Grove.change fun f ↦ .ok (f.create .zero).2)
    return (widget, e)
  let s : Desk Bool Unit Unit :=
    { forest := (Forest.empty.create .zero).2.modify ⟨1⟩ fun node ↦ { node with widget := some true }
      queue := [], redirects := .empty, deferred := [], ambient := ⟨#[], ()⟩ }
  have hreach : Forest.empty.Reaches s.forest :=
    ((Forest.Reaches.refl Forest.empty).step (.create _ .zero)).step (.setWidget _ ⟨1⟩ (some true))
  refine ⟨conduct, s, _, _, Event.closeRequest none, _, _, hreach, rfl, rfl, rfl, rfl, rfl, rfl, rfl, rfl,
    fun hback ↦ ?_⟩
  have hgiven : some true = none := hback ⟨1⟩
  cases hgiven

end RetainedUi.Routing
