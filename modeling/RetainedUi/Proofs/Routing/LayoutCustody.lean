import RetainedUi.Proofs.Forest.LayoutTurns
import RetainedUi.Proofs.Routing.Custody

/-!
# Widgets that lay out

While a widget lays out its view it is in nobody's node either, and the layout may do what a receiver may do: destroy
the view, create others, and give the view another widget. A pass of layout takes less care of the widget than a
delivery does. It fills the slot of the view with it, whatever is in there: a widget that the layout has given to the
view is lost, and so is the one of a new view that has taken the slot. All other views keep what the layout has left
them with.

So the widget is given back as it should be just if the layout leaves its own view in the slot and no widget in it.
-/

namespace RetainedUi.Routing

variable {W D A : Type}

/-- What a pass of layout does with the widget afterwards. -/
def refill (s : Grove W A) (v : View) (widget : W) : Grove W A :=
  { s with forest := s.forest.modify v fun node ↦ { node with widget := some widget } }

section

variable {s : Grove W A} {v : View} {other : Node W} (hother : s.forest.node? v = some other)
include hother

/-- The slot is filled even if there is a widget in it. -/
theorem widget?_refill (widget : W) (w : View) :
    (refill s v widget).forest.widget? w = if w = v then some widget else s.forest.widget? w := by
  unfold refill
  split
  case isTrue hview =>
    subst hview
    exact Forest.widget?_of_node? (Forest.node?_modify_self hother _)
  case isFalse hview => exact Forest.widget?_modify_of_ne hview _ _

theorem givesBack_refill_iff (serial : Nat) (widget : W) :
    GivesBack v serial widget s.forest (refill s v widget).forest ↔
      other.widget = some widget ∨ other.serial = serial ∧ other.widget = none := by
  have hserial : s.forest.serial? v = some other.serial := Forest.serial?_eq_some_iff.mpr ⟨other, hother, rfl⟩
  have hwidget : s.forest.widget? v = other.widget := Forest.widget?_of_node? hother
  unfold GivesBack
  simp only [widget?_refill hother, hserial, hwidget, Option.some.injEq]
  constructor
  · intro h
    have hgiven := h v
    rw [if_pos rfl] at hgiven
    split at hgiven
    case isTrue hkept => exact .inr hkept.2
    case isFalse => exact .inl (hwidget.symm.trans hgiven.symm)
  · intro h w
    by_cases hview : w = v
    · subst hview
      rcases h with hsame | hkept
      · simp [hwidget, hsame]
      · simp [hkept]
    · simp [hview]

/-- Layout and delivery do the same with a widget just if the view has been left without another one. -/
theorem refill_eq_putBack_iff {desk : Desk W D A} (hdesk : desk.forest = s.forest) (widget : W) :
    (refill s v widget).forest = (putBack desk v widget).forest ↔
      other.widget = none ∨ other.widget = some widget := by
  unfold refill putBack
  rw [hdesk]
  constructor
  · intro h
    have hnode := congrArg (fun f ↦ f.node? v) h
    simp only [Forest.node?_modify_self hother, Option.some.injEq, Node.mk.injEq, true_and] at hnode
    cases hwidget : other.widget with
    | none => exact .inl rfl
    | some held =>
      rw [hwidget, Option.getD_some] at hnode
      exact .inr (congrArg some hnode.symm)
  · intro h
    refine Forest.modify_congr fun node hnode ↦ ?_
    cases hother.symm.trans hnode
    rcases h with hempty | hsame
    · simp [hempty]
    · simp [hsame]

end

/-- The turn of a view whose widget lays out ends where the layout ends, but for the widget that is put back. -/
theorem exists_refill_of_visit {conduct : LayoutConduct W A} {v : View} {s back : Grove W A} {node : Node W}
    {widget : W} {layout : View → Pass (Grove W A) W} {subs : List View} (hnode : s.forest.node? v = some node)
    (hwidget : node.widget = some widget) (hlayout : conduct widget = some layout)
    (hvisit : Forest.visit conduct true v s = .ok subs back) :
    ∃ answer left, layout v { s with forest := s.forest.clearedFor v } = .ok answer left ∧
      refill left v answer = back := by
  obtain ⟨hattend, -⟩ := Forest.visit_eq_ok_iff.mp hvisit
  have harrange : Forest.arrange conduct v s = .ok () back := by simpa using (Forest.attend_eq_ok_iff.mp hattend).2
  rw [Forest.arrange_eq hnode, hwidget] at harrange
  dsimp only at harrange
  rw [hlayout] at harrange
  obtain ⟨answer, left, hleft, hback⟩ := Pass.bind_eq_ok.mp harrange
  obtain ⟨_, hfilled, hback⟩ := Grove.change_eq_ok.mp hback
  cases hfilled
  exact ⟨answer, left, hleft, hback⟩

/-- A pass of layout over a view fills its slot with the widget, and changes no other view's. This gives the widget
back as it should just if the layout has left the very view in the slot and no other widget in it. -/
theorem performLayout_gives_back_iff {conduct : LayoutConduct W A} {depth : Nat} {v : View} {s u : Grove W A}
    {node : Node W} {widget : W} {layout : View → Pass (Grove W A) W} (hnode : s.forest.node? v = some node)
    (hwidget : node.widget = some widget) (hlayout : conduct widget = some layout)
    (hrun : Forest.performLayout conduct depth v s = .ok () u) :
    ∃ answer left other, layout v { s with forest := s.forest.clearedFor v } = .ok answer left ∧
      left.forest.node? v = some other ∧
      Forest.visit conduct true v s = .ok ((refill left v answer).forest.subviewsOf v) (refill left v answer) ∧
      Forest.Turns conduct ⟨false, (refill left v answer).forest.subviewsOf v, refill left v answer⟩ ⟨false, [], u⟩ ∧
      (∀ w, (refill left v answer).forest.widget? w = if w = v then some answer else left.forest.widget? w) ∧
      (GivesBack v node.serial answer left.forest (refill left v answer).forest ↔
        other.widget = some answer ∨ other.serial = node.serial ∧ other.widget = none) ∧
      ∀ desk : Desk W D A, desk.forest = left.forest →
        ((refill left v answer).forest = (putBack desk v answer).forest ↔
          other.widget = none ∨ other.widget = some answer) := by
  obtain ⟨depth, rfl⟩ : ∃ below, depth = below + 1 := by
    cases depth with
    | zero => cases hrun
    | succ below => exact ⟨below, rfl⟩
  unfold Forest.performLayout at hrun
  rw [Forest.settle_succ] at hrun
  obtain ⟨subs, back, hvisit, hsubs⟩ := Pass.bind_eq_ok.mp hrun
  obtain ⟨answer, left, hleft, rfl⟩ := exists_refill_of_visit hnode hwidget hlayout hvisit
  obtain ⟨-, hlive, rfl⟩ := Forest.visit_eq_ok_iff.mp hvisit
  -- The view was asked for its subviews afterwards, so some view was left in the slot.
  obtain ⟨other, hother⟩ := Forest.contains_iff.mp ((Forest.contains_modify left.forest v v _).symm.trans hlive)
  refine ⟨answer, left, other, hleft, hother, hvisit, ?_, widget?_refill hother answer,
    givesBack_refill_iff hother node.serial answer, fun desk hdesk ↦ refill_eq_putBack_iff hother hdesk answer⟩
  simpa using Forest.turns_of_forM (fun rest h ↦ Forest.turns_of_settle h rest) hsubs []

/-- A view with a widget, and another view without one. -/
def attended : Forest Bool := ((Forest.empty.create .zero).2.create .zero).2.equipped true [⟨1⟩]

theorem reaches_attended : Forest.empty.Reaches attended :=
  (((Forest.Reaches.refl Forest.empty).step (.create _ .zero)).step (.create _ .zero)).equipped true _

/-- A layout gives the other view a widget, and both keep theirs. -/
theorem performLayout_gives_back_attended : ∃ (conduct : LayoutConduct Bool Unit) (s left u : Grove Bool Unit),
    s.forest = attended ∧ Forest.performLayout conduct 1 ⟨1⟩ s = .ok () u ∧
      [⟨1⟩, ⟨2⟩].map left.forest.widget? = [none, some false] ∧ GivesBack ⟨1⟩ 1 true left.forest u.forest ∧
        [⟨1⟩, ⟨2⟩].map u.forest.widget? = [some true, some false] := by
  let conduct : LayoutConduct Bool Unit := fun widget ↦ some fun _ ↦ do
    Grove.change fun f ↦ .ok (f.modify ⟨2⟩ fun node ↦ { node with widget := some false })
    return widget
  let s : Grove Bool Unit := ⟨attended, ⟨#[], ()⟩⟩
  obtain ⟨answer, left, other, hleft, hother, -, -, -, hback, -⟩ :=
    @performLayout_gives_back_iff Bool Unit Unit conduct 1 ⟨1⟩ s _ _ true _ rfl rfl rfl rfl
  cases hleft
  cases hother
  exact ⟨conduct, s, _, _, rfl, rfl, rfl, hback.mpr (.inr ⟨rfl, rfl⟩), rfl⟩

/-- A layout gives its own view another widget, and that one is lost. Another one destroys the view and creates a new
one, which takes the slot and is given the widget. -/
theorem performLayout_overwrites : ∃ (installing renewing : View → Pass (Grove Bool Unit) Bool)
    (s installed renewed u u' : Grove Bool Unit), Forest.empty.Reaches s.forest ∧
      s.forest.serial? ⟨1⟩ = some 1 ∧ s.forest.widget? ⟨1⟩ = some true ∧
      installing ⟨1⟩ { s with forest := s.forest.clearedFor ⟨1⟩ } = .ok true installed ∧
      installed.forest.serial? ⟨1⟩ = some 1 ∧ installed.forest.widget? ⟨1⟩ = some false ∧
      Forest.performLayout (fun _ ↦ some installing) 1 ⟨1⟩ s = .ok () u ∧
      u.forest.widget? ⟨1⟩ = some true ∧ ¬ GivesBack ⟨1⟩ 1 true installed.forest u.forest ∧
      renewing ⟨1⟩ { s with forest := s.forest.clearedFor ⟨1⟩ } = .ok true renewed ∧
      renewed.forest.serial? ⟨1⟩ = some 3 ∧ renewed.forest.widget? ⟨1⟩ = none ∧
      Forest.performLayout (fun _ ↦ some renewing) 1 ⟨1⟩ s = .ok () u' ∧
      u'.forest.widget? ⟨1⟩ = some true ∧ ¬ GivesBack ⟨1⟩ 1 true renewed.forest u'.forest := by
  let installing : View → Pass (Grove Bool Unit) Bool := fun v ↦ do
    Grove.change fun f ↦ .ok (f.modify v fun node ↦ { node with widget := some false })
    return true
  let renewing : View → Pass (Grove Bool Unit) Bool := fun v ↦ do
    Grove.change fun f ↦ f.destroy v
    Grove.change fun f ↦ .ok (f.create .zero).2
    return true
  refine ⟨installing, renewing, ⟨attended, ⟨#[], ()⟩⟩, _, _, _, _, reaches_attended, rfl, rfl, rfl, rfl, rfl, rfl, rfl,
    fun hback ↦ ?_, rfl, rfl, rfl, rfl, rfl, fun hback ↦ ?_⟩
  · have hlost : some true = some false := hback ⟨1⟩
    cases hlost
  · have hgiven : some true = none := hback ⟨1⟩
    cases hgiven

end RetainedUi.Routing
