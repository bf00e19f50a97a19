import RetainedUi.Proofs.Forest.Freeing
import RetainedUi.Proofs.Forest.LayoutPass

/-!
# Layouts that destroy views

A layout may destroy views that the pass has still to do with. To see which ones, a pass is looked at as a walk over a
list of views. The first of them has its turn: it is laid out if that is needed, and is asked for its subviews, which
go in front of the views that wait.

The pass does not look whether a view is alive before it touches it, neither the view that was laid out when it is
asked for its subviews, nor a view that has waited. So it touches a dead view only if a turn costs the life of the view
whose turn it is, or of one that waits. Others may go: views below the one whose turn it is, since it is asked for them
afterwards only, and views that the pass is done with.
-/

namespace RetainedUi.Forest

variable {W A : Type}

instance : IsPreorder (Forest W) Reaches where
  refl := .refl
  trans _ _ _ := .trans

theorem Tends.reaches {f g : Forest W} (h : Tends f g) : Reaches f g := (Reaches.refl f).step h.step

/-! ## Turns -/

/-- Lays out a view if it is marked, or if that is forced. -/
def attend (conduct : LayoutConduct W A) (forced : Bool) (v : View) : Pass (Grove W A) Unit := do
  let node ← Grove.ask fun f ↦ f.read v
  if forced || node.needsLayout then arrange conduct v

/-- The turn of a view. It answers with the subviews that the view has by then. -/
def visit (conduct : LayoutConduct W A) (forced : Bool) (v : View) : Pass (Grove W A) (List View) := do
  attend conduct forced v
  let node ← Grove.ask fun f ↦ f.read v
  return node.subviews

/-- Where a pass is: the views that wait for their turn, and whether the first of them is laid out without a mark. -/
structure Stage (W A : Type) where
  forced : Bool
  waiting : List View
  grove : Grove W A

/-- The view in front has its turn. -/
inductive Turn (conduct : LayoutConduct W A) : Stage W A → Stage W A → Prop where
  | visit {forced : Bool} {v : View} {s t : Grove W A} {subs : List View}
      (hvisit : visit conduct forced v s = .ok subs t) (rest : List View) :
      Turn conduct ⟨forced, v :: rest, s⟩ ⟨false, subs ++ rest, t⟩

abbrev Turns (conduct : LayoutConduct W A) : Stage W A → Stage W A → Prop := Relation.ReflTransGen (Turn conduct)

/-- A turn costs a view its life that is still to be touched: it is the turn of that view, or the view waits. -/
def Loses (conduct : LayoutConduct W A) (start : Stage W A) (x : View) : Prop :=
  ∃ forced v rest s t, Turns conduct start ⟨forced, v :: rest, s⟩ ∧ attend conduct forced v s = .ok () t ∧
    x ∈ v :: rest ∧ s.forest.contains x = true ∧ t.forest.contains x = false

/-- Every layout that is run comes to an answer, as it does if it uses live handles only. What it does to the forest is
within a relation. -/
def Unhindered (R : Forest W → Forest W → Prop) (conduct : LayoutConduct W A) (start : Stage W A) : Prop :=
  ∀ forced v rest s, Turns conduct start ⟨forced, v :: rest, s⟩ → (forced || s.forest.marked v) = true →
    ∀ widget layout, s.forest.widget? v = some widget → conduct widget = some layout →
      ∃ answer t, layout v { s with forest := s.forest.clearedFor v } = .ok answer t ∧
        R (s.forest.clearedFor v) t.forest

/-- No view comes to be, and none becomes a subview of another one. -/
structure Prunes (f g : Forest W) : Prop where
  contains : ∀ w, g.contains w = true → f.contains w = true
  subviews : ∀ w, g.subviewsOf w ⊆ f.subviewsOf w

variable {f g h : Forest W} {v w x : View}

namespace Prunes

theorem refl (f : Forest W) : Prunes f f := ⟨fun _ ↦ id, fun _ ↦ List.Subset.refl _⟩

theorem trans (hfg : Prunes f g) (hgh : Prunes g h) : Prunes f h :=
  ⟨fun w hw ↦ hfg.contains w (hgh.contains w hw), fun w ↦ List.Subset.trans (hgh.subviews w) (hfg.subviews w)⟩

instance : IsPreorder (Forest W) Prunes where
  refl := refl
  trans _ _ _ := trans

theorem of_alike (h : Alike Node.links f g) : Prunes f g where
  contains w hw := (h.contains w).trans hw
  subviews w := by rw [h.subviewsOf w]; exact List.Subset.refl _

theorem of_tends (h : Tends f g) : Prunes f g := by
  refine of_alike ?_
  cases h with
  | setWidget v widget => exact .modify (fun _ ↦ by rfl) f v
  | unmark v => exact .modify (fun _ ↦ by rfl) f v
  | takeInvalidated h => exact (alike_of_takeInvalidated h).map Node.links
  | invalidate h => exact (alike_of_invalidate h).map Node.links

/-- What fits a view fits it also when there are fewer views below. -/
theorem fits (h : Prunes f g) (hg : g.WellFormed) {depth : Nat} (hfits : f.Fits depth v)
    (hv : g.contains v = true) : g.Fits depth v := by
  induction depth generalizing v with
  | zero => exact hfits
  | succ depth ih => exact ⟨hv, fun sub hsub ↦ ih (hfits.2 sub (h.subviews v hsub)) (hg.contains_subview hsub)⟩

end Prunes

section

variable {conduct : LayoutConduct W A} {forced : Bool} {s t : Grove W A} {subs rest : List View} {depth : Nat}

theorem ask_dead (hdead : s.forest.contains v = false) :
    (Grove.ask (fun f ↦ f.read v) : Pass (Grove W A) (Node W)) s = .error (.deadView v) s := by
  have hnode : s.forest.node? v = none := by simpa [contains] using hdead
  change Pass.lift (s.forest.read v) s = _
  rw [read, hnode]
  rfl

theorem attend_eq_ok_iff : attend conduct forced v s = .ok () t ↔ s.forest.contains v = true ∧
    if forced || s.forest.marked v then arrange conduct v s = .ok () t else s = t := by
  unfold attend
  cases hnode : s.forest.node? v with
  | none =>
    have hdead : s.forest.contains v = false := by rw [contains, hnode]; rfl
    rw [Pass.bind_of_error (ask_dead hdead), hdead]
    simp
  | some node =>
    have hread : Grove.ask (fun f ↦ f.read v) s = .ok node s := Grove.ask_eq_ok.mpr ⟨read_eq_ok.mpr hnode, rfl⟩
    have hlive : s.forest.contains v = true := contains_iff.mpr ⟨node, hnode⟩
    rw [Pass.bind_of_ok hread, marked_of_node? hnode]
    cases forced || node.needsLayout with
    | false => simpa [hlive] using ⟨fun h ↦ by cases h; rfl, fun h ↦ by cases h; rfl⟩
    | true => simp [hlive]

theorem visit_eq_ok_iff : visit conduct forced v s = .ok subs t ↔
    attend conduct forced v s = .ok () t ∧ t.forest.contains v = true ∧ subs = t.forest.subviewsOf v := by
  unfold visit
  rw [Pass.bind_eq_ok]
  constructor
  · rintro ⟨_, mid, hattend, h⟩
    obtain ⟨node, _, hread, h⟩ := Pass.bind_eq_ok.mp h
    obtain ⟨hnode, rfl⟩ := Grove.ask_eq_ok.mp hread
    cases h
    rw [read_eq_ok] at hnode
    exact ⟨hattend, contains_iff.mpr ⟨node, hnode⟩, (subviewsOf_of_node? hnode).symm⟩
  · rintro ⟨hattend, hlive, rfl⟩
    obtain ⟨node, hnode⟩ := contains_iff.mp hlive
    refine ⟨(), t, hattend, Pass.bind_eq_ok.mpr ⟨node, t, Grove.ask_eq_ok.mpr ⟨read_eq_ok.mpr hnode, rfl⟩, ?_⟩⟩
    rw [subviewsOf_of_node? hnode]
    rfl

/-- A dead view cannot have a turn. -/
theorem visit_dead (hdead : s.forest.contains v = false) : visit conduct forced v s = .error (.deadView v) s :=
  Pass.bind_of_error (Pass.bind_of_error (ask_dead hdead))

/-- A view that dies in its turn cannot be asked for its subviews. -/
theorem visit_dying (hattend : attend conduct forced v s = .ok () t) (hdead : t.forest.contains v = false) :
    visit conduct forced v s = .error (.deadView v) t :=
  (Pass.bind_of_ok hattend).trans (Pass.bind_of_error (ask_dead hdead))

/-- A view is settled in its turn and the turns of its subviews. -/
theorem settle_succ (conduct : LayoutConduct W A) (depth : Nat) (forced : Bool) (v : View) :
    settle conduct (depth + 1) forced v =
      visit conduct forced v >>= fun subs ↦ subs.forM fun sub ↦ settle conduct depth false sub := by
  conv_lhs => unfold settle
  unfold visit attend
  simp only [bind_assoc, pure_bind]
  refine bind_congr fun node ↦ ?_
  split <;> simp

/-! ## A pass as a sequence of turns -/

theorem turns_of_forM (ih : ∀ {v : View} {s t : Grove W A} (rest : List View),
      settle conduct depth false v s = .ok () t → Turns conduct ⟨false, v :: rest, s⟩ ⟨false, rest, t⟩)
    (hrun : subs.forM (fun sub ↦ settle conduct depth false sub) s = .ok ⟨⟩ t) (rest : List View) :
    Turns conduct ⟨false, subs ++ rest, s⟩ ⟨false, rest, t⟩ := by
  induction subs generalizing s with
  | nil =>
    cases hrun
    exact .refl
  | cons sub subs ihs =>
    obtain ⟨_, mid, hsub, hsubs⟩ := Pass.bind_eq_ok.mp hrun
    exact (ih (subs ++ rest) hsub).trans (ihs hsubs)

/-- Whoever else waits, a view that is settled leaves the list. -/
theorem turns_of_settle (hrun : settle conduct depth forced v s = .ok () t) (rest : List View) :
    Turns conduct ⟨forced, v :: rest, s⟩ ⟨false, rest, t⟩ := by
  induction depth generalizing forced v s t rest with
  | zero => cases hrun
  | succ depth ih =>
    rw [settle_succ] at hrun
    obtain ⟨subs, mid, hvisit, hsubs⟩ := Pass.bind_eq_ok.mp hrun
    exact .head (.visit hvisit rest) (turns_of_forM (fun rest h ↦ ih h rest) hsubs rest)

/-- A view has a turn that halts. -/
def Stuck (conduct : LayoutConduct W A) (start : Stage W A) (halt : Halt) : Prop :=
  ∃ forced v rest s t, Turns conduct start ⟨forced, v :: rest, s⟩ ∧ visit conduct forced v s = .error halt t

theorem Stuck.after {start stage : Stage W A} {halt : Halt} (hturns : Turns conduct start stage)
    (h : Stuck conduct stage halt) : Stuck conduct start halt := by
  obtain ⟨forced, v, rest, s, t, hreached, hvisit⟩ := h
  exact ⟨forced, v, rest, s, t, hturns.trans hreached, hvisit⟩

theorem stuck_of_forM {halt : Halt} (ih : ∀ {v : View} {s : Grove W A} (rest : List View),
      settle conduct depth false v s = .error halt t → halt = .exhausted ∨ Stuck conduct ⟨false, v :: rest, s⟩ halt)
    (hrun : subs.forM (fun sub ↦ settle conduct depth false sub) s = .error halt t) (rest : List View) :
    halt = .exhausted ∨ Stuck conduct ⟨false, subs ++ rest, s⟩ halt := by
  induction subs generalizing s with
  | nil => cases hrun
  | cons sub subs ihs =>
    rcases Pass.bind_eq_error.mp hrun with hsub | ⟨_, mid, hsub, hsubs⟩
    · exact ih (subs ++ rest) hsub
    · exact (ihs hsubs).imp_right (.after (turns_of_settle hsub (subs ++ rest)))

/-- A pass that does not come to its end is at its bound, or it halts in a turn. -/
theorem stuck_of_settle {halt : Halt} (hrun : settle conduct depth forced v s = .error halt t) (rest : List View) :
    halt = .exhausted ∨ Stuck conduct ⟨forced, v :: rest, s⟩ halt := by
  induction depth generalizing forced v s rest with
  | zero =>
    cases hrun
    exact .inl rfl
  | succ depth ih =>
    rw [settle_succ] at hrun
    rcases Pass.bind_eq_error.mp hrun with hvisit | ⟨subs, mid, hvisit, hsubs⟩
    · exact .inr ⟨forced, v, rest, s, t, .refl, hvisit⟩
    · exact (stuck_of_forM (fun rest h ↦ ih h rest) hsubs rest).imp_right (.after (.single (.visit hvisit rest)))

theorem rightUnique_turn (conduct : LayoutConduct W A) : Relator.RightUnique (Turn conduct) := by
  intro stage next other hnext hother
  cases hnext with
  | visit hvisit rest =>
    cases hother with
    | visit hvisit' _ =>
      cases hvisit.symm.trans hvisit'
      rfl

/-! ## What a turn does -/

section

variable {start : Stage W A}

section

variable {R : Forest W → Forest W → Prop} [IsPreorder (Forest W) R] (hR : ∀ f g, Tends f g → R f g)
  (hlayouts : Unhindered R conduct start) (hreached : Turns conduct start ⟨forced, v :: rest, s⟩)
include hR hlayouts hreached

/-- A live view is laid out, if no layout hinders that. -/
theorem exists_attend (hlive : s.forest.contains v = true) :
    ∃ t, attend conduct forced v s = .ok () t ∧ R s.forest t.forest := by
  simp only [attend_eq_ok_iff, hlive, true_and]
  cases hneeded : forced || s.forest.marked v with
  | false => exact ⟨s, rfl, refl_of R s.forest⟩
  | true =>
    obtain ⟨node, hnode⟩ := contains_iff.mp hlive
    have hwidget : s.forest.widget? v = node.widget := widget?_of_node? hnode
    have hunmarked : R s.forest (s.forest.modify v Node.withoutMark) := hR _ _ (.unmark s.forest v)
    have hcleared : R s.forest (s.forest.clearedFor v) := trans_of R hunmarked (hR _ _ (.setWidget _ v none))
    have hback (laid : Forest W) (widget : W) :
        R laid (laid.modify v fun node ↦ { node with widget := some widget }) :=
      hR _ _ (.setWidget laid v (some widget))
    simp only [if_true, arrange_eq hnode]
    cases hhas : node.widget with
    | none => exact ⟨_, rfl, hunmarked⟩
    | some widget =>
      dsimp only
      cases hlayout : conduct widget with
      | none => exact ⟨_, rfl, trans_of R hcleared (hback _ widget)⟩
      | some layout =>
        obtain ⟨answer, laid, hrun, hlaid⟩ :=
          hlayouts forced v rest s hreached hneeded widget layout (hwidget.trans hhas) hlayout
        exact ⟨_, Pass.bind_of_ok hrun, trans_of R (trans_of R hcleared hlaid) (hback laid.forest answer)⟩

/-- What a turn does to the forest is within the relation, as its layout is. -/
theorem rel_of_visit (hvisit : visit conduct forced v s = .ok subs t) : R s.forest t.forest := by
  obtain ⟨hattend, -⟩ := visit_eq_ok_iff.mp hvisit
  obtain ⟨_, hattend', hst⟩ := exists_attend hR hlayouts hreached (attend_eq_ok_iff.mp hattend).1
  cases hattend.symm.trans hattend'
  exact hst

end

/-- A stage of a pass: the forest is well-formed, and the views that wait are alive, but for those that have lost their
life in a turn. -/
structure Orderly (conduct : LayoutConduct W A) (start stage : Stage W A) : Prop where
  reaches : start.grove.forest.Reaches stage.grove.forest
  wellFormed : stage.grove.forest.WellFormed
  waiting : ∀ x ∈ stage.waiting, stage.grove.forest.contains x = true ∨ Loses conduct start x

variable (hlayouts : Unhindered Reaches conduct start)
include hlayouts

theorem Orderly.turn {stage next : Stage W A} (horderly : Orderly conduct start stage)
    (hreached : Turns conduct start stage) (hturn : Turn conduct stage next) : Orderly conduct start next := by
  cases hturn with
  | @visit forced v s t subs hvisit rest =>
    have hst : s.forest.Reaches t.forest := rel_of_visit (fun _ _ ↦ Tends.reaches) hlayouts hreached hvisit
    obtain ⟨hattend, hlive, rfl⟩ := visit_eq_ok_iff.mp hvisit
    have hwell := hst.wellFormed horderly.wellFormed
    refine ⟨horderly.reaches.trans hst, hwell, fun x hx ↦ ?_⟩
    rcases List.mem_append.mp hx with hsub | hrest
    · exact .inl (hwell.contains_subview hsub)
    · have hwaits : x ∈ v :: rest := List.mem_cons_of_mem v hrest
      rcases horderly.waiting x hwaits with hx | hlost
      · cases hstill : t.forest.contains x with
        | true => exact .inl rfl
        | false => exact .inr ⟨forced, v, rest, s, t, hreached, hattend, hwaits, hx, hstill⟩
      · exact .inr hlost

theorem orderly_of_turns (hf : start.grove.forest.WellFormed)
    (hwaiting : ∀ x ∈ start.waiting, start.grove.forest.contains x = true) {stage : Stage W A}
    (hreached : Turns conduct start stage) : Orderly conduct start stage := by
  induction hreached with
  | refl => exact ⟨.refl _, hf, fun x hx ↦ .inl (hwaiting x hx)⟩
  | tail hreached hturn ih => exact ih.turn hlayouts hreached hturn

/-- The turn of a view comes to its end, or else a view is touched that has lost its life. -/
theorem Orderly.visit_cases (horderly : Orderly conduct start ⟨forced, v :: rest, s⟩)
    (hreached : Turns conduct start ⟨forced, v :: rest, s⟩) :
    (∃ subs t, visit conduct forced v s = .ok subs t) ∨
      Loses conduct start v ∧ ∃ t, visit conduct forced v s = .error (.deadView v) t := by
  cases hlive : s.forest.contains v with
  | false =>
    have hlost : Loses conduct start v := (horderly.waiting v List.mem_cons_self).resolve_left (by simp [hlive])
    exact .inr ⟨hlost, s, visit_dead hlive⟩
  | true =>
    obtain ⟨t, hattend, -⟩ := exists_attend (fun _ _ ↦ Tends.reaches) hlayouts hreached hlive
    cases hstill : t.forest.contains v with
    | false =>
      have hlost : Loses conduct start v :=
        ⟨forced, v, rest, s, t, hreached, hattend, List.mem_cons_self, hlive, hstill⟩
      exact .inr ⟨hlost, t, visit_dying hattend hstill⟩
    | true => exact .inl ⟨_, t, visit_eq_ok_iff.mpr ⟨hattend, hstill, rfl⟩⟩

/-- A turn halts only because it touches a view that has lost its life. -/
theorem Stuck.loses (hf : start.grove.forest.WellFormed)
    (hwaiting : ∀ x ∈ start.waiting, start.grove.forest.contains x = true) {halt : Halt}
    (h : Stuck conduct start halt) : ∃ x, halt = .deadView x ∧ Loses conduct start x := by
  obtain ⟨forced, v, rest, s, t, hreached, hhalts⟩ := h
  have horderly := orderly_of_turns hlayouts hf hwaiting hreached
  rcases horderly.visit_cases hlayouts hreached with ⟨subs, t', hok⟩ | ⟨hlost, t', herror⟩
  · cases hok.symm.trans hhalts
  · cases herror.symm.trans hhalts
    exact ⟨v, rfl, hlost⟩

omit hlayouts

/-! ## Layouts that only prune -/

/-- All turns come to their end, in well-formed forests, and do nothing but prune. -/
def Prospers (conduct : LayoutConduct W A) (start : Stage W A) : Prop :=
  ∀ forced v rest s, Turns conduct start ⟨forced, v :: rest, s⟩ →
    s.forest.WellFormed ∧ ∃ subs t, visit conduct forced v s = .ok subs t ∧ Prunes s.forest t.forest

section

variable (hprospers : Prospers conduct start)
include hprospers

theorem exists_forM (ih : ∀ {v : View} {rest : List View} {s : Grove W A},
      Turns conduct start ⟨false, v :: rest, s⟩ → s.forest.Fits depth v →
      ∃ t, settle conduct depth false v s = .ok () t ∧ Prunes s.forest t.forest)
    (hreached : Turns conduct start ⟨false, subs ++ rest, s⟩) (hprunes : Prunes f s.forest)
    (hfits : ∀ sub ∈ subs, f.Fits depth sub) :
    ∃ t, subs.forM (fun sub ↦ settle conduct depth false sub) s = .ok ⟨⟩ t ∧ Prunes f t.forest := by
  induction subs generalizing s with
  | nil => exact ⟨s, rfl, hprunes⟩
  | cons sub subs ihs =>
    obtain ⟨hsub, hfits⟩ := List.forall_mem_cons.mp hfits
    obtain ⟨hwell, _, _, hvisit, -⟩ := hprospers false sub (subs ++ rest) s hreached
    have hlive := (attend_eq_ok_iff.mp (visit_eq_ok_iff.mp hvisit).1).1
    obtain ⟨mid, hfirst, hmid⟩ := ih hreached (hprunes.fits hwell hsub hlive)
    obtain ⟨t, hrest, ht⟩ :=
      ihs (hreached.trans (turns_of_settle hfirst (subs ++ rest))) (hprunes.trans hmid) hfits
    exact ⟨t, (Pass.bind_of_ok hfirst).trans hrest, ht⟩

/-- The depth that fits a view at the start of its turn is enough for all that is below it by then. -/
theorem exists_settle (hreached : Turns conduct start ⟨forced, v :: rest, s⟩) (hfits : s.forest.Fits depth v) :
    ∃ t, settle conduct depth forced v s = .ok () t ∧ Prunes s.forest t.forest := by
  induction depth generalizing forced v rest s with
  | zero => exact hfits.elim
  | succ depth ih =>
    obtain ⟨-, subs, mid, hvisit, hmid⟩ := hprospers forced v rest s hreached
    have hsubs : ∀ sub ∈ subs, s.forest.Fits depth sub := fun sub hsub ↦
      hfits.2 sub (hmid.subviews v ((visit_eq_ok_iff.mp hvisit).2.2 ▸ hsub))
    obtain ⟨t, hrun, ht⟩ := exists_forM hprospers ih (hreached.tail (.visit hvisit rest)) hmid hsubs
    exact ⟨t, by rw [settle_succ, Pass.bind_of_ok hvisit, hrun], ht⟩

end

variable (hprunes : Unhindered Prunes conduct start)
include hprunes

/-- If no view loses its life that is still to be touched, nothing keeps a turn from coming to its end. -/
theorem prospers_of_kept (hlayouts : Unhindered Reaches conduct start) (hf : start.grove.forest.WellFormed)
    (hwaiting : ∀ x ∈ start.waiting, start.grove.forest.contains x = true) (hkept : ∀ x, ¬ Loses conduct start x) :
    Prospers conduct start := by
  intro forced v rest s hreached
  have horderly := orderly_of_turns hlayouts hf hwaiting hreached
  obtain ⟨subs, t, hvisit⟩ := (horderly.visit_cases hlayouts hreached).resolve_right fun hlost ↦ hkept v hlost.1
  exact ⟨horderly.wellFormed, subs, t, hvisit, rel_of_visit (fun _ _ ↦ Prunes.of_tends) hprunes hreached hvisit⟩

/-- No view comes to life, so those that wait in a pass that comes to its end are alive. -/
theorem alive_of_turns {stage : Stage W A} (hrest : Turns conduct stage ⟨false, [], t⟩)
    (hreached : Turns conduct start stage) : ∀ x ∈ stage.waiting, stage.grove.forest.contains x = true := by
  induction hrest using Relation.ReflTransGen.head_induction_on with
  | refl => simp
  | head hturn _ ih =>
    have hnext := ih (hreached.tail hturn)
    cases hturn with
    | visit hvisit rest =>
      have hlive := (attend_eq_ok_iff.mp (visit_eq_ok_iff.mp hvisit).1).1
      have hpruned := rel_of_visit (fun _ _ ↦ Prunes.of_tends) hprunes hreached hvisit
      exact List.forall_mem_cons.mpr ⟨hlive, fun x hx ↦ hpruned.contains x (hnext x (List.mem_append_right _ hx))⟩

/-- In a pass that comes to its end, no view loses its life that is still to be touched. -/
theorem not_loses (hdone : Turns conduct start ⟨false, [], t⟩) (x : View) : ¬ Loses conduct start x := by
  rintro ⟨forced, v, rest, s, mid, hreached, hattend, hmem, -, hdead⟩
  have hrest : Turns conduct ⟨forced, v :: rest, s⟩ ⟨false, [], t⟩ := by
    rcases Relation.ReflTransGen.total_of_right_unique (rightUnique_turn conduct) hreached hdone with h | h
    · exact h
    · rcases h.cases_head with hsame | ⟨next, hturn, -⟩
      · cases hsame
      · cases hturn
  rcases hrest.cases_head with hsame | ⟨next, hturn, hrest⟩
  · cases hsame
  · have halive := alive_of_turns hprunes hrest (hreached.tail hturn)
    cases hturn with
    | visit hvisit =>
      obtain ⟨hattend', hlive, rfl⟩ := visit_eq_ok_iff.mp hvisit
      cases hattend.symm.trans hattend'
      have hstill : mid.forest.contains x = true := by
        rcases List.mem_cons.mp hmem with rfl | hwaits
        · exact hlive
        · exact halive x (List.mem_append_right _ hwaits)
      rw [hstill] at hdead
      cases hdead

end

end

/-- A pass of layout over a live view, forced or not, halts at its bound, or else because it touches a view that has
lost its life, in its own turn or while it waited for it. If the layouts add no views and no subviews, then the number
of slots is bound enough, and the pass comes to its end just if no view loses its life that way. -/
theorem settle_survives {conduct : LayoutConduct W A} {forced : Bool} {v : View} {s : Grove W A}
    (hf : s.forest.WellFormed) (hv : s.forest.contains v = true)
    (hlayouts : Unhindered Reaches conduct ⟨forced, [v], s⟩) :
    (∀ depth, match settle conduct depth forced v s with
      | .ok _ t => s.forest.Reaches t.forest
      | .error halt _ => halt = .exhausted ∨ ∃ x, halt = .deadView x ∧ Loses conduct ⟨forced, [v], s⟩ x) ∧
    (Unhindered Prunes conduct ⟨forced, [v], s⟩ → ∀ depth, s.forest.slots.size ≤ depth →
      ((∃ t, settle conduct depth forced v s = .ok () t) ↔ ∀ x, ¬ Loses conduct ⟨forced, [v], s⟩ x)) := by
  have hwaiting : ∀ x ∈ [v], s.forest.contains x = true := by simpa using hv
  constructor
  · intro depth
    cases hrun : settle conduct depth forced v s with
    | ok _ t => exact (orderly_of_turns hlayouts hf hwaiting (turns_of_settle hrun [])).reaches
    | error halt t => exact (stuck_of_settle hrun []).imp_right (Stuck.loses hlayouts hf hwaiting)
  · intro hprunes depth hdepth
    constructor
    · rintro ⟨t, hrun⟩
      exact not_loses hprunes (turns_of_settle hrun [])
    · intro hkept
      have hprospers := prospers_of_kept hprunes hlayouts hf hwaiting hkept
      obtain ⟨t, hrun, -⟩ := exists_settle hprospers .refl ((hf.fits hv).of_le hdepth).1
      exact ⟨t, hrun⟩

/-! ## Layouts that destroy one view -/

theorem Destroyed.prunes {freed : List View} (h : Destroyed f v freed g) : Prunes f g where
  contains w hw := ((h.contains_iff w).mp hw).1
  subviews w := by
    cases hleft : g.node? w with
    | none => simp [subviewsOf, hleft]
    | some left =>
      obtain ⟨hlive, hout⟩ := (h.contains_iff w).mp (Forest.contains_iff.mpr ⟨left, hleft⟩)
      obtain ⟨node, hnode⟩ := Forest.contains_iff.mp hlive
      rw [subviewsOf_of_node? hleft, subviewsOf_of_node? hnode]
      by_cases hup : f.superview? v = some w
      · obtain ⟨_, hleft', hsame⟩ := h.superview w node hnode hup
        cases hleft.symm.trans hleft'
        exact congrArg Node.subviews hsame ▸ List.filter_sublist.subset
      · obtain ⟨_, hleft', hsame⟩ := h.kept w node hnode hout hup
        cases hleft.symm.trans hleft'
        exact congrArg Node.subviews hsame ▸ List.Subset.refl _

/-- A view is destroyed, if the handle names one. -/
def felled (f : Forest Unit) (v : View) : Forest Unit :=
  match f.destroy v with
  | .ok g => g
  | .error _ => f

/-- The layout of every view destroys a view. Which one, may depend on the forest. -/
def felling (prey : Forest Unit → View → View) : LayoutConduct Unit Unit := fun _ ↦ some fun v s ↦
  .ok () { s with forest := felled s.forest (prey s.forest v) }

theorem reaches_felled (f : Forest Unit) (v : View) : Reaches f (felled f v) := by
  unfold felled
  split
  case h_1 g hg => exact (Reaches.refl f).step (.destroy hg)
  case h_2 => exact .refl f

theorem prunes_felled {f : Forest Unit} (hf : f.WellFormed) (v : View) : Prunes f (felled f v) := by
  unfold felled
  cases hlive : f.contains v with
  | true =>
    obtain ⟨g, freed, hg, hdestroyed⟩ := hf.exists_destroyed hlive
    rw [hg]
    exact hdestroyed.prunes
  | false =>
    have hsame : f.destroy v = .ok f := by
      unfold destroy
      rw [hlive]
      rfl
    rw [hsame]
    exact .refl f

theorem unhindered_felling (prey : Forest Unit → View → View) (start : Stage Unit Unit) :
    Unhindered Reaches (felling prey) start := by
  rintro forced v rest s - - widget _ - ⟨⟩
  exact ⟨(), _, rfl, reaches_felled _ _⟩

/-- A view with three subviews, the second of which has two subviews itself. All of them have widgets. -/
def planted : Forest Unit := branched.equipped () [⟨1⟩, ⟨2⟩, ⟨3⟩, ⟨4⟩, ⟨5⟩, ⟨6⟩]

theorem reaches_planted : Reaches empty planted := reaches_branched.equipped () _

/-- Each layout destroys the first subview of its view. The views that go have not been asked for yet, and the pass
comes to its end. -/
theorem settle_survives_planted : ∃ (conduct : LayoutConduct Unit Unit) (s t : Grove Unit Unit), s.forest = planted ∧
    performLayout conduct 8 ⟨1⟩ s = .ok () t ∧ s.forest.Reaches t.forest ∧
      s.forest.listing ⟨1⟩ = [⟨1⟩, ⟨2⟩, ⟨3⟩, ⟨5⟩, ⟨6⟩, ⟨4⟩] ∧ t.forest.listing ⟨1⟩ = [⟨1⟩, ⟨3⟩, ⟨6⟩, ⟨4⟩] ∧
        ∀ x, ¬ Loses conduct ⟨true, [⟨1⟩], s⟩ x := by
  let conduct : LayoutConduct Unit Unit := felling fun f v ↦ (f.subviewsOf v).headD ⟨0⟩
  let s : Grove Unit Unit := ⟨planted, ⟨#[], ()⟩⟩
  have hforest : s.forest = planted := rfl
  have hwell : s.forest.WellFormed := hforest ▸ reachable_wellFormed reaches_planted
  have hlive : s.forest.contains ⟨1⟩ = true := by decide +kernel
  have hsize : s.forest.slots.size ≤ 8 := by decide +kernel
  have hbefore : s.forest.listing ⟨1⟩ = [⟨1⟩, ⟨2⟩, ⟨3⟩, ⟨5⟩, ⟨6⟩, ⟨4⟩] := by decide +kernel
  have hafter : (match performLayout conduct 8 ⟨1⟩ s with
      | .ok _ t => t.forest.listing ⟨1⟩
      | .error _ _ => []) = [⟨1⟩, ⟨3⟩, ⟨6⟩, ⟨4⟩] := by decide +kernel
  have hlayouts : Unhindered Reaches conduct ⟨true, [⟨1⟩], s⟩ := unhindered_felling _ _
  have hprunes : Unhindered Prunes conduct ⟨true, [⟨1⟩], s⟩ := by
    rintro forced v rest u hreached - widget _ - ⟨⟩
    have horderly := orderly_of_turns hlayouts hwell (by simpa using hlive) hreached
    exact ⟨(), _, rfl, prunes_felled ((Spares.clearedFor u.forest v).links.wellFormed horderly.wellFormed) _⟩
  clear_value s
  obtain ⟨hruns, hkept⟩ := settle_survives hwell hlive hlayouts
  have hrun := hruns 8
  unfold performLayout at hafter
  cases hsettle : settle conduct 8 true ⟨1⟩ s with
  | error halt t =>
    rw [hsettle] at hafter
    cases hafter
  | ok _ t =>
    rw [hsettle] at hafter hrun
    exact ⟨conduct, s, t, hforest, hsettle, hrun, hbefore, hafter, (hkept hprunes 8 hsize).mp ⟨t, hsettle⟩⟩

/-- A layout that destroys its own view halts the pass at that view, and one that destroys a view that waits halts it
at that one. Both use live handles only. -/
theorem settle_halts_at_felled : ∃ (fellsOwn fellsNext : LayoutConduct Unit Unit) (s : Grove Unit Unit),
    Reaches empty s.forest ∧ s.forest.contains ⟨1⟩ = true ∧
      Unhindered Reaches fellsOwn ⟨true, [⟨1⟩], s⟩ ∧ Unhindered Reaches fellsNext ⟨false, [⟨1⟩], s⟩ ∧
        (∀ depth, ∃ t, performLayout fellsOwn (depth + 1) ⟨1⟩ s = .error (.deadView ⟨1⟩) t) ∧
          ∃ t, layoutIfNeeded fellsNext 8 ⟨1⟩ s = .error (.deadView ⟨3⟩) t := by
  let fellsOwn : LayoutConduct Unit Unit := felling fun _ v ↦ v
  let fellsNext : LayoutConduct Unit Unit := felling fun _ v ↦ if v = ⟨2⟩ then ⟨3⟩ else ⟨0⟩
  let s : Grove Unit Unit := ⟨planted, ⟨#[], ()⟩⟩
  have hlive : s.forest.contains ⟨1⟩ = true := by decide +kernel
  have hdies : (match attend fellsOwn true ⟨1⟩ s with
      | .ok _ t => t.forest.contains ⟨1⟩
      | .error _ _ => true) = false := by decide +kernel
  have hhalts : (match layoutIfNeeded fellsNext 8 ⟨1⟩ s with
      | .ok _ _ => none
      | .error halt _ => some halt) = some (.deadView ⟨3⟩) := by decide +kernel
  refine ⟨fellsOwn, fellsNext, s, reaches_planted, hlive, unhindered_felling _ _, unhindered_felling _ _, ?_, ?_⟩
  · intro depth
    cases hattend : attend fellsOwn true ⟨1⟩ s with
    | error halt t =>
      rw [hattend] at hdies
      cases hdies
    | ok _ t =>
      rw [hattend] at hdies
      exact ⟨t, by rw [performLayout, settle_succ, Pass.bind_of_error (visit_dying hattend hdies)]⟩
  · cases hrun : layoutIfNeeded fellsNext 8 ⟨1⟩ s with
    | ok _ t =>
      rw [hrun] at hhalts
      cases hhalts
    | error halt t =>
      rw [hrun] at hhalts
      exact ⟨t, by rw [Option.some.inj hhalts]⟩

end RetainedUi.Forest
