import RetainedUi.Proofs.Forest.Reachable
import RetainedUi.Proofs.Forest.Walks

/-!
# What layout settles

A view is marked when it is to be laid out. Whoever gets a new size is marked together with all that is below,
and so is whoever asks for it: marks are set in families only. A layout that does no more than to give frames to
its own subviews therefore marks nothing but views that are visited after it. When a view has been settled, no
view in its family is marked, and the marks elsewhere are as they were.
-/

namespace RetainedUi

variable {W A : Type}

namespace Grove

variable {α : Type} {s t : Grove W A}

theorem ask_eq_ok {question : Forest W → Except Halt α} {answer : α} :
    (ask question : Pass (Grove W A) α) s = .ok answer t ↔ question s.forest = .ok answer ∧ s = t := by
  change Pass.lift (question s.forest) s = _ ↔ _
  cases question s.forest with
  | ok found =>
    change EStateM.Result.ok found s = _ ↔ _
    simp
  | error halt =>
    change EStateM.Result.error halt s = _ ↔ _
    simp

theorem change_eq_ok {step : Forest W → Except Halt (Forest W)} {answer : Unit} :
    (change step : Pass (Grove W A) Unit) s = .ok answer t ↔
      ∃ forest, step s.forest = .ok forest ∧ { s with forest } = t := by
  unfold change
  cases step s.forest <;> simp

end Grove

namespace Forest

/-- Whether a view is to be laid out. -/
def marked (f : Forest W) (v : View) : Bool := (f.node? v).any (·.needsLayout)

/-- The second view lies somewhere below the first one. -/
def Below (f : Forest W) (v x : View) : Prop := Relation.TransGen f.Above v x

/-- Only the marks of some views have changed, and nothing about the links. -/
structure MarksWithin (part : View → Prop) (f g : Forest W) : Prop where
  links : Alike Node.links f g
  outside : ∀ w, ¬ part w → g.marked w = f.marked w

/-- None of these views is marked any more. -/
structure Settled (part : View → Prop) (f g : Forest W) : Prop extends MarksWithin part f g where
  clean : ∀ w, part w → g.marked w = false

/-- A view gives frames to its subviews, and does nothing else. -/
def Arranges (v : View) : Forest W → Forest W → Prop :=
  Relation.ReflTransGen fun f g ↦ ∃ sub ∈ f.subviewsOf v, ∃ frame, f.setFrame sub frame = .ok g

variable {f g h : Forest W} {part others : View → Prop} {v w : View}

theorem inFamily_iff_eq_or_below : f.InFamily v w ↔ w = v ∨ f.Below v w :=
  Relation.reflTransGen_iff_eq_or_transGen

theorem WellFormed.below_iff (hf : f.WellFormed) : f.Below v w ↔ ∃ sub ∈ f.subviewsOf v, f.InFamily sub w := by
  unfold Below
  rw [Relation.TransGen.head'_iff]
  simp only [Above, hf.linked, InFamily]

/-- Layout is needed nowhere in a family just if no view in it is marked. -/
theorem WellFormed.needsLayoutBelow_eq_false_iff (hf : f.WellFormed) :
    f.needsLayoutBelow v = .ok false ↔ f.contains v = true ∧ ∀ w, f.InFamily v w → f.marked w = false := by
  unfold needsLayoutBelow
  constructor
  · intro h
    obtain ⟨found, hfound, hclean⟩ := bind_eq_ok.mp h
    have hdescends := hf.family_eq_ok_iff.mp hfound
    refine ⟨by cases hdescends; assumption, fun w hw ↦ ?_⟩
    obtain ⟨p, hp, rfl⟩ := List.mem_map.mp ((hf.mem_family_iff hfound).mpr hw)
    exact Bool.eq_false_iff.mpr (List.any_eq_false.mp (Except.ok.inj hclean) p hp)
  · rintro ⟨hlive, hclean⟩
    obtain ⟨found, hfound, -⟩ := hf.exists_family hlive
    rw [hfound]
    refine congrArg Except.ok (List.any_eq_false.mpr fun p hp ↦ ?_)
    exact Bool.eq_false_iff.mp (hclean p.view ((hf.mem_family_iff hfound).mp (List.mem_map_of_mem hp)))

theorem Alike.marked (h : Alike Node.needsLayout f g) (w : View) : g.marked w = f.marked w := by
  have hw := h.node? w
  unfold Forest.marked
  cases hf : f.node? w <;> cases hg : g.node? w <;> simp_all

theorem Alike.below (h : Alike Node.links f g) : g.Below = f.Below := by
  unfold Below
  rw [h.above]

namespace MarksWithin

theorem of_alike (hlinks : Alike Node.links f g) (hmarks : Alike Node.needsLayout f g) : MarksWithin part f g :=
  ⟨hlinks, fun w _ ↦ hmarks.marked w⟩

theorem refl (part : View → Prop) (f : Forest W) : MarksWithin part f f := ⟨.refl _ f, fun _ _ ↦ rfl⟩

theorem trans (hfg : MarksWithin part f g) (hgh : MarksWithin part g h) : MarksWithin part f h :=
  ⟨hfg.links.trans hgh.links, fun w hw ↦ (hgh.outside w hw).trans (hfg.outside w hw)⟩

theorem mono (hfg : MarksWithin part f g) (hmore : ∀ w, part w → others w) : MarksWithin others f g :=
  ⟨hfg.links, fun w hw ↦ hfg.outside w fun hpart ↦ hw (hmore w hpart)⟩

end MarksWithin

/-! ## Where marks are set -/

theorem marked_of_node? {node : Node W} (hnode : f.node? v = some node) : f.marked v = node.needsLayout := by
  rw [marked, hnode, Option.any_some]

theorem marked_modify_of_ne (hne : w ≠ v) (f : Forest W) (change : Node W → Node W) :
    (f.modify v change).marked w = f.marked w := by
  rw [marked, node?_modify_of_ne hne, marked]

theorem marksWithin_markStack (hf : f.WellFormed) {steps : Nat} {stack : List View}
    (h : markStack steps f stack = .ok g) : MarksWithin (fun w ↦ ∃ v ∈ stack, f.InFamily v w) f g := by
  induction steps generalizing f stack with
  | zero =>
    cases stack with
    | nil =>
      cases h
      exact .refl _ _
    | cons v rest => cases h
  | succ steps ih =>
    cases stack with
    | nil =>
      cases h
      exact .refl _ _
    | cons v rest =>
      simp only [markStack, bind_eq_ok, read_eq_ok] at h
      obtain ⟨node, hnode, h⟩ := h
      have hlinks : Alike Node.links f (f.modify v fun node ↦ { node with needsLayout := true }) :=
        .modify (fun _ ↦ by rfl) f v
      have hfirst : MarksWithin (fun w ↦ ∃ u ∈ v :: rest, f.InFamily u w) f
          (f.modify v fun node ↦ { node with needsLayout := true }) := by
        refine ⟨hlinks, fun w hw ↦ marked_modify_of_ne ?_ f _⟩
        rintro rfl
        exact hw ⟨w, List.mem_cons_self, .refl⟩
      refine hfirst.trans ((ih (hlinks.wellFormed hf) h).mono ?_)
      -- What is put on the stack belongs to the family of the view that was on top.
      rintro w ⟨u, hu, hw⟩
      rw [← hlinks.inFamily] at hw
      have hsub : u ∈ node.subviews ∨ u ∈ rest := by
        split at hu
        · exact .inr hu
        · exact List.mem_append.mp hu
      rcases hsub with hsub | hrest
      · rw [← subviewsOf_of_node? hnode, ← hf.linked] at hsub
        exact ⟨v, List.mem_cons_self, .head hsub hw⟩
      · exact ⟨u, List.mem_cons_of_mem v hrest, hw⟩

theorem marksWithin_requestLayout (hf : f.WellFormed) (h : f.requestLayout v = .ok g) :
    MarksWithin (f.InFamily v) f g :=
  (marksWithin_markStack hf h).mono (by simp)

theorem marksWithin_invalidate {region : Option Rect} (h : f.invalidate v region = .ok g) :
    MarksWithin part f g :=
  .of_alike ((alike_of_invalidate h).map Node.links) ((alike_of_invalidate h).map Node.needsLayout)

/-- A new frame marks the family of its view at most. -/
theorem marksWithin_setFrame (hf : f.WellFormed) {frame : Rect} (h : f.setFrame v frame = .ok g) :
    MarksWithin (f.InFamily v) f g := by
  simp only [setFrame_eq, bind_eq_ok, read_eq_ok] at h
  obtain ⟨node, -, h⟩ := h
  split at h
  · cases h
    exact .refl _ _
  · obtain ⟨sized, hsized, shown, hshown, h⟩ := by simpa only [bind_eq_ok] using h
    have hlinks : Alike Node.links f (f.modify v fun node ↦ { node with frame }) := .modify (fun _ ↦ by rfl) f v
    have hmoved : MarksWithin (f.InFamily v) f (f.modify v fun node ↦ { node with frame }) :=
      .of_alike hlinks (.modify (fun _ ↦ by rfl) f v)
    have hresized : MarksWithin (f.InFamily v) f sized := by
      cases hsame : node.frame.size == frame.size with
      | true =>
        rw [hsame, cond_true, Except.ok.injEq] at hsized
        exact hsized ▸ hmoved
      | false =>
        rw [hsame, cond_false] at hsized
        exact hmoved.trans ((marksWithin_requestLayout (hlinks.wellFormed hf) hsized).mono
          fun w hw ↦ (hlinks.inFamily v w).mpr hw)
    have hpainted : MarksWithin (f.InFamily v) sized shown := by
      cases hup : node.superview with
      | none =>
        rw [hup, Option.elim_none, Except.ok.injEq] at hshown
        exact hshown ▸ .refl _ sized
      | some above =>
        rw [hup, Option.elim_some] at hshown
        exact marksWithin_invalidate hshown
    exact hresized.trans (hpainted.trans (marksWithin_invalidate h))

/-- A view that arranges its subviews marks nothing but what is below it. -/
theorem Arranges.marksWithin (hf : f.WellFormed) (h : Arranges v f g) : MarksWithin (f.Below v) f g := by
  induction h with
  | refl => exact .refl _ _
  | tail _ hstep ih =>
    obtain ⟨sub, hsub, frame, hframe⟩ := hstep
    have hwell := ih.links.wellFormed hf
    refine ih.trans ((marksWithin_setFrame hwell hframe).mono fun w hw ↦ ?_)
    rw [← ih.links.below]
    exact hwell.below_iff.mpr ⟨sub, hsub, hw⟩

/-! ## Settling a family -/

theorem Settled.trans (hfg : Settled part f g) (hgh : Settled others g h) :
    Settled (fun w ↦ part w ∨ others w) f h where
  links := hfg.links.trans hgh.links
  outside w hw := by
    rw [not_or] at hw
    exact (hgh.outside w hw.2).trans (hfg.outside w hw.1)
  clean w hw := by
    by_cases hothers : others w
    · exact hgh.clean w hothers
    · exact (hgh.outside w hothers).trans (hfg.clean w (hw.resolve_right hothers))

theorem Settled.congr (hfg : Settled part f g) (hsame : ∀ w, part w ↔ others w) : Settled others f g where
  toMarksWithin := hfg.toMarksWithin.mono fun w hw ↦ (hsame w).mp hw
  clean w hw := hfg.clean w ((hsame w).mpr hw)

/-- Layouts that do no more than to arrange the subviews of their own view. -/
def Arranging (conduct : LayoutConduct W A) : Prop :=
  ∀ widget layout, conduct widget = some layout → ∀ v s, Arranges v s.forest (Pass.final (layout v s)).forest

section

variable {conduct : LayoutConduct W A} (hconduct : Arranging conduct) {s t : Grove W A}
include hconduct

/-- A view that is laid out loses its mark, and none but the views below it may get one. -/
theorem marksWithin_arrange (hf : s.forest.WellFormed) (h : arrange conduct v s = .ok () t) :
    MarksWithin (s.forest.InFamily v) s.forest t.forest ∧ t.forest.marked v = false := by
  let unmarked : Forest W := s.forest.modify v fun node ↦ { node with needsLayout := false }
  have hlinks : Alike Node.links s.forest unmarked := .modify (fun _ ↦ by rfl) s.forest v
  have hfirst : MarksWithin (s.forest.InFamily v) s.forest unmarked := by
    refine ⟨hlinks, fun w hw ↦ marked_modify_of_ne ?_ _ _⟩
    rintro rfl
    exact hw .refl
  have hclean : unmarked.marked v = false := by
    rw [marked, node?_modify, if_pos rfl]
    cases s.forest.node? v <;> rfl
  have hwell : unmarked.WellFormed := hlinks.wellFormed hf
  -- Whatever follows changes marks below the view only, so it is enough to look at what follows.
  have hrest {g : Forest W} (hg : MarksWithin (unmarked.Below v) unmarked g) :
      MarksWithin (s.forest.InFamily v) s.forest g ∧ g.marked v = false := by
    refine ⟨hfirst.trans (hg.mono fun w hw ↦ ?_), (hg.outside v (hwell.not_transGen_self v)).trans hclean⟩
    rw [hlinks.below] at hw
    exact inFamily_iff_eq_or_below.mpr (.inr hw)
  have hwidget (f : Forest W) (widget : Option W) :
      MarksWithin (unmarked.Below v) f (f.modify v fun node ↦ { node with widget }) :=
    .of_alike (.modify (fun _ ↦ by rfl) f v) (.modify (fun _ ↦ by rfl) f v)
  simp only [arrange, Pass.bind_eq_ok, Grove.change_eq_ok, Grove.ask_eq_ok, update_eq_ok, read_eq_ok] at h
  obtain ⟨_, _, ⟨_, ⟨-, rfl⟩, rfl⟩, node, _, ⟨-, rfl⟩, h⟩ := h
  cases hnode : node.widget with
  | none =>
    rw [hnode] at h
    cases h
    exact hrest (.refl _ _)
  | some widget =>
    rw [hnode] at h
    simp only [Pass.bind_eq_ok, Grove.change_eq_ok, update_eq_ok] at h
    obtain ⟨_, _, ⟨_, ⟨-, rfl⟩, rfl⟩, h⟩ := h
    have htaken := hwidget unmarked none
    have hback {laid : Grove W A} {widget' : W} (hlaid : MarksWithin (unmarked.Below v) unmarked laid.forest)
        (hput : Grove.change (fun f ↦ .ok (f.modify v fun node ↦ { node with widget := some widget' })) laid =
          .ok () t) : MarksWithin (s.forest.InFamily v) s.forest t.forest ∧ t.forest.marked v = false := by
      obtain ⟨_, hforest, rfl⟩ := Grove.change_eq_ok.mp hput
      cases hforest
      exact hrest (hlaid.trans (hwidget laid.forest (some widget')))
    cases hlayout : conduct widget with
    | none =>
      rw [hlayout] at h
      exact hback htaken h
    | some layout =>
      rw [hlayout] at h
      obtain ⟨widget', laid, hlaid, hput⟩ := Pass.bind_eq_ok.mp h
      refine hback (htaken.trans ?_) hput
      have harranged := hconduct widget layout hlayout v
        ⟨unmarked.modify v fun node ↦ { node with widget := none }, s.ambient⟩
      rw [hlaid, Pass.final_ok] at harranged
      refine (harranged.marksWithin (htaken.links.wellFormed hwell)).mono fun w hw ↦ ?_
      rwa [htaken.links.below] at hw

omit hconduct in
/-- The subviews are settled one after the other. -/
theorem settled_forM {depth : Nat} (ih : ∀ {v : View} {s t : Grove W A}, s.forest.WellFormed →
      settle conduct depth false v s = .ok () t → Settled (s.forest.InFamily v) s.forest t.forest)
    (hf : s.forest.WellFormed) {subs : List View}
    (h : subs.forM (fun sub ↦ settle conduct depth false sub) s = .ok ⟨⟩ t) :
    Settled (fun w ↦ ∃ sub ∈ subs, s.forest.InFamily sub w) s.forest t.forest := by
  induction subs generalizing s with
  | nil =>
    cases h
    exact ⟨.refl _ _, by simp⟩
  | cons sub subs ihs =>
    obtain ⟨_, mid, hsub, hrest⟩ := Pass.bind_eq_ok.mp h
    have hfirst := ih hf hsub
    have hlater := ihs (hfirst.links.wellFormed hf) hrest
    refine (hfirst.trans hlater).congr fun w ↦ ?_
    simp only [List.exists_mem_cons_iff, hfirst.links.inFamily]

/-- After a view was settled, forced or not, none of its family is marked, and elsewhere nothing has changed about
the marks. -/
theorem settled_settle {depth : Nat} {forced : Bool} (hf : s.forest.WellFormed)
    (h : settle conduct depth forced v s = .ok () t) : Settled (s.forest.InFamily v) s.forest t.forest := by
  induction depth generalizing forced v s t with
  | zero => cases h
  | succ depth ih =>
    -- The view itself comes first, with or without a layout of its own.
    obtain ⟨mid, hself, hclean, hbelow⟩ : ∃ mid : Grove W A,
        MarksWithin (s.forest.InFamily v) s.forest mid.forest ∧ mid.forest.marked v = false ∧
          (mid.forest.subviewsOf v).forM (fun sub ↦ settle conduct depth false sub) mid = .ok ⟨⟩ t := by
      have hsubs {mid : Grove W A} (h : (do
          let node ← Grove.ask fun f ↦ f.read v
          node.subviews.forM fun sub ↦ settle conduct depth false sub) mid = .ok () t) :
          (mid.forest.subviewsOf v).forM (fun sub ↦ settle conduct depth false sub) mid = .ok ⟨⟩ t := by
        simp only [Pass.bind_eq_ok, Grove.ask_eq_ok, read_eq_ok] at h
        obtain ⟨node, _, ⟨hnode, rfl⟩, h⟩ := h
        rwa [subviewsOf_of_node? hnode]
      unfold settle at h
      obtain ⟨node, _, hread, h⟩ := Pass.bind_eq_ok.mp h
      obtain ⟨hnode, rfl⟩ := Grove.ask_eq_ok.mp hread
      rw [read_eq_ok] at hnode
      cases hlays : forced || node.needsLayout with
      | true =>
        rw [hlays] at h
        obtain ⟨_, mid, harrange, h⟩ := Pass.bind_eq_ok.mp h
        obtain ⟨hself, hclean⟩ := marksWithin_arrange hconduct hf harrange
        exact ⟨mid, hself, hclean, hsubs h⟩
      | false =>
        rw [hlays] at h
        have hunmarked := (Bool.or_eq_false_iff.mp hlays).2
        exact ⟨s, .refl _ _, by simpa [marked, hnode] using hunmarked, hsubs h⟩
    have hwell := hself.links.wellFormed hf
    have hsubs : Settled (s.forest.Below v) mid.forest t.forest := by
      refine (settled_forM ih hwell hbelow).congr fun w ↦ ?_
      rw [← hwell.below_iff, hself.links.below]
    constructor
    · exact hself.trans (hsubs.toMarksWithin.mono fun w hw ↦ inFamily_iff_eq_or_below.mpr (.inr hw))
    · intro w hw
      rcases inFamily_iff_eq_or_below.mp hw with rfl | hw
      · exact (hsubs.outside w (hf.not_transGen_self w)).trans hclean
      · exact hsubs.clean w hw

omit hconduct in
theorem contains_of_settle {depth : Nat} {forced : Bool} (h : settle conduct depth forced v s = .ok () t) :
    s.forest.contains v = true := by
  cases depth with
  | zero => cases h
  | succ depth =>
    obtain ⟨node, _, hread, -⟩ := Pass.bind_eq_ok.mp h
    exact contains_iff.mpr ⟨node, read_eq_ok.mp (Grove.ask_eq_ok.mp hread).1⟩

/-- After a layout of a family where it is needed, it is needed nowhere in the family. -/
theorem settled_layoutIfNeeded {depth : Nat} (hf : s.forest.WellFormed)
    (h : layoutIfNeeded conduct depth v s = .ok () t) :
    Settled (s.forest.InFamily v) s.forest t.forest ∧ t.forest.needsLayoutBelow v = .ok false := by
  have hsettled := settled_settle hconduct hf h
  refine ⟨hsettled, (hsettled.links.wellFormed hf).needsLayoutBelow_eq_false_iff.mpr ⟨?_, fun w hw ↦ ?_⟩⟩
  · exact (hsettled.links.contains v).symm.trans (contains_of_settle h)
  · exact hsettled.clean w ((hsettled.links.inFamily v w).mpr hw)

end

end Forest

end RetainedUi
