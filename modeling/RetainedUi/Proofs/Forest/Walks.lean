import Mathlib.Data.List.Perm.Subperm
import RetainedUi.Proofs.Forest.Shape

/-!
# Walks in a well-formed forest

A walk upwards lists a view and its ancestors, a walk downwards lists a family. What a walk finds is
described by the links it follows, without the bound; the bound is enough just if it is no smaller than
the number of views found.

In a well-formed forest neither walk repeats a view. Distinct views have distinct slots, so no walk finds
more views than there are slots: from every live view both walks come to their end.
-/

namespace RetainedUi.Forest

variable {W : Type} {f : Forest W}

/-- Distinct live views are no more than there are slots. -/
theorem length_le_size_slots {vs : List View} (hnodup : vs.Nodup)
    (hlive : ∀ v ∈ vs, f.contains v = true) : vs.length ≤ f.slots.size := by
  have hindices : (vs.map View.index).Nodup := hnodup.map View.index_injective
  have hrange : vs.map View.index ⊆ List.range f.slots.size := by
    intro slot hslot
    obtain ⟨v, hv, rfl⟩ := List.mem_map.mp hslot
    exact List.mem_range.mpr (index_lt_size_slots (hlive v hv))
  simpa using (List.subperm_of_subset hindices hrange).length_le

/-! ## Upwards -/

/-- What a walk upwards finds, from a view that may be missing. -/
inductive Ascends (f : Forest W) : Option View → List View → Prop where
  | done : Ascends f none []
  | step {v : View} {node : Node W} {above : List View} (hnode : f.node? v = some node)
      (habove : Ascends f node.superview above) : Ascends f (some v) (v :: above)

theorem climb_eq_ok_iff {steps : Nat} {start : Option View} {chain : List View} :
    f.climb steps start = .ok chain ↔ f.Ascends start chain ∧ chain.length ≤ steps := by
  induction steps generalizing start chain with
  | zero =>
    cases start with
    | none =>
      simp only [climb, Except.ok.injEq]
      constructor
      · intro heq
        subst heq
        exact ⟨.done, le_rfl⟩
      · rintro ⟨⟨⟩, -⟩
        rfl
    | some v =>
      simp only [climb, reduceCtorEq, false_iff, not_and]
      intro heq
      cases heq
      simp
  | succ steps ih =>
    cases start with
    | none =>
      simp only [climb, Except.ok.injEq]
      constructor
      · intro heq
        subst heq
        exact ⟨.done, by simp⟩
      · rintro ⟨⟨⟩, -⟩
        rfl
    | some v =>
      simp only [climb, bind_eq_ok, read_eq_ok, pure, Except.pure, Except.ok.injEq]
      constructor
      · rintro ⟨node, hnode, above, habove, rfl⟩
        obtain ⟨hascends, hlength⟩ := ih.mp habove
        exact ⟨.step hnode hascends, by simpa using hlength⟩
      · rintro ⟨hchain, hlength⟩
        cases hchain with
        | step hnode habove => exact ⟨_, hnode, _, ih.mpr ⟨habove, by simpa using hlength⟩, rfl⟩

theorem inFamily_iff_eq_or_superview {a v : View} :
    f.InFamily a v ↔ a = v ∨ ∃ p, f.superview? v = some p ∧ f.InFamily a p := by
  unfold InFamily
  constructor
  · intro h
    cases h with
    | refl => exact .inl rfl
    | tail hup hlink => exact .inr ⟨_, hlink, hup⟩
  · rintro (rfl | ⟨p, hlink, hup⟩)
    · exact .refl
    · exact hup.tail hlink

namespace Ascends

variable {start : Option View} {chain : List View}

/-- A walk upwards finds the views whose family the start is in. -/
theorem mem_iff (h : f.Ascends start chain) (a : View) :
    a ∈ chain ↔ ∃ v, start = some v ∧ f.InFamily a v := by
  induction h with
  | done => simp
  | @step v node above hnode _ ih =>
    rw [List.mem_cons, ih, ← superview?_of_node? hnode]
    simp only [Option.some.injEq, exists_eq_left']
    exact inFamily_iff_eq_or_superview.symm

theorem contains (h : f.Ascends start chain) : ∀ v ∈ chain, f.contains v = true := by
  induction h with
  | done => simp
  | step hnode _ ih => exact List.forall_mem_cons.mpr ⟨contains_iff.mpr ⟨_, hnode⟩, ih⟩

theorem nodup (hf : f.WellFormed) (h : f.Ascends start chain) : chain.Nodup := by
  induction h with
  | done => exact List.nodup_nil
  | @step v node above hnode habove ih =>
    refine List.nodup_cons.mpr ⟨fun hv ↦ ?_, ih⟩
    obtain ⟨p, hup, hfamily⟩ := (habove.mem_iff v).mp hv
    exact hf.not_inFamily_of_above ((superview?_of_node? hnode).trans hup) hfamily

theorem unique (h : f.Ascends start chain) {other : List View} (hother : f.Ascends start other) :
    chain = other := by
  induction h generalizing other with
  | done =>
    cases hother
    rfl
  | step hnode _ ih =>
    cases hother with
    | step hnode' habove' =>
      obtain rfl := Option.some.inj (hnode.symm.trans hnode')
      rw [ih habove']

end Ascends

namespace WellFormed

variable (hf : f.WellFormed)
include hf

/-- Every chain of superviews ends. -/
theorem exists_ascends {v : View} (hv : f.contains v = true) : ∃ chain, f.Ascends (some v) chain := by
  induction v using hf.rooted.induction with
  | _ v ih =>
    obtain ⟨node, hnode⟩ := contains_iff.mp hv
    cases hup : node.superview with
    | none => exact ⟨[v], .step hnode (hup ▸ .done)⟩
    | some p =>
      have hlink : f.superview? v = some p := (superview?_of_node? hnode).trans hup
      obtain ⟨above, habove⟩ := ih p hlink (hf.contains_superview hlink)
      exact ⟨v :: above, .step hnode (hup ▸ habove)⟩

theorem lineage_eq_ok_iff {v : View} {chain : List View} :
    f.lineage v = .ok chain ↔ f.Ascends (some v) chain := by
  unfold lineage
  rw [climb_eq_ok_iff, and_iff_left_iff_imp]
  exact fun h ↦ length_le_size_slots (h.nodup hf) h.contains

/-- The ancestors of a view are what its lineage holds beside the view itself. -/
theorem superviews_eq_ok_iff {v : View} {above : List View} :
    f.superviews v = .ok above ↔ f.Ascends (some v) (v :: above) := by
  simp only [superviews, bind_eq_ok, read_eq_ok, climb_eq_ok_iff]
  constructor
  · rintro ⟨node, hnode, habove, -⟩
    exact .step hnode habove
  · intro h
    cases h with
    | step hnode habove =>
      exact ⟨_, hnode, habove, length_le_size_slots (habove.nodup hf) habove.contains⟩

end WellFormed

/-! ## Downwards -/

/-- The subviews of a view that a walk downwards has reached, one deeper than the view itself. -/
def placedSubviews (f : Forest W) (p : Placed) : List Placed :=
  (f.subviewsOf p.view).map fun sub ↦ ⟨sub, p.depth + 1⟩

/-- What a walk downwards finds, from a stack of views. -/
inductive Descends (f : Forest W) : List Placed → List Placed → Prop where
  | done : Descends f [] []
  | step {p : Placed} {rest found : List Placed} (hlive : f.contains p.view = true)
      (hfound : Descends f (f.placedSubviews p ++ rest) found) : Descends f (p :: rest) (p :: found)

theorem descend_eq_ok_iff {steps : Nat} {stack found : List Placed} :
    f.descend steps stack = .ok found ↔ f.Descends stack found ∧ found.length ≤ steps := by
  induction steps generalizing stack found with
  | zero =>
    cases stack with
    | nil =>
      simp only [descend, Except.ok.injEq]
      constructor
      · intro heq
        subst heq
        exact ⟨.done, le_rfl⟩
      · rintro ⟨⟨⟩, -⟩
        rfl
    | cons p rest =>
      simp only [descend, reduceCtorEq, false_iff, not_and]
      intro heq
      cases heq
      simp
  | succ steps ih =>
    cases stack with
    | nil =>
      simp only [descend, Except.ok.injEq]
      constructor
      · intro heq
        subst heq
        exact ⟨.done, by simp⟩
      · rintro ⟨⟨⟩, -⟩
        rfl
    | cons p rest =>
      simp only [descend, bind_eq_ok, read_eq_ok, pure, Except.pure, Except.ok.injEq]
      constructor
      · rintro ⟨node, hnode, found, hfound, rfl⟩
        rw [← subviewsOf_of_node? hnode] at hfound
        obtain ⟨hdescends, hlength⟩ := ih.mp hfound
        exact ⟨.step (contains_iff.mpr ⟨node, hnode⟩) hdescends, by simpa using hlength⟩
      · rintro ⟨hchain, hlength⟩
        cases hchain with
        | step hlive hfound =>
          obtain ⟨node, hnode⟩ := contains_iff.mp hlive
          refine ⟨node, hnode, _, ?_, rfl⟩
          rw [← subviewsOf_of_node? hnode]
          exact ih.mpr ⟨hfound, by simpa using hlength⟩

theorem mem_placedSubviews_iff {p q : Placed} :
    q ∈ f.placedSubviews p ↔ q.view ∈ f.subviewsOf p.view ∧ q.depth = p.depth + 1 := by
  cases q
  simp only [placedSubviews, List.mem_map, Placed.mk.injEq]
  aesop

@[simp]
theorem map_view_placedSubviews (p : Placed) :
    (f.placedSubviews p).map Placed.view = f.subviewsOf p.view := by
  simp [placedSubviews, Function.comp_def]

namespace Descends

variable {stack found : List Placed}

/-- A walk downwards depends on nothing but the subviews of the views it finds. -/
theorem congr (h : f.Descends stack found) {g : Forest W}
    (hlive : ∀ p ∈ found, g.contains p.view = true)
    (hsubviews : ∀ p ∈ found, g.subviewsOf p.view = f.subviewsOf p.view) : g.Descends stack found := by
  induction h with
  | done => exact .done
  | @step p rest found _ _ ih =>
    rw [List.forall_mem_cons] at hlive hsubviews
    refine .step hlive.1 ?_
    have hsame : g.placedSubviews p = f.placedSubviews p := by simp [placedSubviews, hsubviews.1]
    rw [hsame]
    exact ih hlive.2 hsubviews.2

theorem unique (h : f.Descends stack found) {other : List Placed} (hother : f.Descends stack other) :
    found = other := by
  induction h generalizing other with
  | done =>
    cases hother
    rfl
  | step _ _ ih =>
    cases hother with
    | step _ hfound' => rw [ih hfound']

theorem contains (h : f.Descends stack found) : ∀ p ∈ found, f.contains p.view = true := by
  induction h with
  | done => simp
  | step hlive _ ih => exact List.forall_mem_cons.mpr ⟨hlive, ih⟩

end Descends

theorem inFamily_iff_eq_or_subview (hf : f.WellFormed) {v x : View} :
    f.InFamily v x ↔ v = x ∨ ∃ c ∈ f.subviewsOf v, f.InFamily c x := by
  unfold InFamily
  rw [Relation.ReflTransGen.cases_head_iff]
  refine or_congr_right (exists_congr fun c ↦ and_congr_left fun _ ↦ ?_)
  exact hf.linked v c

/-- A walk downwards finds the families of the views it starts from. -/
theorem Descends.mem_iff (hf : f.WellFormed) {stack found : List Placed} (h : f.Descends stack found)
    (x : View) : x ∈ found.map Placed.view ↔ ∃ p ∈ stack, f.InFamily p.view x := by
  induction h with
  | done => simp
  | @step p rest found _ _ ih =>
    rw [List.map_cons, List.mem_cons, ih, List.exists_mem_cons_iff, inFamily_iff_eq_or_subview hf]
    simp only [List.mem_append, or_and_right, exists_or, or_assoc, eq_comm (a := x)]
    refine or_congr_right (or_congr_left ?_)
    constructor
    · rintro ⟨q, hq, hfamily⟩
      exact ⟨q.view, (mem_placedSubviews_iff.mp hq).1, hfamily⟩
    · rintro ⟨c, hc, hfamily⟩
      exact ⟨⟨c, p.depth + 1⟩, mem_placedSubviews_iff.mpr ⟨hc, rfl⟩, hfamily⟩

/-- The first view of a stack has a view without subviews in its family, and the walk finds it. -/
theorem Descends.exists_leaf (hf : f.WellFormed) {p : Placed} {rest found : List Placed}
    (h : f.Descends (p :: rest) found) :
    ∃ q ∈ found, f.subviewsOf q.view = [] ∧ f.InFamily p.view q.view := by
  generalize hstack : p :: rest = stack at h
  induction h generalizing p rest with
  | done => cases hstack
  | @step p rest found _ hfound ih =>
    cases hstack
    cases hsubs : f.subviewsOf p.view with
    | nil => exact ⟨p, by simp, hsubs, .refl⟩
    | cons c cs =>
      have hsame : f.placedSubviews p = ⟨c, p.depth + 1⟩ :: cs.map fun sub ↦ ⟨sub, p.depth + 1⟩ := by
        simp [placedSubviews, hsubs]
      obtain ⟨q, hq, hleaf, hfamily⟩ := ih (p := ⟨c, p.depth + 1⟩) (by rw [hsame, List.cons_append])
      have hlink : f.Above p.view c := (hf.linked p.view c).mpr (by simp [hsubs])
      exact ⟨q, List.mem_cons_of_mem p hq, hleaf, hfamily.head hlink⟩

/-- The state of a walk through the family of a view: what was visited and what waits on the stack is
distinct and in the family, and of each of these views but the first the superview was visited. -/
structure Frontier (f : Forest W) (start : View) (visited waiting : List View) : Prop where
  nodup : (visited ++ waiting).Nodup
  inFamily : ∀ x ∈ visited ++ waiting, f.InFamily start x
  entered : ∀ x ∈ visited ++ waiting, x = start ∨ ∃ p ∈ visited, f.Above p x

namespace Frontier

theorem initial (f : Forest W) (v : View) : f.Frontier v [] [v] where
  nodup := by simp
  inFamily x hx := by
    obtain rfl : x = v := by simpa using hx
    exact .refl
  entered x hx := .inl (by simpa using hx)

/-- Visiting the next view and putting its subviews on the stack. -/
theorem visit (hf : f.WellFormed) {start v : View} {visited rest : List View}
    (h : f.Frontier start visited (v :: rest)) :
    f.Frontier start (v :: visited) (f.subviewsOf v ++ rest) := by
  have hperm : (visited ++ v :: rest).Perm (v :: visited ++ rest) := List.perm_middle
  have hnodup : (v :: visited ++ rest).Nodup := hperm.nodup_iff.mp h.nodup
  have hv : v ∉ visited ∧ v ∉ rest := by
    simpa [not_or] using (List.nodup_cons.mp hnodup).1
  have hmem {x : View} : x ∈ v :: visited ++ (f.subviewsOf v ++ rest) ↔
      x ∈ visited ++ v :: rest ∨ x ∈ f.subviewsOf v := by
    rw [hperm.mem_iff]
    simp only [List.mem_append]
    tauto
  have hfamily : f.InFamily start v := h.inFamily v (by simp)
  -- A subview of v was not reached before, since it can only be reached through v.
  have hfresh : ∀ c ∈ f.subviewsOf v, c ∉ visited ++ v :: rest := by
    intro c hc hreached
    have hlink : f.Above v c := (hf.linked v c).mpr hc
    rcases h.entered c hreached with rfl | ⟨p, hp, hup⟩
    · exact hf.not_inFamily_of_above hlink hfamily
    · obtain rfl : v = p := Option.some.inj (hlink.symm.trans hup)
      exact hv.1 hp
  refine ⟨?_, ?_, ?_⟩
  · have hshift : (f.subviewsOf v ++ (v :: visited ++ rest)).Perm
        (v :: visited ++ (f.subviewsOf v ++ rest)) := List.perm_append_comm_assoc _ _ _
    refine hshift.nodup_iff.mp (List.nodup_append.mpr ⟨hf.subviews_nodup v, hnodup, ?_⟩)
    rintro c hc x hx rfl
    exact hfresh c hc (hperm.mem_iff.mpr hx)
  · intro x hx
    rcases hmem.mp hx with hx | hx
    · exact h.inFamily x hx
    · exact hfamily.tail ((hf.linked v x).mpr hx)
  · intro x hx
    rcases hmem.mp hx with hx | hx
    · exact (h.entered x hx).imp_right fun ⟨p, hp, hup⟩ ↦ ⟨p, List.mem_cons_of_mem v hp, hup⟩
    · exact .inr ⟨v, List.mem_cons_self, (hf.linked v x).mpr hx⟩

theorem reorder {start : View} {visited waiting other : List View} (h : f.Frontier start visited waiting)
    (hperm : waiting.Perm other) : f.Frontier start visited other := by
  have hall : (visited ++ waiting).Perm (visited ++ other) := hperm.append_left visited
  exact ⟨hall.nodup_iff.mp h.nodup, fun x hx ↦ h.inFamily x (hall.mem_iff.mpr hx),
    fun x hx ↦ h.entered x (hall.mem_iff.mpr hx)⟩

/-- Passing over the next view. -/
theorem skip {start v : View} {visited rest : List View} (h : f.Frontier start visited (v :: rest)) :
    f.Frontier start (v :: visited) rest := by
  have hperm : (visited ++ v :: rest).Perm (v :: visited ++ rest) := List.perm_middle
  refine ⟨hperm.nodup_iff.mp h.nodup, fun x hx ↦ h.inFamily x (hperm.mem_iff.mpr hx), fun x hx ↦ ?_⟩
  apply (h.entered x (hperm.mem_iff.mpr hx)).imp_right
  exact fun ⟨p, hp, hup⟩ ↦ ⟨p, List.mem_cons_of_mem v hp, hup⟩

theorem contains {start : View} {visited waiting : List View} (h : f.Frontier start visited waiting)
    (hstart : f.contains start = true) : ∀ x ∈ visited ++ waiting, f.contains x = true :=
  fun x hx ↦ contains_of_inFamily hstart (h.inFamily x hx)

end Frontier

namespace WellFormed

variable (hf : f.WellFormed)
include hf

/-- A walk downwards comes to its end, and finds no view again. The induction is on the number of
slots that are left for views not visited yet. -/
theorem exists_descends {start : View} (hstart : f.contains start = true) (left : Nat)
    {visited : List View} {stack : List Placed}
    (h : f.Frontier start visited (stack.map Placed.view)) (hleft : f.slots.size ≤ visited.length + left) :
    ∃ found, f.Descends stack found ∧ (visited ++ found.map Placed.view).Nodup := by
  induction left generalizing visited stack with
  | zero =>
    cases stack with
    | nil => exact ⟨[], .done, by simpa using h.nodup⟩
    | cons p rest =>
      have hlength := length_le_size_slots h.nodup (h.contains hstart)
      simp only [List.map_cons, List.length_append, List.length_cons] at hlength
      omega
  | succ left ih =>
    cases stack with
    | nil => exact ⟨[], .done, by simpa using h.nodup⟩
    | cons p rest =>
      have hvisit : f.Frontier start (p.view :: visited)
          ((f.placedSubviews p ++ rest).map Placed.view) := by
        rw [List.map_append, map_view_placedSubviews]
        exact h.visit hf
      obtain ⟨found, hfound, hnodup⟩ := ih hvisit (by simp only [List.length_cons]; omega)
      refine ⟨p :: found, .step (h.contains hstart p.view (by simp)) hfound, ?_⟩
      rw [List.map_cons]
      exact List.perm_middle.nodup_iff.mpr hnodup

/-- The family of a live view can be listed, each view in it once. -/
theorem exists_family {v : View} (hv : f.contains v = true) :
    ∃ found, f.family v = .ok found ∧ (found.map Placed.view).Nodup := by
  have hinitial : f.Frontier v [] ([⟨v, 1⟩].map Placed.view) := Frontier.initial f v
  obtain ⟨found, hfound, hnodup⟩ := hf.exists_descends hv f.slots.size hinitial (by simp)
  rw [List.nil_append] at hnodup
  have hlength : found.length ≤ f.slots.size := by
    have hlive : ∀ x ∈ found.map Placed.view, f.contains x = true := by
      simpa using hfound.contains
    simpa using length_le_size_slots hnodup hlive
  exact ⟨found, descend_eq_ok_iff.mpr ⟨hfound, hlength⟩, hnodup⟩

theorem family_eq_ok_iff {v : View} {found : List Placed} :
    f.family v = .ok found ↔ f.Descends [⟨v, 1⟩] found := by
  constructor
  · exact fun h ↦ (descend_eq_ok_iff.mp h).1
  · intro h
    cases h with
    | step hlive hfound =>
      obtain ⟨found', hfamily, -⟩ := hf.exists_family hlive
      rwa [(Descends.step hlive hfound).unique (descend_eq_ok_iff.mp hfamily).1]

theorem mem_family_iff {v x : View} {found : List Placed} (h : f.family v = .ok found) :
    x ∈ found.map Placed.view ↔ f.InFamily v x := by
  rw [(hf.family_eq_ok_iff.mp h).mem_iff hf]
  simp

/-- Every family holds a view without subviews. -/
theorem exists_leaf {v : View} (hv : f.contains v = true) :
    ∃ leaf, f.subviewsOf leaf = [] ∧ f.InFamily v leaf := by
  obtain ⟨found, hfound, -⟩ := hf.exists_family hv
  obtain ⟨q, -, hleaf, hfamily⟩ := (hf.family_eq_ok_iff.mp hfound).exists_leaf hf
  exact ⟨q.view, hleaf, hfamily⟩

end WellFormed

/-! ## Leaves -/

theorem isLeaf_eq (f : Forest W) (v : View) :
    f.isLeaf v = (f.contains v && (f.subviewsOf v).isEmpty) := by
  unfold isLeaf contains subviewsOf
  cases f.node? v <;> simp

/-- Nothing is erased from a list whose elements are told apart already. -/
theorem eraseDupsBy_eq_self {α : Type} {same : α → α → Bool} {as : List α}
    (h : as.Pairwise fun a b ↦ same b a = false) : as.eraseDupsBy same = as := by
  induction as with
  | nil => rfl
  | cons a as ih =>
    obtain ⟨hhead, htail⟩ := List.pairwise_cons.mp h
    have hkept : as.filter (fun b ↦ decide (same b a = false)) = as := by
      rw [List.filter_eq_self]
      intro b hb
      exact decide_eq_true (hhead b hb)
    rw [List.eraseDupsBy_cons, hkept, ih htail]

/-- No view of a family is found twice, so there is nothing to erase from its leaves. -/
theorem WellFormed.leafViewsUncached_eq (hf : f.WellFormed) {v : View} (hv : f.contains v = true)
    {found : List Placed} (hfound : f.family v = .ok found) :
    f.leafViewsUncached v =
      .ok ((found.filter fun p ↦ f.isLeaf p.view).mergeSort fun a b ↦ decide (b.depth ≤ a.depth)) := by
  obtain ⟨same, hsame, hnodup⟩ := hf.exists_family hv
  obtain rfl : found = same := Except.ok.inj (hfound.symm.trans hsame)
  have hdistinct : (found.filter fun p ↦ f.isLeaf p.view).Pairwise
      fun a b ↦ (b.view == a.view) = false := by
    refine List.Pairwise.filter _ ((List.pairwise_map.mp hnodup).imp ?_)
    intro a b hne
    exact beq_eq_false_iff_ne.mpr hne.symm
  unfold leafViewsUncached
  rw [hfound]
  simp only [bind, Except.bind, pure, Except.pure, eraseDupsBy_eq_self hdistinct]

/-- The leaves of a view are the views without subviews in its family. -/
theorem WellFormed.mem_leafViewsUncached_iff (hf : f.WellFormed) {v x : View} {leaves : List Placed}
    (hv : f.contains v = true) (h : f.leafViewsUncached v = .ok leaves) :
    x ∈ leaves.map Placed.view ↔ f.InFamily v x ∧ f.subviewsOf x = [] := by
  obtain ⟨found, hfound, -⟩ := hf.exists_family hv
  rw [hf.leafViewsUncached_eq hv hfound] at h
  cases h
  rw [← hf.mem_family_iff hfound]
  simp only [List.mem_map, List.mem_mergeSort, List.mem_filter, isLeaf_eq, Bool.and_eq_true,
    List.isEmpty_iff]
  constructor
  · rintro ⟨p, ⟨hp, -, hleaf⟩, rfl⟩
    exact ⟨⟨p, hp, rfl⟩, hleaf⟩
  · rintro ⟨⟨p, hp, rfl⟩, hleaf⟩
    have hlive := contains_of_inFamily hv ((hf.mem_family_iff hfound).mp (List.mem_map_of_mem hp))
    exact ⟨p, ⟨hp, hlive, hleaf⟩, rfl⟩

end RetainedUi.Forest
