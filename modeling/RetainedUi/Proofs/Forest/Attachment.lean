import RetainedUi.Proofs.Forest.Linking

/-!
# Attaching, detaching and destroying views

What the operations on links do, taken apart: a successful attachment is a link, a detachment takes one
away, and both only clear caches, invalidate and mark besides. Destroying a view detaches it and then
empties the slots of its whole family.

The leaves known to a view are a matter of their own. They are forgotten by exactly those views that have
the changed link below them, and no operation here makes up new ones.
-/

namespace RetainedUi.Forest

variable {W : Type} {f g : Forest W}

/-- The leaves that a view knows. -/
def leafCache? (f : Forest W) (v : View) : Option (List Placed) := (f.node? v).bind (·.leafCache)

theorem Alike.leafCache? (h : Alike Node.leafCache f g) (v : View) : f.leafCache? v = g.leafCache? v :=
  h.bind_node? id v

/-! ## Clearing caches -/

theorem leafCache?_foldl_clear (vs : List View) (f : Forest W) (w : View) :
    (vs.foldl (fun f v ↦ f.modify v fun node ↦ { node with leafCache := none }) f).leafCache? w =
      if w ∈ vs then none else f.leafCache? w := by
  induction vs generalizing f with
  | nil => simp
  | cons v vs ih =>
    rw [List.foldl_cons, ih]
    by_cases hmem : w ∈ vs
    · simp [hmem]
    · rw [if_neg hmem]
      unfold leafCache?
      rw [node?_modify]
      by_cases hview : w = v
      · simp [hview]
      · simp [hview, hmem]

/-- A view and its ancestors forget the leaves they know, and no other view does. -/
theorem leafCache?_clearLeafCaches (hf : f.WellFormed) {v : View} (h : f.clearLeafCaches v = .ok g)
    (w : View) : (f.InFamily w v → g.leafCache? w = none) ∧
      (¬ f.InFamily w v → g.leafCache? w = f.leafCache? w) := by
  simp only [clearLeafCaches, bind_eq_ok, pure, Except.pure, Except.ok.injEq] at h
  obtain ⟨lineage, hlineage, rfl⟩ := h
  have hmem : w ∈ lineage ↔ f.InFamily w v := by
    rw [(hf.lineage_eq_ok_iff.mp hlineage).mem_iff]
    simp
  rw [leafCache?_foldl_clear, ← hmem]
  exact ⟨fun h ↦ if_pos h, fun h ↦ if_neg h⟩

/-- What a changed link is followed by: the links stay, and the leaves known to the superview and its
ancestors are forgotten. -/
structure Relinks (f g : Forest W) (parent : View) : Prop where
  alike : Alike Node.links f g
  forgotten : ∀ w, f.InFamily w parent → g.leafCache? w = none
  kept : ∀ w, ¬ f.InFamily w parent → g.leafCache? w = f.leafCache? w

theorem relinks_of_relinked (hf : f.WellFormed) {parent child : View} {frame : Rect}
    (h : f.relinked parent child frame = .ok g) : Relinks f g parent := by
  have hlinks : Alike Node.links f g := (alike_of_relinked h).map Node.links
  simp only [relinked, bind_eq_ok] at h
  obtain ⟨cleared, hcleared, unknown, hunknown, painted, hpainted, h⟩ := h
  have hancestors := alike_of_clearAncestorCaches hunknown
  have hregion := alike_of_invalidate hpainted
  have hmark := alike_of_requestLayout h
  have hleaves : Alike Node.leafCache cleared g :=
    (hancestors.map Node.leafCache).trans
      ((hregion.map Node.leafCache).trans (hmark.map Node.leafCache))
  refine ⟨hlinks, fun w hw ↦ ?_, fun w hw ↦ ?_⟩
  · rw [← hleaves.leafCache? w]
    exact (leafCache?_clearLeafCaches hf hcleared w).1 hw
  · rw [← hleaves.leafCache? w]
    exact (leafCache?_clearLeafCaches hf hcleared w).2 hw

/-! ## Attaching and detaching -/

/-- What a successful attachment has checked, and what it has done. -/
theorem addView_cases {parent child : View} (h : f.addView parent child = .ok (.ok g)) :
    f.contains parent = true ∧ ∃ node lineage, f.node? child = some node ∧ node.superview = none ∧
      f.lineage parent = .ok lineage ∧ child ∉ lineage ∧
      (f.link parent child).relinked parent child node.frame = .ok g := by
  unfold addView at h
  split at h
  · cases h
  · split at h
    · cases h
    · rename_i hparent hchild
      obtain ⟨node, hnode, h⟩ := bind_eq_ok.mp h
      split at h
      · cases h
      · rename_i hfree
        obtain ⟨lineage, hlineage, h⟩ := bind_eq_ok.mp h
        split at h
        · cases h
        · rename_i hcycle
          obtain ⟨linked, hlinked, h⟩ := bind_eq_ok.mp h
          cases h
          exact ⟨by simpa using hparent, node, lineage, read_eq_ok.mp hnode, by simpa using hfree, hlineage,
            fun hmem ↦ hcycle (List.contains_iff_mem.mpr hmem), hlinked⟩

/-- A successful attachment puts a view without superview below a view outside its family. -/
theorem addView_eq_ok (hf : f.WellFormed) {parent child : View} (h : f.addView parent child = .ok (.ok g)) :
    f.contains parent = true ∧ f.contains child = true ∧ f.superview? child = none ∧
      ¬ f.InFamily child parent ∧ ∃ frame, (f.link parent child).relinked parent child frame = .ok g := by
  obtain ⟨hparent, node, lineage, hnode, hfree, hlineage, hcycle, hlinked⟩ := addView_cases h
  refine ⟨hparent, contains_iff.mpr ⟨node, hnode⟩, (superview?_of_node? hnode).trans hfree, ?_, _, hlinked⟩
  intro hbelow
  apply hcycle
  rw [(hf.lineage_eq_ok_iff.mp hlineage).mem_iff]
  exact ⟨parent, rfl, hbelow⟩

/-- What a detachment has done: nothing to a root, and to any other view what follows a changed link. -/
theorem removeFromSuperview_cases {v : View} (h : f.removeFromSuperview v = .ok g) :
    ∃ node, f.node? v = some node ∧ ((node.superview = none ∧ g = f) ∨
      ∃ parent, node.superview = some parent ∧ (f.unlink parent v).relinked parent v node.frame = .ok g) := by
  simp only [removeFromSuperview, bind_eq_ok, read_eq_ok] at h
  obtain ⟨node, hnode, h⟩ := h
  refine ⟨node, hnode, ?_⟩
  cases hup : node.superview with
  | none =>
    rw [hup] at h
    cases h
    exact .inl ⟨rfl, rfl⟩
  | some parent =>
    rw [hup] at h
    obtain ⟨unlinked, hunlinked, h⟩ := bind_eq_ok.mp h
    obtain ⟨-, rfl⟩ := update_eq_ok.mp hunlinked
    exact .inr ⟨parent, rfl, h⟩

/-- A detachment leaves a root as it is, and takes the link away from any other view. -/
theorem removeFromSuperview_eq_ok {v : View} (h : f.removeFromSuperview v = .ok g) :
    f.contains v = true ∧ ((f.superview? v = none ∧ g = f) ∨
      ∃ parent, f.superview? v = some parent ∧
        ∃ frame, (f.unlink parent v).relinked parent v frame = .ok g) := by
  obtain ⟨node, hnode, hcases⟩ := removeFromSuperview_cases h
  rw [superview?_of_node? hnode]
  refine ⟨contains_iff.mpr ⟨node, hnode⟩, hcases.imp_right ?_⟩
  rintro ⟨parent, hup, hrelinked⟩
  exact ⟨parent, hup, node.frame, hrelinked⟩

theorem wellFormed_addView (hf : f.WellFormed) {parent child : View}
    (h : f.addView parent child = .ok (.ok g)) : g.WellFormed := by
  obtain ⟨hparent, hchild, hroot, hout, frame, hg⟩ := addView_eq_ok hf h
  have hlink := wellFormed_link hf hparent hchild hroot hout
  exact (relinks_of_relinked hlink hg).alike.wellFormed hlink

theorem wellFormed_removeFromSuperview (hf : f.WellFormed) {v : View}
    (h : f.removeFromSuperview v = .ok g) : g.WellFormed := by
  obtain ⟨-, ⟨-, rfl⟩ | ⟨parent, hup, frame, hg⟩⟩ := removeFromSuperview_eq_ok h
  · exact hf
  · have hunlink := wellFormed_unlink hf hup
    exact (relinks_of_relinked hunlink hg).alike.wellFormed hunlink

theorem superview?_removeFromSuperview (hf : f.WellFormed) {v : View}
    (h : f.removeFromSuperview v = .ok g) : g.superview? v = none := by
  obtain ⟨-, ⟨hroot, rfl⟩ | ⟨parent, hup, frame, hg⟩⟩ := removeFromSuperview_eq_ok h
  · exact hroot
  · have hrelinks := relinks_of_relinked (wellFormed_unlink hf hup) hg
    rw [← hrelinks.alike.superview?, superview?_unlink, if_pos rfl]

theorem contains_removeFromSuperview (hf : f.WellFormed) {v : View}
    (h : f.removeFromSuperview v = .ok g) (w : View) : g.contains w = f.contains w := by
  obtain ⟨-, ⟨-, rfl⟩ | ⟨parent, hup, frame, hg⟩⟩ := removeFromSuperview_eq_ok h
  · rfl
  · rw [← (relinks_of_relinked (wellFormed_unlink hf hup) hg).alike.contains, contains_unlink]

/-! ## Freeing a family -/

/-- The second forest is the first one without some of its views. -/
structure Freed (f : Forest W) (freed : List View) (g : Forest W) : Prop where
  nodup : freed.Nodup
  live : ∀ v ∈ freed, f.contains v = true
  slots : ∀ slot : Nat, g.slots[slot]? =
    if slot ∈ freed.map View.index then some none else f.slots[slot]?
  vacant : g.vacant = (freed.map View.index).reverse ++ f.vacant
  lastSerial : g.lastSerial = f.lastSerial

namespace Freed

variable {freed : List View}

theorem nil (f : Forest W) : Freed f [] f := ⟨List.nodup_nil, by simp, by simp, rfl, rfl⟩

theorem node? (h : Freed f freed g) (w : View) :
    g.node? w = if w ∈ freed then none else f.node? w := by
  have hmem : w.index ∈ freed.map View.index ↔ w ∈ freed :=
    List.mem_map_of_injective View.index_injective
  unfold Forest.node?
  rw [h.slots]
  by_cases hw : w ∈ freed <;> simp [hmem, hw]

theorem cons {v : View} {node : Node W} {mid : Forest W} (hv : f.free v = .ok (node, mid))
    (h : Freed mid freed g) : Freed f (v :: freed) g := by
  obtain ⟨hnode, hmid⟩ := free_eq_ok.mp hv
  have hlive : ∀ w ∈ freed, w ≠ v ∧ f.contains w = true := by
    intro w hw
    have hcontains := h.live w hw
    rw [Forest.contains, node?_of_free hv] at hcontains
    split at hcontains
    · cases hcontains
    · exact ⟨‹_›, hcontains⟩
  refine ⟨List.nodup_cons.mpr ⟨fun hmem ↦ (hlive v hmem).1 rfl, h.nodup⟩, ?_, ?_, ?_, ?_⟩
  · exact List.forall_mem_cons.mpr ⟨contains_iff.mpr ⟨node, hnode⟩, fun w hw ↦ (hlive w hw).2⟩
  · intro slot
    have hbound : v.index < f.slots.size := index_lt_size_slots (contains_iff.mpr ⟨node, hnode⟩)
    rw [h.slots, ← hmid]
    by_cases hslot : slot = v.index
    · subst hslot
      simp [hbound]
    · simp [hslot, Ne.symm hslot]
  · simp [h.vacant, ← hmid]
  · simp [h.lastSerial, ← hmid]

end Freed

theorem subviewsOf_of_free {v : View} {node : Node W} (h : f.free v = .ok (node, g)) (p : View) :
    g.subviewsOf p = if p = v then [] else f.subviewsOf p := by
  unfold subviewsOf
  rw [node?_of_free h]
  split <;> rfl

/-- The views of a stack are freed with everything that is below them. -/
theorem freed_of_freeStack {steps : Nat} {stack : List View} (h : freeStack steps f stack = .ok g) :
    ∃ freed, Freed f freed g ∧ (∀ v ∈ stack, v ∈ freed) ∧
      (∀ p ∈ freed, ∀ c ∈ f.subviewsOf p, c ∈ freed) ∧
      ∀ x ∈ freed, ∃ v ∈ stack, Relation.ReflTransGen (fun p c ↦ c ∈ f.subviewsOf p) v x := by
  induction steps generalizing f stack with
  | zero =>
    cases stack with
    | nil =>
      cases h
      exact ⟨[], .nil _, by simp, by simp, by simp⟩
    | cons v rest => cases h
  | succ steps ih =>
    cases stack with
    | nil =>
      cases h
      exact ⟨[], .nil _, by simp, by simp, by simp⟩
    | cons v rest =>
      simp only [freeStack, bind_eq_ok, Prod.exists] at h
      obtain ⟨node, mid, hv, h⟩ := h
      obtain ⟨freed, hfreed, hstack, hclosed, hentered⟩ := ih h
      have hsubs : f.subviewsOf v = node.subviews := subviewsOf_of_node? (free_eq_ok.mp hv).1
      have hsame : ∀ p, p ≠ v → mid.subviewsOf p = f.subviewsOf p := by
        intro p hp
        rw [subviewsOf_of_free hv, if_neg hp]
      have hfewer : ∀ p c, c ∈ mid.subviewsOf p → c ∈ f.subviewsOf p := by
        intro p c hc
        rw [subviewsOf_of_free hv] at hc
        split at hc
        · cases hc
        · exact hc
      refine ⟨v :: freed, .cons hv hfreed, ?_, ?_, ?_⟩
      · refine List.forall_mem_cons.mpr ⟨List.mem_cons_self, fun w hw ↦ ?_⟩
        exact List.mem_cons_of_mem v (hstack w (by simp [hw]))
      · refine List.forall_mem_cons.mpr ⟨fun c hc ↦ ?_, fun p hp c hc ↦ ?_⟩
        · exact List.mem_cons_of_mem v (hstack c (by simp [← hsubs, hc]))
        · by_cases hpv : p = v
          · exact List.mem_cons_of_mem v (hstack c (by simp [← hsubs, ← hpv, hc]))
          · exact List.mem_cons_of_mem v (hclosed p hp c (hsame p hpv ▸ hc))
      · refine List.forall_mem_cons.mpr ⟨⟨v, List.mem_cons_self, .refl⟩, fun x hx ↦ ?_⟩
        obtain ⟨start, hstart, hpath⟩ := hentered x hx
        have hpath' := Relation.ReflTransGen.mono (fun p c h ↦ hfewer p c h) start x hpath
        rw [List.mem_append, List.mem_reverse] at hstart
        rcases hstart with hsub | hrest
        · exact ⟨v, List.mem_cons_self, hpath'.head (hsubs ▸ hsub)⟩
        · exact ⟨start, List.mem_cons_of_mem v hrest, hpath'⟩

/-- In a well-formed forest, freeing from one view frees its family. -/
theorem freed_family (hf : f.WellFormed) {steps : Nat} {v : View} (h : freeStack steps f [v] = .ok g) :
    ∃ freed, Freed f freed g ∧ ∀ x, x ∈ freed ↔ f.InFamily v x := by
  obtain ⟨freed, hfreed, hstack, hclosed, hentered⟩ := freed_of_freeStack h
  have hbelow : (fun p c ↦ c ∈ f.subviewsOf p) = f.Above := by
    funext p c
    exact propext (hf.linked p c).symm
  refine ⟨freed, hfreed, fun x ↦ ⟨fun hx ↦ ?_, fun hx ↦ ?_⟩⟩
  · obtain ⟨start, hstart, hpath⟩ := hentered x hx
    obtain rfl : start = v := by simpa using hstart
    rwa [hbelow] at hpath
  · induction hx with
    | refl => exact hstack v (by simp)
    | tail _ hlink ih => exact hclosed _ ih _ ((hf.linked _ _).mp hlink)

/-- In a well-formed forest the family of a root is linked to nothing outside. -/
theorem inFamily_iff_of_above {v : View} (hroot : f.superview? v = none) {p c : View} (h : f.Above p c) :
    f.InFamily v p ↔ f.InFamily v c := by
  constructor
  · exact fun hp ↦ hp.tail h
  · intro hc
    rcases inFamily_iff_eq_or_superview.mp hc with rfl | ⟨q, hq, hfamily⟩
    · rw [Above, hroot] at h
      cases h
    · obtain rfl : q = p := Option.some.inj (hq.symm.trans h)
      exact hfamily

namespace Freed

variable {freed : List View} (h : Freed f freed g)
include h

theorem superview? (w : View) : g.superview? w = if w ∈ freed then none else f.superview? w := by
  unfold Forest.superview?
  rw [h.node?]
  split <;> rfl

theorem subviewsOf (w : View) : g.subviewsOf w = if w ∈ freed then [] else f.subviewsOf w := by
  unfold Forest.subviewsOf
  rw [h.node?]
  split <;> rfl

theorem serial?_eq_some {w : View} {serial : Nat} (hw : g.serial? w = some serial) :
    f.serial? w = some serial := by
  unfold Forest.serial? at hw ⊢
  rw [h.node?] at hw
  split at hw
  · cases hw
  · exact hw

theorem wellFormed (hf : f.WellFormed) (hclosed : ∀ p c, f.Above p c → (p ∈ freed ↔ c ∈ freed)) :
    g.WellFormed where
  dummy := by
    obtain ⟨dummy, hdummy, hlinks⟩ := hf.dummy
    refine ⟨dummy, ?_, hlinks⟩
    rw [h.slots, if_neg, hdummy]
    intro hzero
    obtain ⟨v, hv, hindex⟩ := List.mem_map.mp hzero
    obtain ⟨node, hnode⟩ := contains_iff.mp (h.live v hv)
    exact (node?_eq_some_iff.mp hnode).1 hindex
  vacant := by
    intro slot hslot
    rw [h.slots]
    by_cases hfreed : slot ∈ freed.map View.index
    · rw [if_pos hfreed]
    · rw [if_neg hfreed]
      refine hf.vacant slot ?_
      rw [h.vacant, List.mem_append, List.mem_reverse] at hslot
      exact hslot.resolve_left hfreed
  vacant_nodup := by
    rw [h.vacant]
    refine List.nodup_append.mpr
      ⟨(List.nodup_reverse.mpr (h.nodup.map View.index_injective)), hf.vacant_nodup, ?_⟩
    rintro slot hfreed other hvacant rfl
    -- The slot of a live view does not count as vacant.
    obtain ⟨v, hv, rfl⟩ := List.mem_map.mp (List.mem_reverse.mp hfreed)
    obtain ⟨node, hnode⟩ := contains_iff.mp (h.live v hv)
    have hslot := (node?_eq_some_iff.mp hnode).2
    rw [hf.vacant v.index hvacant] at hslot
    cases hslot
  serial_le v serial hv := h.lastSerial ▸ hf.serial_le v serial (h.serial?_eq_some hv)
  serial_inj v w serial hv hw :=
    hf.serial_inj v w serial (h.serial?_eq_some hv) (h.serial?_eq_some hw)
  linked p c := by
    rw [h.superview?, h.subviewsOf]
    by_cases hlink : f.Above p c
    · have hmem : c ∈ f.subviewsOf p := (hf.linked p c).mp hlink
      have hboth := hclosed p c hlink
      by_cases hc : c ∈ freed
      · simp [hc, hboth.mpr hc]
      · rw [if_neg hc, if_neg (fun hp ↦ hc (hboth.mp hp)), hf.linked]
    · have hmem : c ∉ f.subviewsOf p := fun hmem ↦ hlink ((hf.linked p c).mpr hmem)
      have hup : f.superview? c ≠ some p := hlink
      split <;> split <;> simp [hmem, hup]
  subviews_nodup p := by
    rw [h.subviewsOf]
    split
    · exact List.nodup_nil
    · exact hf.subviews_nodup p
  rooted := by
    apply rooted_of_fewer hf.rooted
    intro c p hup
    rw [h.superview?] at hup
    split at hup
    · cases hup
    · exact hup

end Freed

/-- What is left of a forest after a view was destroyed: a dead handle changes nothing, and otherwise the
view is detached and its family freed. -/
theorem destroy_eq_ok (hf : f.WellFormed) {v : View} (h : f.destroy v = .ok g) :
    f.contains v = false ∧ g = f ∨
      ∃ mid freed, f.removeFromSuperview v = .ok mid ∧ mid.WellFormed ∧ mid.superview? v = none ∧
        Freed mid freed g ∧ ∀ x, x ∈ freed ↔ mid.InFamily v x := by
  unfold destroy at h
  cases hlive : f.contains v with
  | false =>
    simp only [hlive, Bool.not_false, if_true, pure, Except.pure, Except.ok.injEq] at h
    exact .inl ⟨rfl, h.symm⟩
  | true =>
    simp only [hlive, Bool.not_true, Bool.false_eq_true, if_false, bind_eq_ok] at h
    obtain ⟨mid, hmid, h⟩ := h
    have hwell := wellFormed_removeFromSuperview hf hmid
    obtain ⟨freed, hfreed, hmem⟩ := freed_family hwell h
    exact .inr ⟨mid, freed, hmid, hwell, superview?_removeFromSuperview hf hmid, hfreed, hmem⟩

theorem wellFormed_destroy (hf : f.WellFormed) {v : View} (h : f.destroy v = .ok g) : g.WellFormed := by
  obtain ⟨-, rfl⟩ | ⟨mid, freed, -, hmid, hroot, hfreed, hmem⟩ := destroy_eq_ok hf h
  · exact hf
  · apply hfreed.wellFormed hmid
    intro p c hlink
    rw [hmem, hmem]
    exact inFamily_iff_of_above hroot hlink

end RetainedUi.Forest
