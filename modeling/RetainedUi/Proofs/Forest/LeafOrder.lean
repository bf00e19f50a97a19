import RetainedUi.Proofs.Forest.Preorder

/-!
# The leaves of a view in order

A view lists its leaves with the deepest first. The walk that finds them counts the links it goes down, and the
views that it finds are in the order of the recursive walk. A stable sort by depth then only moves leaves of
different depths past each other.
-/

namespace RetainedUi.Forest

variable {W : Type} {f : Forest W} {v w x : View}

/-! ## Depth -/

/-- The second view lies below the first one by as many links as given. -/
inductive Deep (f : Forest W) (v : View) : Nat → View → Prop where
  | here : Deep f v 0 v
  | down {links : Nat} {p c : View} (hp : Deep f v links p) (hlink : f.Above p c) : Deep f v (links + 1) c

namespace Deep

variable {links more : Nat}

theorem inFamily (h : f.Deep v links x) : f.InFamily v x := by
  induction h with
  | here => exact .refl
  | down _ hlink ih => exact ih.tail hlink

/-- A chain of links gets longer at its upper end. -/
theorem head (hlink : f.Above w v) (h : f.Deep v links x) : f.Deep w (links + 1) x := by
  induction h with
  | here => exact .down .here hlink
  | down _ hlast ih => exact .down ih hlast

/-- Only one chain of links leads down to a view. -/
theorem unique (hf : f.WellFormed) (h : f.Deep v links x) (h' : f.Deep v more x) : links = more := by
  induction h generalizing more with
  | here =>
    cases h' with
    | here => rfl
    | down hp hlink => exact (hf.not_inFamily_of_above hlink hp.inFamily).elim
  | @down links p c hp hlink ih =>
    cases h' with
    | here => exact (hf.not_inFamily_of_above hlink hp.inFamily).elim
    | @down more q _ hq hlink' =>
      obtain rfl : p = q := Option.some.inj (hlink.symm.trans hlink')
      exact congrArg Nat.succ (ih hq)

end Deep

/-- A walk downwards counts the links from the views it starts from. -/
theorem Descends.exists_deep (hf : f.WellFormed) {stack found : List Placed} (h : f.Descends stack found) :
    ∀ q ∈ found, ∃ p ∈ stack, ∃ links, f.Deep p.view links q.view ∧ q.depth = p.depth + links := by
  induction h with
  | done => simp
  | @step p rest found _ _ ih =>
    refine List.forall_mem_cons.mpr ⟨?_, ?_⟩
    · exact ⟨p, List.mem_cons_self, 0, .here, rfl⟩
    · intro q hq
      obtain ⟨start, hstart, links, hdeep, hdepth⟩ := ih q hq
      rcases List.mem_append.mp hstart with hsub | hrest
      · obtain ⟨hsub, hstartDepth⟩ := mem_placedSubviews_iff.mp hsub
        have hlink : f.Above p.view start.view := (hf.linked p.view start.view).mpr hsub
        refine ⟨p, List.mem_cons_self, links + 1, hdeep.head hlink, ?_⟩
        calc
          q.depth = p.depth + 1 + links := by rw [hdepth, hstartDepth]
          _ = p.depth + (links + 1) := by rw [Nat.add_assoc, Nat.add_comm 1 links]
      · exact ⟨start, List.mem_cons_of_mem p hrest, links, hdeep, hdepth⟩

theorem WellFormed.depth_of_mem_family (hf : f.WellFormed) {found : List Placed} (hfound : f.family v = .ok found)
    {p : Placed} (hp : p ∈ found) : ∃ links, p.depth = links + 1 ∧ ∀ n, f.Deep v n p.view ↔ n = links := by
  obtain ⟨start, hstart, links, hdeep, hdepth⟩ := (hf.family_eq_ok_iff.mp hfound).exists_deep hf p hp
  obtain rfl : start = ⟨v, 1⟩ := List.mem_singleton.mp hstart
  refine ⟨links, hdepth.trans (Nat.add_comm 1 links), fun n ↦ ⟨fun h ↦ h.unique hf hdeep, ?_⟩⟩
  rintro rfl
  exact hdeep

/-! ## Sorting -/

/-- Whether the first view is at least as deep as the second one. -/
def deeper (a b : Placed) : Bool := decide (b.depth ≤ a.depth)

theorem deeper_trans (a b c : Placed) (hab : deeper a b = true) (hbc : deeper b c = true) : deeper a c = true := by
  apply decide_eq_true
  calc
    c.depth ≤ b.depth := of_decide_eq_true hbc
    _ ≤ a.depth := of_decide_eq_true hab

theorem deeper_total (a b : Placed) : (deeper a b || deeper b a) = true := by
  rcases Nat.le_total b.depth a.depth with h | h
  · simp [deeper, h]
  · simp [deeper, h]

theorem pairwise_mergeSort_deeper (ps : List Placed) :
    (ps.mergeSort deeper).Pairwise fun a b ↦ b.depth ≤ a.depth := by
  apply (List.pairwise_mergeSort deeper_trans deeper_total ps).imp
  exact of_decide_eq_true

/-- Views of equal depth are not moved past each other. -/
theorem filter_mergeSort_deeper (ps : List Placed) (depth : Nat) :
    ((ps.mergeSort deeper).filter fun p ↦ p.depth = depth) = ps.filter fun p ↦ p.depth = depth := by
  have hequal : (ps.filter fun p ↦ p.depth = depth).Pairwise fun a b ↦ deeper a b = true := by
    apply List.pairwise_of_forall_mem_list
    intro a ha b hb
    have hdepth : b.depth = a.depth := by
      rw [of_decide_eq_true (List.mem_filter.mp ha).2, of_decide_eq_true (List.mem_filter.mp hb).2]
    exact decide_eq_true hdepth.le
  have hkept : (ps.filter fun p ↦ p.depth = depth).Sublist ((ps.mergeSort deeper).filter fun p ↦ p.depth = depth) := by
    have hsorted := List.sublist_mergeSort deeper_trans deeper_total hequal List.filter_sublist
    simpa using hsorted.filter fun p ↦ p.depth = depth
  have hperm := (List.mergeSort_perm ps deeper).filter fun p ↦ p.depth = depth
  exact (hkept.eq_of_length hperm.length_eq.symm).symm

/-! ## Leaves -/

/-- The leaves of a view: the views without subviews at or below it, each once, with the deepest first, and in the
order of the recursive walk as long as they are equally deep. -/
structure ListsLeaves (f : Forest W) (v : View) (leaves : List Placed) : Prop where
  nodup : (leaves.map Placed.view).Nodup
  mem_iff : ∀ x, x ∈ leaves.map Placed.view ↔ f.InFamily v x ∧ f.subviewsOf x = []
  /-- The depth is one more than the number of links from the view down to the leaf. -/
  depth : ∀ p ∈ leaves, ∃ links, p.depth = links + 1 ∧ ∀ n, f.Deep v n p.view ↔ n = links
  deepest : leaves.Pairwise fun a b ↦ b.depth ≤ a.depth
  stable : ∀ depth, ((leaves.filter fun p ↦ p.depth = depth).map Placed.view).Sublist (f.listing v)

/-- The leaves of a live view are listed as they should be. -/
theorem leafViewsUncached_lists (hf : f.WellFormed) (hv : f.contains v = true) :
    ∃ leaves, f.leafViewsUncached v = .ok leaves ∧ f.ListsLeaves v leaves := by
  obtain ⟨found, hfound, hnodup⟩ := hf.exists_family hv
  let leaves := found.filter fun p ↦ f.isLeaf p.view
  have hleaves : f.leafViewsUncached v = .ok (leaves.mergeSort deeper) := hf.leafViewsUncached_eq hv hfound
  have hperm : (leaves.mergeSort deeper).Perm leaves := List.mergeSort_perm leaves deeper
  refine ⟨leaves.mergeSort deeper, hleaves, ?_, fun x ↦ hf.mem_leafViewsUncached_iff hv hleaves, ?_,
    pairwise_mergeSort_deeper leaves, ?_⟩
  · rw [(hperm.map Placed.view).nodup_iff]
    exact hnodup.sublist (List.filter_sublist.map Placed.view)
  · intro p hp
    exact hf.depth_of_mem_family hfound (List.mem_of_mem_filter (hperm.mem_iff.mp hp))
  · intro depth
    rw [filter_mergeSort_deeper, ← hf.map_view_family hfound]
    exact (List.filter_sublist.trans List.filter_sublist).map Placed.view

theorem leafViewsUncached_branched :
    branched.leafViewsUncached ⟨1⟩ = .ok [⟨⟨5⟩, 3⟩, ⟨⟨6⟩, 3⟩, ⟨⟨2⟩, 2⟩, ⟨⟨4⟩, 2⟩] := by
  have hf : branched.WellFormed := reachable_wellFormed reaches_branched
  have hv : branched.contains ⟨1⟩ = true := by decide +kernel
  have hfamily : branched.family ⟨1⟩ =
      .ok [⟨⟨1⟩, 1⟩, ⟨⟨2⟩, 2⟩, ⟨⟨3⟩, 2⟩, ⟨⟨5⟩, 3⟩, ⟨⟨6⟩, 3⟩, ⟨⟨4⟩, 2⟩] := by decide +kernel
  have hleaf : [⟨⟨1⟩, 1⟩, ⟨⟨2⟩, 2⟩, ⟨⟨3⟩, 2⟩, ⟨⟨5⟩, 3⟩, ⟨⟨6⟩, 3⟩, ⟨⟨4⟩, 2⟩].filter
      (fun p : Placed ↦ branched.isLeaf p.view) = [⟨⟨2⟩, 2⟩, ⟨⟨5⟩, 3⟩, ⟨⟨6⟩, 3⟩, ⟨⟨4⟩, 2⟩] := by decide +kernel
  rw [hf.leafViewsUncached_eq hv hfamily, hleaf]
  simp [List.mergeSort, List.MergeSort.Internal.splitInTwo]

/-- The two leaves below a subview come before the subviews that are leaves themselves. -/
theorem leafViewsUncached_lists_branched : ∃ (f : Forest Unit) (leaves : List Placed), f.WellFormed ∧
    f.contains ⟨1⟩ = true ∧ f.listing ⟨1⟩ = [⟨1⟩, ⟨2⟩, ⟨3⟩, ⟨5⟩, ⟨6⟩, ⟨4⟩] ∧ f.leafViewsUncached ⟨1⟩ = .ok leaves ∧
      f.ListsLeaves ⟨1⟩ leaves ∧ leaves = [⟨⟨5⟩, 3⟩, ⟨⟨6⟩, 3⟩, ⟨⟨2⟩, 2⟩, ⟨⟨4⟩, 2⟩] := by
  have hf : branched.WellFormed := reachable_wellFormed reaches_branched
  have hv : branched.contains ⟨1⟩ = true := by decide +kernel
  have hlisting : branched.listing ⟨1⟩ = [⟨1⟩, ⟨2⟩, ⟨3⟩, ⟨5⟩, ⟨6⟩, ⟨4⟩] := by decide +kernel
  obtain ⟨leaves, hleaves, hlists⟩ := leafViewsUncached_lists hf hv
  exact ⟨branched, leaves, hf, hv, hlisting, hleaves, hlists,
    Except.ok.inj (hleaves.symm.trans leafViewsUncached_branched)⟩

end RetainedUi.Forest
