import Mathlib.Data.List.SplitBy

/-!
# Pieces of a list

A list is cut into pieces of equal elements that are no longer than some size. The maximal runs of equal
elements are cut each by itself: into full pieces as long as there is enough, and then a last one from what is
left. Pieces whose neighbours have another element or are full can only come from that.

There is no way to divide the list into fewer segments of equal elements that are no longer than the size: a
segment in front of a list adds at most one piece to it.
-/

namespace RetainedUi.Pieces

variable {α : Type} {size : Nat}

/-- The lengths of the pieces of so many things: full ones as long as there is enough, and then the rest. -/
def lengths (size count : Nat) : List Nat :=
  List.replicate (count / size) size ++ if count % size = 0 then [] else [count % size]

theorem lengths_size_add (hsize : 0 < size) (count : Nat) :
    lengths size (size + count) = size :: lengths size count := by
  rw [lengths, lengths, Nat.add_div_left count hsize, Nat.add_mod_left, List.replicate_succ, List.cons_append]

theorem lengths_of_le {count : Nat} (hcount : 0 < count) (hle : count ≤ size) : lengths size count = [count] := by
  rcases Nat.lt_or_eq_of_le hle with hlt | rfl
  · rw [lengths, Nat.div_eq_of_lt hlt, Nat.mod_eq_of_lt hlt, if_neg (Nat.ne_of_gt hcount)]
    rfl
  · rw [lengths, Nat.div_self hcount, Nat.mod_self]
    rfl

theorem length_lengths (hsize : 0 < size) (count : Nat) :
    (lengths size count).length = (count + (size - 1)) / size := by
  have hsplit : count + (size - 1) = (count % size + (size - 1)) + size * (count / size) := by
    have := Nat.mod_add_div count size
    omega
  have hrest := Nat.mod_lt count hsize
  rw [hsplit, Nat.add_mul_div_left _ _ hsize, lengths, List.length_append, List.length_replicate, Nat.add_comm]
  congr 1
  by_cases hnone : count % size = 0
  · rw [if_pos hnone, hnone, Nat.zero_add, Nat.div_eq_of_lt (Nat.sub_lt hsize Nat.one_pos)]
    rfl
  · rw [if_neg hnone, List.length_singleton]
    exact (Nat.div_eq_of_lt_le (by omega) (by omega)).symm

/-- At most one more piece is needed for what fits into one. -/
theorem length_lengths_add_le {more : Nat} (hsize : 0 < size) (hmore : more ≤ size) (count : Nat) :
    (lengths size (more + count)).length ≤ (lengths size count).length + 1 := by
  calc (lengths size (more + count)).length
      = (more + count + (size - 1)) / size := length_lengths hsize _
    _ ≤ (size + count + (size - 1)) / size := Nat.div_le_div_right (by omega)
    _ = (lengths size (size + count)).length := (length_lengths hsize _).symm
    _ = (lengths size count).length + 1 := by rw [lengths_size_add hsize, List.length_cons]

theorem head?_flatMap_replicate {pieces : List (α × Nat)} (hpieces : ∀ piece ∈ pieces, 0 < piece.2) :
    (pieces.flatMap fun piece ↦ List.replicate piece.2 piece.1).head? = pieces.head?.map Prod.fst := by
  cases pieces with
  | nil => rfl
  | cons piece pieces =>
    have hcount : piece.2 ≠ 0 := Nat.ne_of_gt (hpieces piece List.mem_cons_self)
    rw [List.flatMap_cons, List.head?_append, List.head?_replicate, if_neg hcount]
    rfl

/-! ## Maximal runs -/

variable [DecidableEq α]

/-- Equal elements before another one are a maximal run. -/
theorem splitBy_replicate_append_of_ne {a : α} {count : Nat} (hcount : 0 < count) {rest : List α}
    (hrest : rest.head? ≠ some a) :
    (List.replicate count a ++ rest).splitBy (· == ·) =
      List.replicate count a :: rest.splitBy (· == ·) := by
  have hne : List.replicate count a ≠ [] := by
    rw [Ne, List.replicate_eq_nil_iff]
    exact Nat.ne_of_gt hcount
  have hsame : (List.replicate count a).IsChain (fun x y ↦ (x == y) = true) :=
    List.isChain_replicate_of_rel count (beq_self_eq_true a)
  rw [List.splitBy_append, List.splitBy_of_isChain hne hsame]
  · rfl
  · intro x hx y hy
    have hxa : x = a := List.eq_of_mem_replicate (List.mem_of_mem_getLast? hx)
    subst hxa
    rw [beq_eq_false_iff_ne]
    rintro rfl
    exact hrest hy

theorem head?_of_splitBy_eq_cons {as run : List α} {runs : List (List α)}
    (h : as.splitBy (· == ·) = run :: runs) : run.head? = as.head? ∧ run ≠ [] := by
  have hne : run ≠ [] := List.ne_nil_of_mem_splitBy (h ▸ List.mem_cons_self)
  have hflatten := List.flatten_splitBy (· == ·) as
  rw [h, List.flatten_cons] at hflatten
  rw [← hflatten, List.head?_append_of_ne_nil _ hne]
  exact ⟨rfl, hne⟩

/-- Equal elements before the same one make its run longer. -/
theorem splitBy_replicate_append_of_eq {a : α} {count : Nat} {as run : List α} {runs : List (List α)}
    (hhead : as.head? = some a) (h : as.splitBy (· == ·) = run :: runs) :
    (List.replicate count a ++ as).splitBy (· == ·) = (List.replicate count a ++ run) :: runs := by
  obtain ⟨hrun, hne⟩ := head?_of_splitBy_eq_cons h
  obtain ⟨hflatten, hnil, hchain, hborders⟩ := List.splitBy_eq_iff.mp h
  rw [List.splitBy_eq_iff]
  refine ⟨?_, ?_, ?_, ?_⟩
  · rw [hflatten, List.flatten_cons, List.flatten_cons, List.append_assoc]
  · simp only [List.mem_cons, not_or] at hnil ⊢
    exact ⟨(List.append_ne_nil_of_right_ne_nil _ hne).symm, hnil.2⟩
  · rw [List.forall_mem_cons] at hchain ⊢
    refine ⟨List.isChain_append.mpr ⟨?_, hchain.1, ?_⟩, hchain.2⟩
    · exact List.isChain_replicate_of_rel count (beq_self_eq_true a)
    · intro x hx y hy
      have hxa : x = a := List.eq_of_mem_replicate (List.mem_of_mem_getLast? hx)
      rw [hrun, hhead] at hy
      rw [hxa, Option.mem_some_iff.mp hy, beq_self_eq_true]
  · rw [List.isChain_cons] at hborders ⊢
    refine ⟨fun other hother ↦ ?_, hborders.2⟩
    obtain ⟨_, hright, hborder⟩ := hborders.1 other hother
    refine ⟨List.append_ne_nil_of_right_ne_nil _ hne, hright, ?_⟩
    rw [List.getLast_append_of_ne_nil _ hne]
    exact hborder

/-! ## Pieces -/

/-- The pieces of a list: each maximal run of equal elements is cut by itself. A piece is told by its element and
its length. -/
def cut (size : Nat) (as : List α) : List (Option α × Nat) :=
  (as.splitBy (· == ·)).flatMap fun run ↦ (lengths size run.length).map fun count ↦ (run.head?, count)

/-- Elements that make up a piece are a piece of their own if another element follows them or if they are many. -/
theorem cut_replicate_append {a : α} {count : Nat} (hcount : 0 < count) (hle : count ≤ size) {rest : List α}
    (hrest : rest.head? = some a → count = size) :
    cut size (List.replicate count a ++ rest) = (some a, count) :: cut size rest := by
  by_cases hhead : rest.head? = some a
  · obtain rfl := hrest hhead
    cases hsplit : rest.splitBy (· == ·) with
    | nil =>
      rw [List.splitBy_eq_nil.mp hsplit] at hhead
      cases hhead
    | cons run runs =>
      have hrun : (List.replicate count a ++ run).head? = run.head? := by
        rw [(head?_of_splitBy_eq_cons hsplit).1, hhead, List.head?_append, List.head?_replicate,
          if_neg (Nat.ne_of_gt hcount)]
        rfl
      rw [cut, cut, splitBy_replicate_append_of_eq hhead hsplit, hsplit, List.flatMap_cons, List.flatMap_cons, hrun,
        List.length_append, List.length_replicate, lengths_size_add hcount, List.map_cons, List.cons_append,
        (head?_of_splitBy_eq_cons hsplit).1, hhead]
  · rw [cut, splitBy_replicate_append_of_ne hcount hhead, List.flatMap_cons, List.length_replicate,
      lengths_of_le hcount hle, List.head?_replicate, if_neg (Nat.ne_of_gt hcount)]
    rfl

/-- Pieces of which those before the same element are full are the ones that their elements are cut into. -/
theorem cut_flatMap_replicate {pieces : List (α × Nat)}
    (hpieces : ∀ piece ∈ pieces, 0 < piece.2 ∧ piece.2 ≤ size)
    (hfull : pieces.IsChain fun piece next ↦ piece.1 = next.1 → piece.2 = size) :
    cut size (pieces.flatMap fun piece ↦ List.replicate piece.2 piece.1) =
      pieces.map fun piece ↦ (some piece.1, piece.2) := by
  induction pieces with
  | nil => rfl
  | cons piece pieces ih =>
    rw [List.forall_mem_cons] at hpieces
    rw [List.isChain_cons] at hfull
    rw [List.flatMap_cons, cut_replicate_append hpieces.1.1 hpieces.1.2, ih hpieces.2 hfull.2, List.map_cons]
    intro hhead
    rw [head?_flatMap_replicate fun next hnext ↦ (hpieces.2 next hnext).1] at hhead
    obtain ⟨next, hnext, hsame⟩ := Option.map_eq_some_iff.mp hhead
    exact hfull.1 next hnext hsame.symm

/-! ## Fewest segments -/

theorem length_cut_replicate_append_le (hsize : 0 < size) (a : α) {count : Nat} (hle : count ≤ size)
    (rest : List α) :
    (cut size (List.replicate count a ++ rest)).length ≤ (cut size rest).length + 1 := by
  rcases Nat.eq_zero_or_pos count with rfl | hcount
  · exact Nat.le_succ _
  · by_cases hhead : rest.head? = some a
    · cases hsplit : rest.splitBy (· == ·) with
      | nil =>
        rw [List.splitBy_eq_nil.mp hsplit] at hhead
        cases hhead
      | cons run runs =>
        have hadd := length_lengths_add_le hsize hle run.length
        rw [cut, cut, splitBy_replicate_append_of_eq hhead hsplit, hsplit]
        simp only [List.flatMap_cons, List.length_append, List.length_map, List.length_replicate]
        omega
    · rw [cut_replicate_append hcount hle fun h ↦ (hhead h).elim, List.length_cons]

/-- Segments of equal elements, none of them longer than the size, are no fewer than the pieces. -/
theorem length_cut_flatten_le (hsize : 0 < size) {segments : List (List α)}
    (hsegments : ∀ segment ∈ segments, segment.length ≤ size ∧ ∃ a, segment = List.replicate segment.length a) :
    (cut size segments.flatten).length ≤ segments.length := by
  induction segments with
  | nil => exact Nat.le_refl 0
  | cons segment segments ih =>
    rw [List.forall_mem_cons] at hsegments
    obtain ⟨⟨hle, a, hsame⟩, hrest⟩ := hsegments
    have hadd := length_cut_replicate_append_le hsize a hle segments.flatten
    rw [← hsame] at hadd
    exact Nat.le_trans hadd (Nat.succ_le_succ (ih hrest))

end RetainedUi.Pieces
