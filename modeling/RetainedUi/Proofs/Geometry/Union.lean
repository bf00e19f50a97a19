import RetainedUi.Geometry.Rect
import RetainedUi.Proofs.Numeral.Order

/-!
# The rectangle around two others

A rectangle that is clipped to bounds at the origin has no negative coordinates, and where it is not empty, its corner
is finite. For such rectangles the one around two of them is the same in either order, as numbers are compared, and
so it is if only one of them is empty. Of two empty rectangles the first one is taken, wherever it is.
-/

namespace RetainedUi

namespace Single

open Float32 (nan)

/-- An interval that begins at a finite scalar. Neither its beginning nor its length is negative. -/
structure Span (low length : Float32) : Prop where
  low_nonneg : 0 ≤ low
  isFinite_low : low.isFinite = true
  length_nonneg : 0 ≤ length

namespace Span

variable {low length low' length' : Float32}

theorem end_ne_nan (h : Span low length) : low + length ≠ nan := add_ne_nan h.low_nonneg h.length_nonneg

/-- What is cut off at zero on both sides, if something is left of it. -/
theorem of_cut {x high : Float32} (h : ¬ larger (high - larger x 0) 0 ≤ epsilon) :
    Span (larger x 0) (larger (high - larger x 0) 0) where
  low_nonneg := zero_le_larger x
  isFinite_low := isFinite_of_length (zero_le_larger x) h
  length_nonneg := zero_le_larger _

theorem isFinite_smaller (h : Span low length) (h' : Span low' length') : (smaller low low').isFinite = true := by
  rcases smaller_eq (ne_nan_of_nonneg h.low_nonneg) (ne_nan_of_nonneg h'.low_nonneg) with heq | heq <;> rw [heq]
  · exact h.isFinite_low
  · exact h'.isFinite_low

/-- The length from the smaller beginning to the larger end. -/
theorem hull_length_beq_comm (h : Span low length) (h' : Span low' length') :
    (larger (low + length) (low' + length') - smaller low low' ==
      larger (low' + length') (low + length) - smaller low' low) = true := by
  have hhigh := larger_beq_comm h.end_ne_nan h'.end_ne_nan
  have hlow := smaller_beq_comm (ne_nan_of_nonneg h.low_nonneg) (ne_nan_of_nonneg h'.low_nonneg)
  have hnumber : larger (low + length) (low' + length') ≠ nan := by
    rcases larger_eq h.end_ne_nan h'.end_ne_nan with heq | heq <;> rw [heq]
    · exact h.end_ne_nan
    · exact h'.end_ne_nan
  exact sub_congr hhigh hlow (sub_ne_nan hnumber (h.isFinite_smaller h'))

end Span

end Single

namespace Rect

open Single

variable {a b : Rect}

theorem beq_iff : (a == b) = true ↔ ((a.origin.x == b.origin.x) = true ∧ (a.origin.y == b.origin.y) = true) ∧
    (a.size.x == b.size.x) = true ∧ (a.size.y == b.size.y) = true := by
  change ((_ && _) && (_ && _)) = true ↔ _
  simp only [Bool.and_eq_true]

/-- Both axes of the rectangle are intervals that begin at a finite scalar. -/
structure Sound (r : Rect) : Prop where
  horizontal : Span r.origin.x r.size.x
  vertical : Span r.origin.y r.size.y

theorem isEmpty_eq_false_iff : a.isEmpty = false ↔ ¬ a.size.x ≤ epsilon ∧ ¬ a.size.y ≤ epsilon := by
  simp [isEmpty]

/-- Equal rectangles are empty both or not at all. -/
theorem isEmpty_congr (h : (a == b) = true) : a.isEmpty = b.isEmpty := by
  obtain ⟨-, hwidth, hheight⟩ := beq_iff.mp h
  simp only [isEmpty, le_congr hwidth, le_congr hheight]

/-- Whatever is clipped to bounds at the origin, what is left of it has no NaN and no infinite corner. -/
theorem sound_intersection (hb : b.origin = .zero) (h : (a.intersection b).isEmpty = false) :
    (a.intersection b).Sound := by
  obtain ⟨hwidth, hheight⟩ := isEmpty_eq_false_iff.mp h
  simp only [intersection, hb] at hwidth hheight ⊢
  exact ⟨.of_cut hwidth, .of_cut hheight⟩

theorem union_of_isEmpty_right (a : Rect) (hb : b.isEmpty = true) : a.union b = a := by
  rw [union, if_pos hb]

theorem union_of_isEmpty_left (ha : a.isEmpty = true) (hb : b.isEmpty = false) : a.union b = b := by
  rw [union, if_neg (by simp [hb]), if_pos ha]

namespace Sound

theorem beq_self (h : a.Sound) : (a == a) = true := by
  have hself {x : Float32} (hx : 0 ≤ x) : (x == x) = true := Float32.beq_self_iff.mpr (ne_nan_of_nonneg hx)
  exact beq_iff.mpr ⟨⟨hself h.horizontal.low_nonneg, hself h.vertical.low_nonneg⟩,
    hself h.horizontal.length_nonneg, hself h.vertical.length_nonneg⟩

theorem union_beq_comm (ha : a.Sound) (hb : b.Sound) (ha' : a.isEmpty = false) (hb' : b.isEmpty = false) :
    (a.union b == b.union a) = true := by
  have hlow {low length low' length' : Float32} (h : Span low length) (h' : Span low' length') :
      (smaller low low' == smaller low' low) = true :=
    smaller_beq_comm (ne_nan_of_nonneg h.low_nonneg) (ne_nan_of_nonneg h'.low_nonneg)
  rw [union, union, if_neg (by simp [hb']), if_neg (by simp [ha']), if_neg (by simp [ha']), if_neg (by simp [hb'])]
  exact beq_iff.mpr ⟨⟨hlow ha.horizontal hb.horizontal, hlow ha.vertical hb.vertical⟩,
    ha.horizontal.hull_length_beq_comm hb.horizontal, ha.vertical.hull_length_beq_comm hb.vertical⟩

end Sound

/-- The rectangle around two others does not depend on their order if one of them is not empty. If both are, it is
the first one. -/
theorem union_beq_comm_iff (ha : a.isEmpty = false → a.Sound) (hb : b.isEmpty = false → b.Sound) :
    (a.union b == b.union a) = true ↔ ¬ (a.isEmpty = true ∧ b.isEmpty = true) ∨ (a == b) = true := by
  cases ha' : a.isEmpty with
  | true =>
    cases hb' : b.isEmpty with
    | true => simp [union_of_isEmpty_right a hb', union_of_isEmpty_right b ha']
    | false => simp [union_of_isEmpty_left ha' hb', union_of_isEmpty_right b ha', (hb hb').beq_self]
  | false =>
    cases hb' : b.isEmpty with
    | true => simp [union_of_isEmpty_right a hb', union_of_isEmpty_left hb' ha', (ha ha').beq_self]
    | false => simp [(ha ha').union_beq_comm (hb hb') ha' hb']

end Rect

end RetainedUi
