import Mathlib.Data.List.Flatten
import RetainedUi.Proofs.Forest.AncestorCaches
import RetainedUi.Proofs.Forest.Preorder

/-!
# The views that contain a point

A point is looked up from the outside to the inside. On the way down it is expressed in the coordinates of each view
that is entered, by taking off the origin of that view's frame. A view that does not contain the point hides whatever
is below it, also what sticks out of it. So a view is found just if all views on the way down to it contain the point,
and what is found stands in the order of the walk through the family.
-/

namespace RetainedUi

/-- A loop of plain operations that all have answers. -/
theorem mapM_eq_ok {α β : Type} {ask : α → Except Halt β} {answer : α → β} {as : List α}
    (h : ∀ a ∈ as, ask a = .ok (answer a)) : as.mapM ask = .ok (as.map answer) := by
  induction as with
  | nil => rfl
  | cons a as ih =>
    rw [List.forall_mem_cons] at h
    rw [List.mapM_cons, h.1, ih h.2]
    rfl

namespace Forest

variable {W : Type} {f : Forest W} {v w x : View} {point shifted : Vec}

/-- A point of the first view in the coordinates of the second one, which is at or below it: the origin of each frame
that is entered on the way down is taken off. -/
inductive Located (f : Forest W) : View → Vec → View → Vec → Prop where
  | here (v : View) (point : Vec) : Located f v point v point
  | inside {v sub x : View} {point shifted : Vec} {node : Node W} (hlink : f.Above v sub)
      (hnode : f.node? sub = some node) (hbelow : Located f sub (point - node.frame.origin) x shifted) :
      Located f v point x shifted

/-- The bounds of a view contain a point in its coordinates. -/
def Holds (f : Forest W) (v : View) (point : Vec) : Prop :=
  ∃ node, f.node? v = some node ∧ node.bounds.contains point = true

/-- A point of the first view is seen in the second one: each view from the first one down to the second one contains
it. -/
def Shows (f : Forest W) (v : View) (point : Vec) (w : View) : Prop :=
  f.InFamily v w ∧
    ∀ x, f.InFamily v x → f.InFamily x w → ∃ shifted, f.Located v point x shifted ∧ f.Holds x shifted

/-! ## The walk -/

theorem containing_of_outside {node : Node W} (hnode : f.node? v = some node)
    (houtside : node.bounds.contains point = false) (depth : Nat) : f.containing (depth + 1) v point = .ok [] := by
  unfold containing
  rw [read_eq_ok.mpr hnode]
  exact if_neg (Bool.eq_false_iff.mp houtside)

theorem containing_of_inside {node : Node W} (hnode : f.node? v = some node)
    (hinside : node.bounds.contains point = true) {depth : Nat} {found : View → List View}
    (hfound : ∀ sub ∈ node.subviews,
      (f.read sub >>= fun node ↦ f.containing depth sub (point - node.frame.origin)) = .ok (found sub)) :
    f.containing (depth + 1) v point = .ok (v :: node.subviews.flatMap found) := by
  unfold containing
  rw [read_eq_ok.mpr hnode]
  refine (if_pos hinside).trans (bind_eq_ok.mpr ⟨_, mapM_eq_ok hfound, ?_⟩)
  rw [List.flatMap_def]
  rfl

/-! ## Views on the way -/

theorem Located.inFamily (h : f.Located v point x shifted) : f.InFamily v x := by
  induction h with
  | here => exact .refl
  | inside hlink _ _ ih => exact ih.head hlink

namespace WellFormed

variable (hf : f.WellFormed)
include hf

/-- In its own view a point is where it is. -/
theorem located_self (h : f.Located v point v shifted) : shifted = point := by
  cases h with
  | here => rfl
  | inside hlink _ hbelow => exact (hf.not_inFamily_of_above hlink hbelow.inFamily).elim

/-- Below a subview, a point is where it is when the subview is entered first. -/
theorem located_of_subview {sub : View} {node : Node W} (hsub : sub ∈ f.subviewsOf v) (hnode : f.node? sub = some node)
    (hx : f.InFamily sub x) (h : f.Located v point x shifted) :
    f.Located sub (point - node.frame.origin) x shifted := by
  cases h with
  | here => exact (hf.not_inFamily_of_above ((hf.linked v sub).mpr hsub) hx).elim
  | @inside _ other _ _ _ _ hlink hother hbelow =>
    obtain rfl : other = sub := hf.families_disjoint ((hf.linked v other).mp hlink) hsub hbelow.inFamily hx
    cases hnode.symm.trans hother
    exact hbelow

/-- A point is seen in its own view if that view contains it, and then in all views in which it is seen from a
subview. -/
theorem shows_iff : f.Shows v point w ↔ f.Holds v point ∧
    (w = v ∨ ∃ sub ∈ f.subviewsOf v, ∃ node, f.node? sub = some node ∧ f.Shows sub (point - node.frame.origin) w) := by
  constructor
  · rintro ⟨hfamily, hpath⟩
    obtain ⟨shifted, hlocated, hself⟩ := hpath v .refl hfamily
    refine ⟨hf.located_self hlocated ▸ hself, ?_⟩
    rcases (inFamily_iff_eq_or_subview hf).mp hfamily with rfl | ⟨sub, hsub, hbelow⟩
    · exact .inl rfl
    · obtain ⟨node, hnode⟩ := contains_iff.mp (hf.contains_subview hsub)
      refine .inr ⟨sub, hsub, node, hnode, hbelow, fun x hx hxw ↦ ?_⟩
      obtain ⟨shifted, hlocated, hholds⟩ := hpath x (.head ((hf.linked v sub).mpr hsub) hx) hxw
      exact ⟨shifted, hf.located_of_subview hsub hnode hx hlocated, hholds⟩
  · rintro ⟨hself, rfl | ⟨sub, hsub, node, hnode, hbelow, hpath⟩⟩
    · refine ⟨.refl, fun x hx hxw ↦ ?_⟩
      obtain rfl : x = w := hf.inFamily_antisymm hxw hx
      exact ⟨point, .here x point, hself⟩
    · have hlink : f.Above v sub := (hf.linked v sub).mpr hsub
      refine ⟨.head hlink hbelow, fun x hx hxw ↦ ?_⟩
      rcases (inFamily_iff_eq_or_subview hf).mp hx with rfl | ⟨other, hother, hx⟩
      · exact ⟨point, .here v point, hself⟩
      · obtain rfl : other = sub := hf.families_disjoint hother hsub (hx.trans hxw) hbelow
        obtain ⟨shifted, hlocated, hholds⟩ := hpath x hx hxw
        exact ⟨shifted, .inside hlink hnode hlocated, hholds⟩

/-- A walk whose depth fits finds the views in which the point is seen. -/
theorem exists_containing {depth : Nat} (hfits : f.Fits depth v) (point : Vec) :
    ∃ found, f.containing depth v point = .ok found ∧ found.Sublist (f.preorder depth v) ∧
      ∀ w, w ∈ found ↔ f.Shows v point w := by
  induction depth generalizing v point with
  | zero => exact hfits.elim
  | succ depth ih =>
    obtain ⟨node, hnode⟩ := contains_iff.mp hfits.1
    have hsubs : ∀ sub ∈ f.subviewsOf v, ∃ found,
        (f.read sub >>= fun node ↦ f.containing depth sub (point - node.frame.origin)) = .ok found ∧
          found.Sublist (f.preorder depth sub) ∧
            ∀ w, w ∈ found ↔ ∃ node, f.node? sub = some node ∧ f.Shows sub (point - node.frame.origin) w := by
      intro sub hsub
      obtain ⟨below, hbelow⟩ := contains_iff.mp (hf.contains_subview hsub)
      obtain ⟨found, hfound, horder, hmem⟩ := ih (hfits.2 sub hsub) (point - below.frame.origin)
      exact ⟨found, bind_eq_ok.mpr ⟨below, read_eq_ok.mpr hbelow, hfound⟩, horder, fun w ↦ by simp [hbelow, hmem]⟩
    choose! found hfound horder hmem using hsubs
    have hholds : f.Holds v point ↔ node.bounds.contains point = true := by simp [Holds, hnode]
    cases hcontains : node.bounds.contains point with
    | false =>
      refine ⟨[], containing_of_outside hnode hcontains depth, List.nil_sublist _, fun w ↦ ?_⟩
      rw [hf.shows_iff, hholds, hcontains]
      simp
    | true =>
      refine ⟨v :: (f.subviewsOf v).flatMap found, ?_, ?_, fun w ↦ ?_⟩
      · rw [subviewsOf_of_node? hnode] at hfound ⊢
        exact containing_of_inside hnode hcontains hfound
      · exact (List.Sublist.flatMap_right _ horder).cons_cons v
      · rw [hf.shows_iff, hholds, hcontains, List.mem_cons, List.mem_flatMap]
        simp only [true_and]
        exact or_congr_right (exists_congr fun sub ↦ and_congr_right fun hsub ↦ hmem sub hsub w)

end WellFormed

/-- Looking up a point lists the views in which it is seen, each once, in the order of the walk: a view before those
inside it, and siblings with all that is below them in the order of their superview. -/
theorem viewsContaining_lists (hf : f.WellFormed) (hv : f.contains v = true) (point : Vec) :
    ∃ found, f.viewsContaining v point = .ok found ∧ (∀ w, w ∈ found ↔ f.Shows v point w) ∧ found.Nodup ∧
      found.Sublist (f.listing v) := by
  have hfits : f.Fits f.slots.size v := hf.fits hv
  obtain ⟨found, hfound, horder, hmem⟩ := hf.exists_containing hfits point
  exact ⟨found, hfound, hmem, (hf.nodup_preorder hfits).sublist horder, horder⟩

/-- A window and three views that belong nowhere. -/
def framed : Forest Unit :=
  ((((empty.createWindow (.ofSides 0 0 100 100)).2.create (.ofSides 10 10 50 50)).2.create
    (.ofSides 20 20 50 50)).2.create (.ofSides 40 40 100 100)).2

/-- The window with two subviews that overlap, the first of which has a subview that sticks out of it. -/
def overlapping : Forest Unit := ((framed.added ⟨1⟩ ⟨2⟩).added ⟨1⟩ ⟨3⟩).added ⟨2⟩ ⟨4⟩

theorem reaches_overlapping : Reaches empty overlapping := by
  have hframed : Reaches empty framed :=
    ((((Reaches.refl empty).step (.createWindow _ _)).step (.create _ _)).step (.create _ _)).step (.create _ _)
  exact ((hframed.added _ _).added _ _).added _ _

/-- A point in all four views, and a point that the inner view would contain if its superview did. -/
theorem viewsContaining_lists_overlapping : ∃ (f : Forest Unit) (found hidden : List View),
    f.WellFormed ∧ f.contains ⟨1⟩ = true ∧ f.listing ⟨1⟩ = [⟨1⟩, ⟨2⟩, ⟨4⟩, ⟨3⟩] ∧
      f.viewsContaining ⟨1⟩ ⟨55, 55⟩ = .ok found ∧ found = [⟨1⟩, ⟨2⟩, ⟨4⟩, ⟨3⟩] ∧ f.Shows ⟨1⟩ ⟨55, 55⟩ ⟨4⟩ ∧
        f.viewsContaining ⟨1⟩ ⟨90, 90⟩ = .ok hidden ∧ hidden = [⟨1⟩] ∧ ¬ f.Shows ⟨1⟩ ⟨90, 90⟩ ⟨4⟩ := by
  let f : Forest Unit := overlapping
  have hf : f.WellFormed := reachable_wellFormed reaches_overlapping
  have hv : f.contains ⟨1⟩ = true := by decide +kernel
  have hlisting : f.listing ⟨1⟩ = [⟨1⟩, ⟨2⟩, ⟨4⟩, ⟨3⟩] := by decide +kernel
  have hseen : f.viewsContaining ⟨1⟩ ⟨55, 55⟩ = .ok [⟨1⟩, ⟨2⟩, ⟨4⟩, ⟨3⟩] := by decide +kernel
  have hunseen : f.viewsContaining ⟨1⟩ ⟨90, 90⟩ = .ok [⟨1⟩] := by decide +kernel
  clear_value f
  obtain ⟨found, hfound, hmem, -⟩ := viewsContaining_lists hf hv ⟨55, 55⟩
  obtain ⟨hidden, hhidden, hmem', -⟩ := viewsContaining_lists hf hv ⟨90, 90⟩
  obtain rfl := Except.ok.inj (hseen.symm.trans hfound)
  obtain rfl := Except.ok.inj (hunseen.symm.trans hhidden)
  exact ⟨f, _, _, hf, hv, hlisting, hfound, rfl, (hmem ⟨4⟩).mp (by simp), hhidden, rfl,
    fun hshows ↦ by simpa using (hmem' ⟨4⟩).mpr hshows⟩

end Forest

end RetainedUi
