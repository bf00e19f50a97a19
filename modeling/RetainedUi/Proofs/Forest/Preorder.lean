import RetainedUi.Proofs.Forest.Settling

/-!
# Families in the order of a walk

Layout and drawing visit the views of a family depth first: a view before those inside it, and siblings in the order
of their superview. Both walks are bounded by a depth that is given, so the order is defined for a bounded depth as
well. A depth fits a view if no chain of subviews below the view is longer. In a well-formed forest the number of
slots fits every live view, and then the order lists the family, each view once.

Nothing but links matters for that, so walks that change no links go by one order from their start to their end.
-/

namespace RetainedUi.Forest

variable {W : Type}

/-- No chain of subviews from the view on is longer than the number says, and all views in them are live. -/
def Fits (f : Forest W) : Nat → View → Prop
  | 0, _ => False
  | depth + 1, v => f.contains v = true ∧ ∀ sub ∈ f.subviewsOf v, f.Fits depth sub

/-- A view and everything below it up to a depth, in the order of a walk. -/
def preorder (f : Forest W) : Nat → View → List View
  | 0, _ => []
  | depth + 1, v => v :: (f.subviewsOf v).flatMap (f.preorder depth)

/-- A view and everything below it, in the order of a walk. -/
def listing (f : Forest W) (v : View) : List View := f.preorder f.slots.size v

variable {f g : Forest W} {v w x : View} {depth : Nat}

theorem Fits.contains (h : f.Fits depth v) : f.contains v = true := by
  cases depth with
  | zero => exact h.elim
  | succ depth => exact h.1

/-! ## Forests with the same links -/

namespace Alike

variable (h : Alike Node.links f g)
include h

theorem fits : g.Fits depth v ↔ f.Fits depth v := by
  induction depth generalizing v with
  | zero => exact Iff.rfl
  | succ depth ih => simp only [Fits, h.contains v, h.subviewsOf v, ih]

theorem preorder_eq (depth : Nat) (v : View) : g.preorder depth v = f.preorder depth v := by
  induction depth generalizing v with
  | zero => rfl
  | succ depth ih =>
    rw [preorder, preorder, h.subviewsOf v]
    exact congrArg (v :: ·) (List.flatMap_congr fun sub _ ↦ ih sub)

end Alike

/-! ## Depths that fit -/

/-- A larger depth changes nothing. -/
theorem Fits.of_le (h : f.Fits depth v) {more : Nat} (hle : depth ≤ more) :
    f.Fits more v ∧ f.preorder more v = f.preorder depth v := by
  induction depth generalizing v more with
  | zero => exact h.elim
  | succ depth ih =>
    obtain ⟨more, rfl⟩ := Nat.exists_eq_add_of_lt hle
    have hsubs (sub : View) (hsub : sub ∈ f.subviewsOf v) := ih (h.2 sub hsub) (Nat.le_add_right depth more)
    refine ⟨⟨h.1, fun sub hsub ↦ (hsubs sub hsub).1⟩, ?_⟩
    exact congrArg (v :: ·) (List.flatMap_congr fun sub hsub ↦ (hsubs sub hsub).2)

namespace WellFormed

variable (hf : f.WellFormed)
include hf

/-- The longer the chain of superviews is, the less depth is left below. -/
theorem fits_of_ascends {chain : List View} (hchain : f.Ascends (some v) chain)
    (hdepth : f.slots.size + 1 ≤ chain.length + depth) : f.Fits depth v := by
  induction depth generalizing v chain with
  | zero =>
    have hlength := length_le_size_slots (hchain.nodup hf) hchain.contains
    omega
  | succ depth ih =>
    have hlive : f.contains v = true := by
      cases hchain with
      | step hnode => exact contains_iff.mpr ⟨_, hnode⟩
    refine ⟨hlive, fun sub hsub ↦ ?_⟩
    obtain ⟨node, hnode⟩ := contains_iff.mp (hf.contains_subview hsub)
    have hup : node.superview = some v := by rw [← superview?_of_node? hnode, hf.linked]; exact hsub
    exact ih (.step hnode (hup ▸ hchain)) (by simp only [List.length_cons]; omega)

theorem fits (hv : f.contains v = true) : f.Fits f.slots.size v := by
  obtain ⟨chain, hchain⟩ := hf.exists_ascends hv
  refine hf.fits_of_ascends hchain ?_
  cases hchain
  simp only [List.length_cons]
  omega

theorem listing_eq_preorder (hv : f.contains v = true) (hdepth : f.slots.size ≤ depth) :
    f.preorder depth v = f.listing v :=
  ((hf.fits hv).of_le hdepth).2

/-- A view comes first, and then come its subviews, each with all that is below it. -/
theorem listing_eq (hv : f.contains v = true) : f.listing v = v :: (f.subviewsOf v).flatMap f.listing := by
  rw [← hf.listing_eq_preorder hv (Nat.le_succ _)]
  rfl

/-! ## What is listed -/

theorem mem_preorder_iff (h : f.Fits depth v) : x ∈ f.preorder depth v ↔ f.InFamily v x := by
  induction depth generalizing v with
  | zero => exact h.elim
  | succ depth ih =>
    rw [preorder, List.mem_cons, List.mem_flatMap, inFamily_iff_eq_or_subview hf, eq_comm (a := x)]
    exact or_congr_right (exists_congr fun sub ↦ and_congr_right fun hsub ↦ ih (h.2 sub hsub))

theorem mem_preorder_of_mem_subviewsOf (h : f.Fits depth v) {sub : View} (hw : w ∈ f.preorder depth v)
    (hsub : sub ∈ f.subviewsOf w) : sub ∈ f.preorder depth v :=
  (hf.mem_preorder_iff h).mpr (((hf.mem_preorder_iff h).mp hw).tail ((hf.linked w sub).mpr hsub))

/-- Nothing is below two views of which neither is below the other. -/
theorem families_disjoint {c c' : View} (hc : c ∈ f.subviewsOf v) (hc' : c' ∈ f.subviewsOf v) (hx : f.InFamily c x)
    (hx' : f.InFamily c' x) : c = c' := by
  have hapart {a b : View} (ha : a ∈ f.subviewsOf v) (hb : b ∈ f.subviewsOf v) (hab : f.InFamily a b) : a = b := by
    rcases inFamily_iff_eq_or_superview.mp hab with rfl | ⟨p, hup, hfamily⟩
    · rfl
    · obtain rfl : v = p := Option.some.inj (((hf.linked v b).mpr hb).symm.trans hup)
      exact absurd hfamily (hf.not_inFamily_of_above ((hf.linked v a).mpr ha))
  have hchain : Relator.RightUnique (Function.swap f.Above) := fun _ _ _ hp hq ↦ Option.some.inj (hp.symm.trans hq)
  have hup (a : View) (ha : f.InFamily a x) : Relation.ReflTransGen (Function.swap f.Above) x a :=
    Relation.reflTransGen_swap.mp ha
  rcases Relation.ReflTransGen.total_of_right_unique hchain (hup c hx) (hup c' hx') with hbelow | hbelow
  · exact (hapart hc' hc (Relation.reflTransGen_swap.mpr hbelow)).symm
  · exact hapart hc hc' (Relation.reflTransGen_swap.mpr hbelow)

theorem nodup_preorder (h : f.Fits depth v) : (f.preorder depth v).Nodup := by
  induction depth generalizing v with
  | zero => exact List.nodup_nil
  | succ depth ih =>
    rw [preorder, List.nodup_cons, List.nodup_flatMap]
    refine ⟨fun hv ↦ ?_, fun sub hsub ↦ ih (h.2 sub hsub), ?_⟩
    · obtain ⟨sub, hsub, hmem⟩ := List.mem_flatMap.mp hv
      exact hf.not_transGen_self v (hf.below_iff.mpr ⟨sub, hsub, (hf.mem_preorder_iff (h.2 sub hsub)).mp hmem⟩)
    · refine (hf.subviews_nodup v).imp_of_mem fun {a b} ha hb hne x hxa hxb ↦ hne ?_
      exact hf.families_disjoint ha hb ((hf.mem_preorder_iff (h.2 a ha)).mp hxa)
        ((hf.mem_preorder_iff (h.2 b hb)).mp hxb)

/-- No view comes before one that it is below. -/
theorem pairwise_preorder (h : f.Fits depth v) : (f.preorder depth v).Pairwise fun x y ↦ ¬ f.Below y x := by
  induction depth generalizing v with
  | zero => exact .nil
  | succ depth ih =>
    have hmem {sub y : View} (hsub : sub ∈ f.subviewsOf v) (hy : y ∈ f.preorder depth sub) : f.InFamily sub y :=
      (hf.mem_preorder_iff (h.2 sub hsub)).mp hy
    rw [preorder, List.pairwise_cons, List.pairwise_flatMap]
    refine ⟨fun y hy hbelow ↦ ?_, fun sub hsub ↦ ih (h.2 sub hsub), ?_⟩
    · obtain ⟨sub, hsub, hy⟩ := List.mem_flatMap.mp hy
      exact hf.not_transGen_self y (hbelow.trans_left (.head ((hf.linked v sub).mpr hsub) (hmem hsub hy)))
    · refine (hf.subviews_nodup v).imp_of_mem fun {a b} ha hb hne x hxa y hyb hbelow ↦ hne ?_
      exact hf.families_disjoint ha hb (hmem ha hxa) ((hmem hb hyb).trans hbelow.to_reflTransGen)

theorem mem_listing_iff (hv : f.contains v = true) : x ∈ f.listing v ↔ f.InFamily v x :=
  hf.mem_preorder_iff (hf.fits hv)

/-- The walk downwards goes by the same order. -/
theorem map_view_descends {stack found : List Placed} (h : f.Descends stack found) :
    found.map Placed.view = stack.flatMap fun p ↦ f.listing p.view := by
  induction h with
  | done => rfl
  | @step p rest found hlive _ ih =>
    have hsubs : (f.placedSubviews p).flatMap (fun q ↦ f.listing q.view) =
        (f.subviewsOf p.view).flatMap f.listing := by
      rw [← map_view_placedSubviews p, List.flatMap_map]
    rw [List.map_cons, ih, List.flatMap_append, hsubs, List.flatMap_cons, hf.listing_eq hlive, List.cons_append]

theorem map_view_family {found : List Placed} (h : f.family v = .ok found) : found.map Placed.view = f.listing v := by
  rw [hf.map_view_descends (hf.family_eq_ok_iff.mp h), List.flatMap_singleton]

end WellFormed

/-- A view with a subview, both with widgets. Both are to be laid out still. -/
def nested : Forest Unit :=
  ((((empty.create .zero).2.create .zero).2.link ⟨1⟩ ⟨2⟩).modify ⟨1⟩ fun node ↦ { node with widget := some () }).modify
    ⟨2⟩ fun node ↦ { node with widget := some () }

theorem wellFormed_nested : nested.WellFormed := by
  have hapart : Reaches empty ((((empty : Forest Unit).create .zero).2.create .zero).2) :=
    ((Reaches.refl empty).step (.create _ .zero)).step (.create _ .zero)
  have hout : ¬ ((((empty : Forest Unit).create .zero).2.create .zero).2).InFamily ⟨2⟩ ⟨1⟩ := by
    rw [inFamily_iff_eq_or_superview]
    rintro (hsame | ⟨p, hp, -⟩)
    · simp at hsame
    · cases hp
  have hlinked : ((((empty : Forest Unit).create .zero).2.create .zero).2.link ⟨1⟩ ⟨2⟩).WellFormed :=
    wellFormed_link (reachable_wellFormed hapart) rfl rfl rfl hout
  have hwidgets : Alike Node.links _ nested :=
    (Alike.modify (fun _ ↦ by rfl) _ ⟨1⟩).trans (Alike.modify (fun _ ↦ by rfl) _ ⟨2⟩)
  exact hwidgets.wellFormed hlinked

example : nested.listing ⟨1⟩ = [⟨1⟩, ⟨2⟩] := rfl

end RetainedUi.Forest
