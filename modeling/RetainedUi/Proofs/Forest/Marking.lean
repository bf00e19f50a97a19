import RetainedUi.Proofs.Forest.Placing
import RetainedUi.Proofs.Forest.Preorder

/-!
# How far a request for layout goes

A request for layout goes down from its view. It marks every view that it comes to, but it does not go further down
from one that was marked before. So it comes to a view just if no view on the way there was marked, and all that is
marked elsewhere stays as it was.

The walk comes to no view twice. Hence the marks that it finds are those from before the request, and it takes
exactly as many steps as there are views that it comes to.
-/

namespace RetainedUi.Forest

variable {W : Type} {f g h : Forest W} {v w x : View}

/-- A request for layout at the first view comes to the second one, which is in its family: from the first view down
to the superview of the second one no view is marked. -/
def Spreads (f : Forest W) (v w : View) : Prop :=
  f.InFamily v w ∧ ∀ x, f.InFamily v x → f.Below x w → f.marked x = false

/-- The walk of a request over a stack of views, with the views that it comes to. -/
inductive Marking : Forest W → List View → List View → Forest W → Prop where
  | done (f : Forest W) : Marking f [] [] f
  | visit {f g : Forest W} {v : View} {node : Node W} {rest visited : List View} (hnode : f.node? v = some node)
      (hrest : Marking (f.modify v fun node ↦ { node with needsLayout := true })
        (if node.needsLayout then rest else node.subviews ++ rest) visited g) :
      Marking f (v :: rest) (v :: visited) g

/-! ## Views on the way -/

/-- A request comes to the view itself, and if that view has no mark, to all that it comes to from a subview. -/
theorem WellFormed.spreads_iff (hf : f.WellFormed) :
    f.Spreads v w ↔ w = v ∨ f.marked v = false ∧ ∃ sub ∈ f.subviewsOf v, f.Spreads sub w := by
  constructor
  · rintro ⟨hfamily, hclean⟩
    rcases (inFamily_iff_eq_or_subview hf).mp hfamily with rfl | ⟨sub, hsub, hbelow⟩
    · exact .inl rfl
    · have hlink : f.Above v sub := (hf.linked v sub).mpr hsub
      refine .inr ⟨hclean v .refl (.head' hlink hbelow), sub, hsub, hbelow, fun x hx ↦ ?_⟩
      exact hclean x (.head hlink hx)
  · rintro (rfl | ⟨hmark, sub, hsub, hbelow, hclean⟩)
    · refine ⟨.refl, fun x hx hxw ↦ ?_⟩
      exact (hf.not_transGen_self x (hxw.trans_left hx)).elim
    · have hlink : f.Above v sub := (hf.linked v sub).mpr hsub
      refine ⟨.head hlink hbelow, fun x hx hxw ↦ ?_⟩
      rcases (inFamily_iff_eq_or_subview hf).mp hx with rfl | ⟨other, hother, hx⟩
      · exact hmark
      · have hsame : other = sub := hf.families_disjoint hother hsub (hx.trans hxw.to_reflTransGen) hbelow
        exact hclean x (hsame ▸ hx) hxw

/-- Where nothing is marked, a request comes to the whole family. -/
theorem spreads_of_clean (hclean : ∀ x, f.InFamily v x → f.marked x = false) (hw : f.InFamily v w) : f.Spreads v w :=
  ⟨hw, fun x hx _ ↦ hclean x hx⟩

/-! ## The walk -/

theorem markStack_eq_ok_iff {steps : Nat} {stack : List View} :
    markStack steps f stack = .ok g ↔ ∃ visited, Marking f stack visited g ∧ visited.length ≤ steps := by
  induction steps generalizing f stack with
  | zero =>
    cases stack with
    | nil =>
      constructor
      · rintro ⟨⟩
        exact ⟨[], .done _, le_rfl⟩
      · rintro ⟨visited, ⟨⟩, -⟩
        rfl
    | cons v rest =>
      constructor
      · rintro ⟨⟩
      · rintro ⟨visited, ⟨⟩, hlength⟩
        cases hlength
  | succ steps ih =>
    cases stack with
    | nil =>
      constructor
      · rintro ⟨⟩
        exact ⟨[], .done _, Nat.zero_le _⟩
      · rintro ⟨visited, ⟨⟩, -⟩
        rfl
    | cons v rest =>
      simp only [markStack, bind_eq_ok, read_eq_ok, ih]
      constructor
      · rintro ⟨node, hnode, visited, hrest, hlength⟩
        exact ⟨v :: visited, .visit hnode hrest, Nat.succ_le_succ hlength⟩
      · rintro ⟨_, hvisit, hlength⟩
        cases hvisit with
        | visit hnode hrest => exact ⟨_, hnode, _, hrest, Nat.le_of_succ_le_succ hlength⟩

namespace Marking

variable {stack visited : List View}

theorem unique (hwalk : Marking f stack visited g) {other : List View} (hother : Marking f stack other h) :
    visited = other ∧ g = h := by
  induction hwalk generalizing other with
  | done =>
    cases hother
    exact ⟨rfl, rfl⟩
  | visit hnode _ ih =>
    cases hother with
    | visit hnode' hrest =>
      cases hnode.symm.trans hnode'
      obtain ⟨rfl, rfl⟩ := ih hrest
      exact ⟨rfl, rfl⟩

/-- Marked afterwards is what was marked before, and all that the walk comes to. -/
theorem marked_iff (hwalk : Marking f stack visited g) (w : View) :
    g.marked w = true ↔ f.marked w = true ∨ w ∈ visited := by
  induction hwalk with
  | done => simp
  | @visit f g v node rest visited hnode _ ih =>
    have hlive : f.contains v = true := contains_iff.mpr ⟨node, hnode⟩
    rw [ih, marked_of_mark, hlive, Bool.and_true, Bool.or_eq_true, decide_eq_true_iff, List.mem_cons, or_assoc]

theorem scaleFactor_eq (hwalk : Marking f stack visited g) : g.scaleFactor = f.scaleFactor := by
  induction hwalk with
  | done => rfl
  | visit _ _ ih => exact ih.trans (scaleFactor_modify ..)

/-- The walk finds the marks from before the request at all views where it has not been yet, so it goes to the views
that the request comes to, and to no view twice. -/
theorem spreads (hf : f.WellFormed) {start : View} {been : List View} (hwalk : Marking h stack visited g)
    (hfront : f.Frontier start been stack) (hlinks : Alike Node.links f h)
    (hmarks : ∀ x ∉ been, h.marked x = f.marked x) :
    (been ++ visited).Nodup ∧ ∀ w, w ∈ visited ↔ ∃ u ∈ stack, f.Spreads u w := by
  induction hwalk generalizing been with
  | done => exact ⟨hfront.nodup, by simp⟩
  | @visit h g v node rest visited hnode _ ih =>
    have hfresh : v ∉ been := (List.nodup_cons.mp (List.perm_middle.nodup_iff.mp hfront.nodup)).1 ∘
      List.mem_append_left rest
    have hmark : node.needsLayout = f.marked v := (marked_of_node? hnode).symm.trans (hmarks v hfresh)
    have hsubs : node.subviews = f.subviewsOf v := by rw [hlinks.subviewsOf, subviewsOf_of_node? hnode]
    have hnext : f.Frontier start (v :: been) (if node.needsLayout then rest else node.subviews ++ rest) := by
      split
      · exact hfront.skip
      · exact hsubs ▸ hfront.visit hf
    obtain ⟨hnodup, hmem⟩ := ih hnext (hlinks.trans (.modify (fun _ ↦ by rfl) h v)) fun x hx ↦ by
      rw [List.mem_cons, not_or] at hx
      rw [marked_modify_of_ne hx.1, hmarks x hx.2]
    refine ⟨List.perm_middle.nodup_iff.mpr hnodup, fun w ↦ ?_⟩
    rw [List.mem_cons, hmem, List.exists_mem_cons_iff, hf.spreads_iff, ← hmark, ← hsubs]
    cases node.needsLayout with
    | true => simp
    | false => simp [or_and_right, exists_or, or_assoc]

end Marking

/-- A request for layout marks its view and every view below for which no view on the way was marked. Nothing else is
changed. The walk comes to each of these views once and to no other view, and that is all the steps it takes. -/
theorem requestLayout_spreads (hf : f.WellFormed) (hv : f.contains v = true) :
    ∃ g visited, f.requestLayout v = .ok g ∧
      (∀ w, g.marked w = true ↔ f.marked w = true ∨ f.Spreads v w) ∧
      Alike Node.withoutMark f g ∧ g.scaleFactor = f.scaleFactor ∧
      ((∀ x, f.InFamily v x → f.marked x = false) → ∀ w, f.InFamily v w → g.marked w = true) ∧
      Marking f [v] visited g ∧ visited.Nodup ∧ (∀ w, w ∈ visited ↔ f.Spreads v w) ∧
      ∀ steps, (∃ h, markStack steps f [v] = .ok h) ↔ visited.length ≤ steps := by
  obtain ⟨g, hg⟩ := hf.exists_requestLayout hv
  obtain ⟨visited, hwalk, -⟩ := markStack_eq_ok_iff.mp hg
  obtain ⟨hnodup, hmem⟩ := hwalk.spreads hf (Frontier.initial f v) (.refl _ f) fun _ _ ↦ rfl
  rw [List.nil_append] at hnodup
  replace hmem (w : View) : w ∈ visited ↔ f.Spreads v w := by simpa using hmem w
  have hmarked (w : View) : g.marked w = true ↔ f.marked w = true ∨ f.Spreads v w :=
    (hwalk.marked_iff w).trans (or_congr_right (hmem w))
  refine ⟨g, visited, hg, hmarked, alike_of_requestLayout hg, hwalk.scaleFactor_eq, ?_, hwalk, hnodup, hmem, ?_⟩
  · intro hclean w hw
    exact (hmarked w).mpr (.inr (spreads_of_clean hclean hw))
  · intro steps
    constructor
    · rintro ⟨h, hsteps⟩
      obtain ⟨other, hother, hlength⟩ := markStack_eq_ok_iff.mp hsteps
      exact (hwalk.unique hother).1 ▸ hlength
    · intro hlength
      exact ⟨g, markStack_eq_ok_iff.mpr ⟨visited, hwalk, hlength⟩⟩

/-- Views lose their marks. -/
def unmarked (f : Forest W) (views : List View) : Forest W :=
  views.foldl (fun f v ↦ f.modify v Node.withoutMark) f

theorem alike_unmarked (f : Forest W) (views : List View) : Alike Node.links f (f.unmarked views) :=
  .foldl (fun f v ↦ .modify (fun _ ↦ by rfl) f v) views f

/-- The subview with subviews of its own is marked, and so is the last one. The request does not come to the two clean
views below the former. -/
theorem requestLayout_spreads_mixed : ∃ f g : Forest Unit, f.WellFormed ∧ f.contains ⟨1⟩ = true ∧
    f.listing ⟨1⟩ = [⟨1⟩, ⟨2⟩, ⟨3⟩, ⟨5⟩, ⟨6⟩, ⟨4⟩] ∧
      (f.listing ⟨1⟩).map f.marked = [false, false, true, false, false, true] ∧ f.requestLayout ⟨1⟩ = .ok g ∧
        (f.listing ⟨1⟩).map g.marked = [true, true, true, false, false, true] ∧
          f.Spreads ⟨1⟩ ⟨2⟩ ∧ ¬ f.Spreads ⟨1⟩ ⟨5⟩ := by
  let f : Forest Unit := branched.unmarked [⟨1⟩, ⟨2⟩, ⟨5⟩, ⟨6⟩]
  have hf : f.WellFormed := (alike_unmarked _ _).wellFormed (reachable_wellFormed reaches_branched)
  have hv : f.contains ⟨1⟩ = true := by decide +kernel
  have hlisting : f.listing ⟨1⟩ = [⟨1⟩, ⟨2⟩, ⟨3⟩, ⟨5⟩, ⟨6⟩, ⟨4⟩] := by decide +kernel
  have hbefore : (f.listing ⟨1⟩).map f.marked = [false, false, true, false, false, true] := by decide +kernel
  have hafter : (f.requestLayout ⟨1⟩).map (fun g ↦ (f.listing ⟨1⟩).map g.marked) =
      .ok [true, true, true, false, false, true] := by decide +kernel
  clear_value f
  obtain ⟨g, visited, hg, hmarked, -⟩ := requestLayout_spreads hf hv
  rw [hg] at hafter
  have hmarks : (f.listing ⟨1⟩).map g.marked = [true, true, true, false, false, true] := Except.ok.inj hafter
  refine ⟨f, g, hf, hv, hlisting, hbefore, hg, hmarks, ?_⟩
  rw [hlisting] at hbefore hmarks
  simp only [List.map_cons, List.cons.injEq] at hbefore hmarks
  constructor
  · exact ((hmarked ⟨2⟩).mp hmarks.2.1).resolve_left (by simp [hbefore.2.1])
  · intro hspreads
    cases hmarks.2.2.2.1.symm.trans ((hmarked ⟨5⟩).mpr (.inr hspreads))

end RetainedUi.Forest
