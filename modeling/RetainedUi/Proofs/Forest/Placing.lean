import RetainedUi.Proofs.Forest.Answers
import RetainedUi.Proofs.Forest.Settling

/-!
# Layouts that place subviews

A layout that only gives frames to the subviews of its view sets marks, and takes none away: a subview that gets a
new size is marked, together with everything below it. All that such a layout calls for can be done, since the
subviews of a live view are live.
-/

namespace RetainedUi

variable {W A : Type}

/-- Gives frames to views, one after the other. -/
def Grove.place (calls : List (View × Rect)) : Pass (Grove W A) PUnit :=
  calls.forM fun call ↦ Grove.change fun f ↦ f.setFrame call.1 call.2

/-- Layouts that do no more than to give frames to subviews of their own view. What they do depends on the whole
forest and on whatever the widgets share. -/
def LayoutConduct.Placing (conduct : LayoutConduct W A) : Prop :=
  ∀ widget layout, conduct widget = some layout → ∀ v s, ∃ calls widget' ambient,
    (∀ call ∈ calls, call.1 ∈ s.forest.subviewsOf v) ∧
      layout v s = (Grove.place calls >>= fun _ ↦ pure widget') { s with ambient }

namespace Forest

variable {f g : Forest W} {v sub : View}

/-! ## Marks are kept -/

theorem marked_of_mark (f : Forest W) (v w : View) :
    (f.modify v fun node ↦ { node with needsLayout := true }).marked w =
      (f.marked w || (decide (w = v) && f.contains v)) := by
  unfold marked contains
  rw [node?_modify]
  by_cases hw : w = v
  · subst hw
    cases f.node? w <;> simp
  · simp [hw]

theorem marked_of_markStack {steps : Nat} {stack : List View} (h : markStack steps f stack = .ok g) :
    (∀ w, f.marked w = true → g.marked w = true) ∧ ∀ v ∈ stack, g.marked v = true := by
  induction steps generalizing f stack with
  | zero =>
    cases stack with
    | nil =>
      cases h
      exact ⟨fun _ ↦ id, by simp⟩
    | cons v rest => cases h
  | succ steps ih =>
    cases stack with
    | nil =>
      cases h
      exact ⟨fun _ ↦ id, by simp⟩
    | cons v rest =>
      simp only [markStack, bind_eq_ok, read_eq_ok] at h
      obtain ⟨node, hnode, h⟩ := h
      obtain ⟨hkept, hstack⟩ := ih h
      have hlive : f.contains v = true := contains_iff.mpr ⟨node, hnode⟩
      refine ⟨fun w hw ↦ hkept w ?_, List.forall_mem_cons.mpr ⟨hkept v ?_, fun w hw ↦ hstack w ?_⟩⟩
      · rw [marked_of_mark, hw, Bool.true_or]
      · rw [marked_of_mark, hlive]
        simp
      · split
        · exact hw
        · exact List.mem_append_right _ hw

/-- A request for layout marks its view. -/
theorem marked_of_requestLayout (h : f.requestLayout v = .ok g) :
    (∀ w, f.marked w = true → g.marked w = true) ∧ g.marked v = true :=
  (marked_of_markStack h).imp id fun hstack ↦ hstack v (List.mem_singleton_self v)

/-- A new frame takes no mark away, and a new size marks the view. -/
theorem marked_of_setFrame {frame : Rect} {node : Node W} (hnode : f.node? v = some node)
    (h : f.setFrame v frame = .ok g) : (∀ w, f.marked w = true → g.marked w = true) ∧
      ((node.frame.size == frame.size) = false → g.marked v = true) := by
  simp only [setFrame_eq, bind_eq_ok, read_eq_ok] at h
  obtain ⟨found, hfound, h⟩ := h
  obtain rfl : node = found := Option.some.inj (hnode.symm.trans hfound)
  split at h
  · cases h
    refine ⟨fun _ ↦ id, fun hsize ↦ ?_⟩
    have hsame : (node.frame.origin == frame.origin && node.frame.size == frame.size) = true := ‹_›
    rw [hsize, Bool.and_false] at hsame
    cases hsame
  · obtain ⟨sized, hsized, shown, hshown, h⟩ := by simpa only [bind_eq_ok] using h
    have hmoved (w : View) : (f.modify v fun node ↦ { node with frame }).marked w = f.marked w :=
      (Alike.modify (fun _ ↦ by rfl) f v).marked w
    -- The view and its superview are painted again, which concerns no mark.
    have hpainted (w : View) : g.marked w = sized.marked w := by
      refine (((alike_of_invalidate h).map Node.needsLayout).marked w).trans ?_
      cases hup : node.superview with
      | none =>
        rw [hup, Option.elim_none, Except.ok.injEq] at hshown
        rw [hshown]
      | some above =>
        rw [hup, Option.elim_some] at hshown
        exact ((alike_of_invalidate hshown).map Node.needsLayout).marked w
    cases hsize : node.frame.size == frame.size with
    | true =>
      rw [hsize, cond_true, Except.ok.injEq] at hsized
      subst hsized
      exact ⟨fun w hw ↦ by rw [hpainted, hmoved, hw], fun hother ↦ by cases hother⟩
    | false =>
      rw [hsize, cond_false] at hsized
      obtain ⟨hkept, hself⟩ := marked_of_requestLayout hsized
      exact ⟨fun w hw ↦ by rw [hpainted, hkept w (by rw [hmoved, hw])], fun _ ↦ by rw [hpainted, hself]⟩

/-! ## Placing subviews -/

theorem WellFormed.exists_setFrame (hf : f.WellFormed) (hv : f.contains v = true) (frame : Rect) :
    ∃ g, f.setFrame v frame = .ok g := by
  obtain ⟨node, hnode⟩ := contains_iff.mp hv
  by_cases hsame : (node.frame == frame) = true
  · exact ⟨f, by rw [setFrame_eq, read_eq_ok.mpr hnode]; exact if_pos hsame⟩
  let moved : Forest W := f.modify v fun node ↦ { node with frame }
  have hmoved : Alike Node.links f moved := .modify (fun _ ↦ by rfl) f v
  obtain ⟨sized, hsized, hresized⟩ : ∃ sized, (bif node.frame.size == frame.size then Except.ok moved
      else moved.requestLayout v) = .ok sized ∧ Alike Node.links f sized := by
    cases node.frame.size == frame.size with
    | true => exact ⟨moved, rfl, hmoved⟩
    | false =>
      obtain ⟨sized, hsized⟩ := (hmoved.wellFormed hf).exists_requestLayout (hmoved.contains v ▸ hv)
      exact ⟨sized, hsized, hmoved.trans ((alike_of_requestLayout hsized).map Node.links)⟩
  obtain ⟨shown, hshown, hpainted⟩ : ∃ shown, node.superview.elim (.ok sized)
      (fun above ↦ sized.invalidate above (some node.frame)) = .ok shown ∧ Alike Node.links f shown := by
    cases hup : node.superview with
    | none => exact ⟨sized, rfl, hresized⟩
    | some above =>
      have habove : f.contains above = true := hf.contains_superview ((superview?_of_node? hnode).trans hup)
      obtain ⟨shown, hshown⟩ :=
        (hresized.wellFormed hf).exists_invalidate (hresized.contains above ▸ habove) (some node.frame)
      exact ⟨shown, hshown, hresized.trans ((alike_of_invalidate hshown).map Node.links)⟩
  obtain ⟨g, hg⟩ := (hpainted.wellFormed hf).exists_invalidate (hpainted.contains v ▸ hv) none
  refine ⟨g, ?_⟩
  rw [setFrame_eq, bind_eq_ok]
  refine ⟨node, read_eq_ok.mpr hnode, (if_neg hsame).trans ?_⟩
  exact bind_eq_ok.mpr ⟨sized, hsized, bind_eq_ok.mpr ⟨shown, hshown, hg⟩⟩

/-- Whatever a new frame keeps is kept by a view that arranges its subviews. -/
theorem Arranges.carries {R : Forest W → Forest W → Prop} [IsPreorder (Forest W) R]
    (hstep : ∀ {f g : Forest W} {sub : View} {frame : Rect}, f.setFrame sub frame = .ok g → R f g)
    (h : Arranges v f g) : R f g := by
  induction h with
  | refl => exact refl_of R f
  | tail _ hlast ih =>
    obtain ⟨sub, -, frame, hframe⟩ := hlast
    exact trans_of R ih (hstep hframe)

theorem Arranges.links (h : Arranges v f g) : Alike Node.links f g :=
  h.carries fun hframe ↦ (alike_of_setFrame hframe).map Node.links

theorem Arranges.widgets (h : Arranges v f g) : Alike Node.widget f g :=
  h.carries fun hframe ↦ (alike_of_setFrame hframe).map Node.widget

theorem Arranges.marked {w : View} (h : Arranges v f g) (hw : f.marked w = true) : g.marked w = true := by
  induction h with
  | refl => exact hw
  | tail _ hlast ih =>
    obtain ⟨sub, -, frame, hframe⟩ := hlast
    obtain ⟨node, hnode, -⟩ := bind_eq_ok.mp hframe
    exact (marked_of_setFrame (read_eq_ok.mp hnode) hframe).1 w ih

/-- On a way from the first forest to the second that gives frames to the subviews of a view, one of them gets a new
size. The two forests do not tell which way was taken, so every way between them counts. -/
inductive Resizes (v sub : View) (f g : Forest W) : Prop where
  | intro {before after : Forest W} {node : Node W} {frame : Rect} (hbefore : Arranges v f before)
      (hsub : sub ∈ before.subviewsOf v) (hnode : before.node? sub = some node)
      (hsize : (node.frame.size == frame.size) = false) (hframe : before.setFrame sub frame = .ok after)
      (hafter : Arranges v after g)

/-- A subview that gets a new size is marked afterwards, whatever else happens to it. -/
theorem Resizes.marked (h : Resizes v sub f g) : sub ∈ f.subviewsOf v ∧ g.marked sub = true := by
  obtain ⟨hbefore, hsub, hnode, hsize, hframe, hafter⟩ := h
  exact ⟨hbefore.links.subviewsOf v ▸ hsub, hafter.marked ((marked_of_setFrame hnode hframe).2 hsize)⟩

variable {calls : List (View × Rect)} {s : Grove W A}

theorem arranges_place (hcalls : ∀ call ∈ calls, call.1 ∈ s.forest.subviewsOf v) :
    Arranges v s.forest (Pass.final (Grove.place calls s)).forest := by
  induction calls generalizing s with
  | nil => exact .refl
  | cons call calls ih =>
    obtain ⟨hcall, hcalls⟩ := List.forall_mem_cons.mp hcalls
    cases hframe : s.forest.setFrame call.1 call.2 with
    | error halt =>
      have hhalts : Grove.place (call :: calls) s = .error halt s := by
        change EStateM.bind (Grove.change fun f ↦ f.setFrame call.1 call.2) _ s = _
        rw [EStateM.bind, Grove.change, hframe]
      rw [hhalts]
      exact .refl
    | ok forest =>
      have hfirst : Grove.change (fun f ↦ f.setFrame call.1 call.2) s = .ok () { s with forest } := by
        rw [Grove.change, hframe]
      have hlinks : Alike Node.links s.forest forest := (alike_of_setFrame hframe).map Node.links
      have hrest : Grove.place (call :: calls) s = Grove.place calls { s with forest } := Pass.bind_of_ok hfirst
      rw [hrest]
      refine Relation.ReflTransGen.head ⟨call.1, hcall, call.2, hframe⟩ (ih (s := { s with forest }) ?_)
      exact fun other hother ↦ hlinks.subviewsOf v ▸ hcalls other hother

/-- Frames can be given to the subviews of every view. -/
theorem WellFormed.exists_place (hf : s.forest.WellFormed)
    (hcalls : ∀ call ∈ calls, call.1 ∈ s.forest.subviewsOf v) :
    ∃ forest, Grove.place calls s = .ok ⟨⟩ { s with forest } := by
  induction calls generalizing s with
  | nil => exact ⟨s.forest, rfl⟩
  | cons call calls ih =>
    obtain ⟨hcall, hcalls⟩ := List.forall_mem_cons.mp hcalls
    obtain ⟨forest, hframe⟩ := hf.exists_setFrame (hf.contains_subview hcall) call.2
    have hlinks : Alike Node.links s.forest forest := (alike_of_setFrame hframe).map Node.links
    obtain ⟨last, hrest⟩ := ih (s := { s with forest }) (hlinks.wellFormed hf)
      fun other hother ↦ hlinks.subviewsOf v ▸ hcalls other hother
    exact ⟨last, Pass.bind_eq_ok.mpr ⟨(), _, Grove.change_eq_ok.mpr ⟨forest, hframe, rfl⟩, hrest⟩⟩

end Forest

namespace LayoutConduct.Placing

variable {conduct : LayoutConduct W A} (h : conduct.Placing)
include h

theorem arranging : Forest.Arranging conduct := by
  intro widget layout hlayout v s
  obtain ⟨calls, widget', ambient, hcalls, hrun⟩ := h widget layout hlayout v s
  rw [hrun, Pass.final_bind_pure]
  exact Forest.arranges_place (s := { s with ambient }) hcalls

/-- Such a layout comes to its end. -/
theorem exists_ok {widget : W} {layout : View → Pass (Grove W A) W} (hlayout : conduct widget = some layout) (v : View)
    {s : Grove W A} (hf : s.forest.WellFormed) :
    ∃ widget' t, layout v s = .ok widget' t ∧ Forest.Arranges v s.forest t.forest := by
  obtain ⟨calls, widget', ambient, hcalls, hrun⟩ := h widget layout hlayout v s
  obtain ⟨forest, hplace⟩ := hf.exists_place (s := { s with ambient }) hcalls
  have harranges := h.arranging widget layout hlayout v s
  rw [Pass.bind_of_ok hplace] at hrun
  rw [hrun] at harranges
  exact ⟨widget', _, hrun, harranges⟩

end LayoutConduct.Placing

end RetainedUi
