import RetainedUi.Proofs.Forest.Attachment

/-!
# Operations on live views have answers

Every operation walks along links, with a bound on its length. In a well-formed forest all views on the
way are live and none is met twice, so the walk ends within the bound. Hence an operation on live views
halts in no well-formed forest.
-/

namespace RetainedUi.Forest

variable {W : Type} {f g : Forest W}

/-! ## Painting and layout -/

theorem Ascends.congr {start : Option View} {chain : List View} (h : f.Ascends start chain)
    (halike : Alike Node.links f g) : g.Ascends start chain := by
  induction h with
  | done => exact .done
  | step hnode _ ih =>
    obtain ⟨other, hother, hlinks⟩ := halike.exists_node? hnode
    rw [Node.links_eq_links_iff] at hlinks
    exact .step hother (hlinks.2.1 ▸ ih)

/-- The invalidation of a view reaches no further than the walk upwards. -/
theorem Ascends.exists_invalidateUp {v : View} {chain : List View} (h : f.Ascends (some v) chain)
    {steps : Nat} (hsteps : chain.length ≤ steps) (region : Option Rect) :
    ∃ g, invalidateUp steps f v region = .ok g := by
  induction steps generalizing f v chain region with
  | zero => cases h with | step => simp at hsteps
  | succ steps ih =>
    cases h with
    | @step v node above hnode habove =>
      simp only [invalidateUp, read_eq_ok.mpr hnode, bind, Except.bind]
      split
      · exact ⟨_, rfl⟩
      · cases hup : node.superview with
        | none => exact ⟨_, rfl⟩
        | some p =>
          exact ih ((hup ▸ habove).congr (Alike.modify (fun _ ↦ by rfl) f v)) (by simpa using hsteps) _

namespace WellFormed

theorem exists_invalidate (hf : f.WellFormed) {v : View} (hv : f.contains v = true)
    (region : Option Rect) : ∃ g, f.invalidate v region = .ok g := by
  obtain ⟨chain, hchain⟩ := hf.exists_ascends hv
  exact hchain.exists_invalidateUp (length_le_size_slots (hchain.nodup hf) hchain.contains) region

/-- Marking what waits on the stack of a walk through a family. The induction is on the number of slots
that are left for views not visited yet, and the links are those of the forest before any mark. -/
theorem exists_markStack (hf : f.WellFormed) {start : View} (hstart : f.contains start = true) (left : Nat)
    {visited stack : List View} (h : f.Frontier start visited stack)
    (hleft : f.slots.size ≤ visited.length + left) {marked : Forest W}
    (hmarked : Alike Node.links f marked) : ∃ g, markStack left marked stack = .ok g := by
  induction left generalizing visited stack marked with
  | zero =>
    cases stack with
    | nil => exact ⟨marked, rfl⟩
    | cons v rest =>
      have hlength := length_le_size_slots h.nodup (h.contains hstart)
      simp only [List.length_append, List.length_cons] at hlength
      omega
  | succ left ih =>
    cases stack with
    | nil => exact ⟨marked, rfl⟩
    | cons v rest =>
      obtain ⟨node, hnode⟩ := contains_iff.mp (h.contains hstart v (by simp))
      obtain ⟨other, hother, hlinks⟩ := hmarked.exists_node? hnode
      have hsubs : other.subviews = f.subviewsOf v := by
        rw [subviewsOf_of_node? hnode]
        exact (Node.links_eq_links_iff.mp hlinks).2.2
      have hnext : Alike Node.links f (marked.modify v fun node ↦ { node with needsLayout := true }) :=
        hmarked.trans (Alike.modify (fun _ ↦ by rfl) marked v)
      have hfewer : f.slots.size ≤ (v :: visited).length + left := by
        simp only [List.length_cons]
        omega
      simp only [markStack, read_eq_ok.mpr hother, bind, Except.bind]
      split
      · exact ih h.skip hfewer hnext
      · exact ih (hsubs ▸ h.visit hf) hfewer hnext

theorem exists_requestLayout (hf : f.WellFormed) {v : View} (hv : f.contains v = true) :
    ∃ g, f.requestLayout v = .ok g :=
  hf.exists_markStack hv f.slots.size (Frontier.initial f v) (by simp) (.refl _ f)

/-! ## Links -/

theorem exists_relinked (hf : f.WellFormed) {parent child : View} (hparent : f.contains parent = true)
    (hchild : f.contains child = true) (frame : Rect) : ∃ g, f.relinked parent child frame = .ok g := by
  obtain ⟨chain, hchain⟩ := hf.exists_ascends hparent
  have hcleared := hf.lineage_eq_ok_iff.mpr hchain
  obtain ⟨cleared, hcleared⟩ : ∃ cleared, f.clearLeafCaches parent = .ok cleared :=
    ⟨_, by simp only [clearLeafCaches, hcleared]; rfl⟩
  have halike := (alike_of_clearLeafCaches hcleared).map Node.links
  have hwell := halike.wellFormed hf
  obtain ⟨family, hfamily, -⟩ := hwell.exists_family (halike.contains child ▸ hchild)
  obtain ⟨unknown, hunknown⟩ : ∃ unknown, cleared.clearAncestorCaches child = .ok unknown :=
    ⟨_, by simp only [clearAncestorCaches, hfamily]; rfl⟩
  have halike' := halike.trans ((alike_of_clearAncestorCaches hunknown).map Node.links)
  obtain ⟨painted, hpainted⟩ :=
    (halike'.wellFormed hf).exists_invalidate (halike'.contains parent ▸ hparent) (some frame)
  have halike'' := halike'.trans ((alike_of_invalidate hpainted).map Node.links)
  obtain ⟨g, hg⟩ := (halike''.wellFormed hf).exists_requestLayout (halike''.contains parent ▸ hparent)
  refine ⟨g, ?_⟩
  simp only [relinked, bind_eq_ok]
  exact ⟨cleared, hcleared, unknown, hunknown, painted, hpainted, hg⟩

/-- A view without superview can be attached below every live view outside its family. -/
theorem exists_addView (hf : f.WellFormed) {parent child : View} (hparent : f.contains parent = true)
    (hchild : f.contains child = true) (hroot : f.superview? child = none)
    (hout : ¬ f.InFamily child parent) : ∃ g, f.addView parent child = .ok (.ok g) := by
  obtain ⟨node, hnode⟩ := contains_iff.mp hchild
  obtain ⟨chain, hchain⟩ := hf.exists_ascends hparent
  have hlineage := hf.lineage_eq_ok_iff.mpr hchain
  have hfree : node.superview.isSome = false := by
    rw [← superview?_of_node? hnode, hroot]
    rfl
  have hcycle : chain.contains child = false := by
    rw [← Bool.not_eq_true, List.contains_iff_mem, hchain.mem_iff]
    rintro ⟨v, hv, hfamily⟩
    cases hv
    exact hout hfamily
  have hlink := wellFormed_link hf hparent hchild hroot hout
  have hparent' : (f.link parent child).contains parent = true := by simpa using hparent
  have hchild' : (f.link parent child).contains child = true := by simpa using hchild
  obtain ⟨g, hg⟩ := hlink.exists_relinked hparent' hchild' node.frame
  refine ⟨g, ?_⟩
  simp only [addView, hparent, hchild, read_eq_ok.mpr hnode, hfree, hlineage, hcycle, bind, Except.bind,
    Bool.not_true, Bool.false_eq_true, if_false]
  rw [show (f.modify child _).modify parent _ = f.link parent child from rfl, hg]
  rfl

theorem exists_removeFromSuperview (hf : f.WellFormed) {v : View} (hv : f.contains v = true) :
    ∃ g, f.removeFromSuperview v = .ok g := by
  obtain ⟨node, hnode⟩ := contains_iff.mp hv
  simp only [removeFromSuperview, read_eq_ok.mpr hnode, bind, Except.bind]
  cases hup : node.superview with
  | none => exact ⟨f, rfl⟩
  | some parent =>
    have hlink : f.superview? v = some parent := (superview?_of_node? hnode).trans hup
    have hparent := hf.contains_superview hlink
    have hparent' : (f.unlink parent v).contains parent = true := by simpa using hparent
    have hv' : (f.unlink parent v).contains v = true := by simpa using hv
    obtain ⟨g, hg⟩ := (wellFormed_unlink hf hlink).exists_relinked hparent' hv' node.frame
    refine ⟨g, ?_⟩
    have hunlink : (f.modify v fun node ↦ { node with superview := none }).update parent
        (fun node ↦ { node with subviews := node.subviews.filter (· != v) }) = .ok (f.unlink parent v) :=
      update_eq_ok.mpr ⟨by simpa using hparent, rfl⟩
    simp only [hunlink]
    exact hg

/-! ## Freeing -/

/-- Freeing what waits on the stack of a walk through a family, whose last subviews are freed first. The
links are those of the forest before any view was freed. -/
theorem exists_freeStack (hf : f.WellFormed) {start : View} (hstart : f.contains start = true) (left : Nat)
    {visited stack : List View} (h : f.Frontier start visited stack)
    (hleft : f.slots.size ≤ visited.length + left) {rest : Forest W}
    (hrest : ∀ w, rest.node? w = if w ∈ visited then none else f.node? w) :
    ∃ g, freeStack left rest stack = .ok g := by
  induction left generalizing visited stack rest with
  | zero =>
    cases stack with
    | nil => exact ⟨rest, rfl⟩
    | cons v stack =>
      have hlength := length_le_size_slots h.nodup (h.contains hstart)
      simp only [List.length_append, List.length_cons] at hlength
      omega
  | succ left ih =>
    cases stack with
    | nil => exact ⟨rest, rfl⟩
    | cons v stack =>
      obtain ⟨node, hnode⟩ := contains_iff.mp (h.contains hstart v (by simp))
      have hfresh : v ∉ visited := (List.nodup_cons.mp (List.perm_middle.nodup_iff.mp h.nodup)).1 ∘
        List.mem_append_left stack
      have hread : rest.node? v = some node := by rw [hrest, if_neg hfresh, hnode]
      have hfree := free_eq_ok.mpr ⟨hread, rfl⟩
      have hnext : f.Frontier start (v :: visited) (node.subviews.reverse ++ stack) := by
        rw [← subviewsOf_of_node? hnode]
        exact (h.visit hf).reorder ((List.reverse_perm _).symm.append_right stack)
      simp only [freeStack, hfree, bind, Except.bind]
      apply ih hnext (by simp only [List.length_cons]; omega)
      intro w
      rw [node?_of_free hfree, hrest]
      by_cases hw : w = v <;> simp [hw]

theorem exists_destroy (hf : f.WellFormed) (v : View) : ∃ g, f.destroy v = .ok g := by
  cases hlive : f.contains v with
  | false => exact ⟨f, by simp [destroy, hlive]; rfl⟩
  | true =>
    obtain ⟨mid, hmid⟩ := hf.exists_removeFromSuperview hlive
    have hwell := wellFormed_removeFromSuperview hf hmid
    have hkept : mid.contains v = true := contains_removeFromSuperview hf hmid v ▸ hlive
    have hwhole : ∀ w, mid.node? w = if w ∈ [] then none else mid.node? w := by simp
    obtain ⟨g, hg⟩ :=
      hwell.exists_freeStack hkept mid.slots.size (Frontier.initial mid v) (by simp) hwhole
    exact ⟨g, by simp [destroy, hlive, hmid, hg, bind, Except.bind]⟩

end WellFormed

end RetainedUi.Forest
