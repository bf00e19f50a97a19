import RetainedUi.Proofs.Forest.Lookup

/-!
# What the operations leave alone

Each operation that neither creates, links nor frees views changes a few fields of some nodes. What it
leaves alone is said by comparing the nodes with these fields blanked: invalidating changes pending
regions, a request for layout changes marks, and the cached queries change one cache each.

All of them keep the links and the serials, which is what the invariants of the forest depend on.
-/

namespace RetainedUi

variable {W : Type}

namespace Node

def withoutRegion (node : Node W) : Node W := { node with invalidated := none }
def withoutMark (node : Node W) : Node W := { node with needsLayout := false }
def withoutPlace (node : Node W) : Node W := { node.withoutRegion.withoutMark with frame := .zero }
def withoutLeaves (node : Node W) : Node W := { node with leafCache := none }
def withoutAncestors (node : Node W) : Node W := { node with windowCache := none, rootCache := none }

/-- A node without what is noted about painting, about layout and about the views around it. -/
def withoutNotes (node : Node W) : Node W := node.withoutRegion.withoutMark.withoutLeaves.withoutAncestors

/-- The serial of a node and its links in both directions. -/
def links (node : Node W) : Nat × Option View × List View :=
  (node.serial, node.superview, node.subviews)

/-- The links of a node and the leaves it knows. -/
def shape (node : Node W) : (Nat × Option View × List View) × Option (List Placed) :=
  (node.links, node.leafCache)

/-- The window and the root that a node knows. -/
def ancestorCaches (node : Node W) : Option View × Option View := (node.windowCache, node.rootCache)

/-- All that the cached queries look at, and what is known of their answers. -/
def standing (node : Node W) :
    ((Nat × Option View × List View) × Option (List Placed)) × Role × Option View × Option View :=
  (node.shape, node.role, node.ancestorCaches)

/-- The serial of a node, and what is pending there. -/
def due (node : Node W) : Nat × Option Rect := (node.serial, node.invalidated)

theorem links_eq_links_iff {a b : Node W} :
    a.links = b.links ↔ a.serial = b.serial ∧ a.superview = b.superview ∧ a.subviews = b.subviews := by
  simp [links]

end Node

namespace Forest

/-! ## Painting and layout -/

theorem alike_of_invalidateUp {steps : Nat} {f g : Forest W} {v : View} {region : Option Rect}
    (h : invalidateUp steps f v region = .ok g) : Alike Node.withoutRegion f g := by
  induction steps generalizing f v region with
  | zero => simp [invalidateUp] at h
  | succ steps ih =>
    simp only [invalidateUp, bind_eq_ok, read_eq_ok] at h
    obtain ⟨node, -, h⟩ := h
    split at h
    · cases h
      exact Alike.modify (fun _ ↦ by rfl) f v
    · split at h
      · cases h
        exact Alike.modify (fun _ ↦ by rfl) f v
      · exact Alike.of_modify (fun _ ↦ by rfl) (ih h)

theorem alike_of_invalidate {f g : Forest W} {v : View} {region : Option Rect}
    (h : f.invalidate v region = .ok g) : Alike Node.withoutRegion f g :=
  alike_of_invalidateUp h

theorem alike_of_takeInvalidated {f g : Forest W} {v : View} {region : Option Rect}
    (h : f.takeInvalidated v = .ok (region, g)) : Alike Node.withoutRegion f g := by
  simp only [takeInvalidated, bind_eq_ok, read_eq_ok, pure, Except.pure, Except.ok.injEq,
    Prod.mk.injEq] at h
  obtain ⟨node, -, -, rfl⟩ := h
  exact Alike.modify (fun _ ↦ by rfl) f v

theorem alike_of_markStack {steps : Nat} {f g : Forest W} {stack : List View}
    (h : markStack steps f stack = .ok g) : Alike Node.withoutMark f g := by
  induction steps generalizing f stack with
  | zero =>
    cases stack with
    | nil =>
      simp only [markStack, Except.ok.injEq] at h
      exact h ▸ Alike.refl _ f
    | cons v rest => simp [markStack] at h
  | succ steps ih =>
    cases stack with
    | nil =>
      simp only [markStack, Except.ok.injEq] at h
      exact h ▸ Alike.refl _ f
    | cons v rest =>
      simp only [markStack, bind_eq_ok, read_eq_ok] at h
      obtain ⟨node, -, h⟩ := h
      exact Alike.of_modify (fun _ ↦ by rfl) (ih h)

theorem alike_of_requestLayout {f g : Forest W} {v : View} (h : f.requestLayout v = .ok g) :
    Alike Node.withoutMark f g :=
  alike_of_markStack h

/-- The three parts of a change of frame, each of which may leave the forest as it is. -/
theorem setFrame_eq (f : Forest W) (v : View) (frame : Rect) :
    f.setFrame v frame = (do
      let node ← f.read v
      if node.frame == frame then .ok f
      else
        let moved := f.modify v fun node ↦ { node with frame }
        let sized ← bif node.frame.size == frame.size then .ok moved else moved.requestLayout v
        let shown ← node.superview.elim (.ok sized) fun above ↦ sized.invalidate above (some node.frame)
        shown.invalidate v none) := by
  unfold setFrame
  cases f.read v with
  | error halt => rfl
  | ok node =>
    rcases hsize : node.frame.size == frame.size <;> rcases hup : node.superview with _ | above <;>
      simp [bind, Except.bind, hsize, hup, pure, Except.pure]

theorem alike_of_setFrame {f g : Forest W} {v : View} {frame : Rect}
    (h : f.setFrame v frame = .ok g) : Alike Node.withoutPlace f g := by
  simp only [setFrame_eq, bind_eq_ok, read_eq_ok] at h
  obtain ⟨node, -, h⟩ := h
  split at h
  · cases h
    exact Alike.refl _ f
  · obtain ⟨sized, hsized, shown, hshown, h⟩ := by simpa only [bind_eq_ok] using h
    have hmoved : Alike Node.withoutPlace f (f.modify v fun node ↦ { node with frame }) :=
      Alike.modify (fun _ ↦ by rfl) f v
    have hresized : Alike Node.withoutPlace f sized := by
      cases hsame : node.frame.size == frame.size with
      | true =>
        rw [hsame, cond_true, Except.ok.injEq] at hsized
        exact hsized ▸ hmoved
      | false =>
        rw [hsame, cond_false] at hsized
        exact hmoved.trans ((alike_of_requestLayout hsized).map Node.withoutPlace)
    have hpainted : Alike Node.withoutPlace sized shown := by
      cases hup : node.superview with
      | none =>
        rw [hup, Option.elim_none, Except.ok.injEq] at hshown
        exact hshown ▸ Alike.refl _ sized
      | some above =>
        rw [hup, Option.elim_some] at hshown
        exact (alike_of_invalidate hshown).map Node.withoutPlace
    exact hresized.trans (hpainted.trans ((alike_of_invalidate h).map Node.withoutPlace))

/-! ## Caches -/

theorem alike_of_clearLeafCaches {f g : Forest W} {v : View} (h : f.clearLeafCaches v = .ok g) :
    Alike Node.withoutLeaves f g := by
  simp only [clearLeafCaches, bind_eq_ok, pure, Except.pure, Except.ok.injEq] at h
  obtain ⟨lineage, -, rfl⟩ := h
  exact Alike.foldl (fun f above ↦ Alike.modify (fun _ ↦ by rfl) f above) lineage f

theorem alike_of_clearAncestorCaches {f g : Forest W} {v : View}
    (h : f.clearAncestorCaches v = .ok g) : Alike Node.withoutAncestors f g := by
  simp only [clearAncestorCaches, bind_eq_ok, pure, Except.pure, Except.ok.injEq] at h
  obtain ⟨family, -, rfl⟩ := h
  exact Alike.foldl (fun f p ↦ by exact Alike.modify (fun _ ↦ by rfl) f p.view) family f

/-- What follows a changed link concerns nothing but what is noted in the nodes. -/
theorem alike_of_relinked {f g : Forest W} {parent child : View} {frame : Rect}
    (h : f.relinked parent child frame = .ok g) : Alike Node.withoutNotes f g := by
  simp only [relinked, bind_eq_ok] at h
  obtain ⟨cleared, hcleared, unknown, hunknown, painted, hpainted, h⟩ := h
  have hleaves := (alike_of_clearLeafCaches hcleared).map Node.withoutNotes
  have hancestors := (alike_of_clearAncestorCaches hunknown).map Node.withoutNotes
  have hregion := (alike_of_invalidate hpainted).map Node.withoutNotes
  have hmark := (alike_of_requestLayout h).map Node.withoutNotes
  exact hleaves.trans (hancestors.trans (hregion.trans hmark))

theorem alike_of_leafViews {f g : Forest W} {v : View} {leaves : List Placed}
    (h : f.leafViews v = .ok (leaves, g)) : Alike Node.withoutLeaves f g := by
  simp only [leafViews, bind_eq_ok, read_eq_ok] at h
  obtain ⟨node, -, h⟩ := h
  split at h
  · cases h
    exact Alike.refl _ f
  · obtain ⟨fresh, -, h⟩ := bind_eq_ok.mp h
    cases h
    exact Alike.modify (fun _ ↦ by rfl) f v

theorem alike_of_windowOf {f g : Forest W} {v window : View} (h : f.windowOf v = .ok (window, g)) :
    Alike Node.withoutAncestors f g := by
  simp only [windowOf, bind_eq_ok, read_eq_ok] at h
  obtain ⟨node, -, h⟩ := h
  split at h
  · cases h
    exact Alike.refl _ f
  · obtain ⟨found, -, h⟩ := bind_eq_ok.mp h
    cases h
    exact Alike.modify (fun _ ↦ by rfl) f v

theorem alike_of_rootOf {f g : Forest W} {v root : View} (h : f.rootOf v = .ok (root, g)) :
    Alike Node.withoutAncestors f g := by
  simp only [rootOf, bind_eq_ok, read_eq_ok] at h
  obtain ⟨node, -, h⟩ := h
  split at h
  · cases h
    exact Alike.refl _ f
  · obtain ⟨ancestors, -, h⟩ := bind_eq_ok.mp h
    cases h
    exact Alike.modify (fun _ ↦ by rfl) f v

end Forest

end RetainedUi
