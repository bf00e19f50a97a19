import RetainedUi.Proofs.Forest.Answers
import RetainedUi.Proofs.Forest.Reachable

/-!
# What is left after a view is destroyed

A view that is destroyed is detached and then freed with everything below it. Detaching comes first, so no view
that is left points at a view that is freed, and no link has to change but the one above the destroyed view. Of
every other view that is freed the superview is freed as well, and before it, so each slot is emptied once.

Views are counted by the slots they occupy. The first slot is occupied as well but holds no view.
-/

namespace RetainedUi

variable {W : Type}

/-- A node with a view taken from the list of its subviews. The others keep their order. -/
def Node.withoutSubview (node : Node W) (v : View) : Node W :=
  { node with subviews := node.subviews.filter (· != v) }

theorem Node.withoutSubview_of_not_mem {node : Node W} {v : View} (h : v ∉ node.subviews) :
    node.withoutSubview v = node := by
  have hkept : node.subviews.filter (· != v) = node.subviews := by
    apply List.filter_eq_self.mpr
    intro sub hsub
    exact bne_iff_ne.mpr fun heq ↦ h (heq ▸ hsub)
  unfold Node.withoutSubview
  rw [hkept]

namespace Forest

variable {f g : Forest W} {v w parent : View}

/-! ## Counting views -/

/-- The views of a forest in the order of their slots. -/
def views (f : Forest W) : List View := ((List.range f.slots.size).map View.mk).filter f.contains

theorem mem_views_iff : v ∈ f.views ↔ f.contains v = true := by
  unfold views
  rw [List.mem_filter, and_iff_right_iff_imp]
  intro hlive
  apply List.mem_map.mpr
  exact ⟨v.index, List.mem_range.mpr (index_lt_size_slots hlive), rfl⟩

theorem nodup_views (f : Forest W) : f.views.Nodup := by
  apply List.Nodup.filter
  apply List.nodup_range.map
  exact fun _ _ h ↦ congrArg View.index h

/-- Whether a slot holds a node. -/
def occupied (f : Forest W) (slot : Nat) : Bool := (f.slots[slot]?).join.isSome

theorem contains_zero (f : Forest W) : f.contains ⟨0⟩ = false := by
  simp [Forest.contains, node?]

theorem contains_succ (f : Forest W) (slot : Nat) : f.contains ⟨slot + 1⟩ = f.occupied (slot + 1) := by
  simp [Forest.contains, node?, occupied]

theorem countP_slots (f : Forest W) :
    f.slots.countP Option.isSome = (List.range f.slots.size).countP f.occupied := by
  have hslots : f.slots.toList = (List.range f.slots.size).map fun slot ↦ (f.slots[slot]?).join := by
    apply List.ext_getElem
    · simp
    · intro slot hslot hrange
      have hbound : slot < f.slots.size := by simpa using hslot
      simp [hbound]
  rw [← Array.countP_toList, hslots, List.countP_map]
  rfl

/-- The size of a forest is the number of its views. -/
theorem WellFormed.size_eq (hf : f.WellFormed) : f.size = f.views.length := by
  obtain ⟨dummy, hdummy, -⟩ := hf.dummy
  obtain ⟨last, hlast⟩ := Nat.exists_eq_succ_of_ne_zero hf.size_slots_ne_zero
  have hzero : f.occupied 0 = true := by simp [occupied, hdummy]
  have hrange : List.range f.slots.size = 0 :: (List.range last).map Nat.succ := by
    rw [hlast, List.range_succ_eq_map]
  calc
    f.size = (List.range f.slots.size).countP f.occupied - 1 := by rw [size, countP_slots]
    _ = (List.range last).countP fun slot ↦ f.occupied (slot + 1) := by
      rw [hrange, List.countP_cons_of_pos hzero, List.countP_map, Nat.add_sub_cancel]
      rfl
    _ = (List.range last).countP fun slot ↦ f.contains ⟨slot + 1⟩ := by simp only [contains_succ]
    _ = (List.range f.slots.size).countP fun slot ↦ f.contains ⟨slot⟩ := by
      rw [hrange, List.countP_cons_of_neg (by simp [contains_zero]), List.countP_map]
      rfl
    _ = f.views.length := by
      rw [views, ← List.countP_eq_length_filter, List.countP_map]
      rfl

/-- The views of a forest are those that were freed and those that are left. -/
theorem perm_views {freed : List View} (hnodup : freed.Nodup)
    (hleft : ∀ w, g.contains w = true ↔ f.contains w = true ∧ w ∉ freed)
    (hlive : ∀ w ∈ freed, f.contains w = true) : f.views.Perm (freed ++ g.views) := by
  have hapart : freed.Disjoint g.views := by
    intro w hfreed hw
    exact ((hleft w).mp (mem_views_iff.mp hw)).2 hfreed
  apply (List.perm_ext_iff_of_nodup (nodup_views f) (hnodup.append (nodup_views g) hapart)).mpr
  intro w
  rw [List.mem_append, mem_views_iff, mem_views_iff, hleft]
  constructor
  · intro hw
    by_cases hfreed : w ∈ freed
    · exact .inl hfreed
    · exact .inr ⟨hw, hfreed⟩
  · rintro (hfreed | ⟨hw, -⟩)
    · exact hlive w hfreed
    · exact hw

/-! ## Detaching -/

theorem WellFormed.node?_unlink (hf : f.WellFormed) (hup : f.superview? v = some parent) (hne : w ≠ v)
    {node : Node W} (hnode : f.node? w = some node) :
    (f.unlink parent v).node? w = some (node.withoutSubview v) := by
  have hkept : (f.modify v fun node ↦ { node with superview := none }).node? w = some node := by
    rw [node?_modify_of_ne hne, hnode]
  by_cases hparent : w = parent
  · subst hparent
    exact node?_modify_self hkept _
  · have hunlisted : v ∉ node.subviews := by
      rw [← subviewsOf_of_node? hnode, ← hf.linked, hup]
      simpa using Ne.symm hparent
    rw [unlink, node?_modify_of_ne hparent, hkept, Node.withoutSubview_of_not_mem hunlisted]

/-- A detachment takes the view out of all lists of subviews. Nothing else is changed in the node of another
view but what is noted there. -/
theorem WellFormed.node?_removeFromSuperview (hf : f.WellFormed) (h : f.removeFromSuperview v = .ok g)
    (hne : w ≠ v) {node : Node W} (hnode : f.node? w = some node) :
    ∃ left, g.node? w = some left ∧ left.withoutNotes = (node.withoutSubview v).withoutNotes := by
  rcases (removeFromSuperview_eq_ok h).2 with ⟨hroot, rfl⟩ | ⟨parent, hup, frame, hg⟩
  · have hunlisted : v ∉ node.subviews := by
      rw [← subviewsOf_of_node? hnode, ← hf.linked, hroot]
      simp
    exact ⟨node, hnode, by rw [Node.withoutSubview_of_not_mem hunlisted]⟩
  · exact (alike_of_relinked hg).exists_node? (hf.node?_unlink hup hne hnode)

theorem vacant_removeFromSuperview (h : f.removeFromSuperview v = .ok g) : g.vacant = f.vacant := by
  rcases (removeFromSuperview_eq_ok h).2 with ⟨-, rfl⟩ | ⟨parent, -, frame, hg⟩
  · rfl
  · rw [← (alike_of_relinked hg).vacant]
    simp [unlink]

/-- The family of a view is the same after the view is detached. -/
theorem WellFormed.inFamily_removeFromSuperview (hf : f.WellFormed) (h : f.removeFromSuperview v = .ok g)
    (x : View) : g.InFamily v x ↔ f.InFamily v x := by
  rcases (removeFromSuperview_eq_ok h).2 with ⟨-, rfl⟩ | ⟨parent, hup, frame, hg⟩
  · exact Iff.rfl
  · rw [← (relinks_of_relinked (wellFormed_unlink hf hup) hg).alike.inFamily, inFamily_unlink hf hup]

/-! ## Destroying -/

theorem Freed.contains_iff {freed : List View} (h : Freed f freed g) (w : View) :
    g.contains w = true ↔ f.contains w = true ∧ w ∉ freed := by
  unfold Forest.contains
  rw [h.node?]
  by_cases hw : w ∈ freed <;> simp [hw]

/-- What is left of a forest after a live view was destroyed, and the views that were freed, in this order. -/
structure Destroyed (f : Forest W) (v : View) (freed : List View) (g : Forest W) : Prop where
  nodup : freed.Nodup
  mem_iff : ∀ x, x ∈ freed ↔ f.InFamily v x
  /-- Each freed slot was put back once, the last one in front. -/
  vacant : g.vacant = (freed.map View.index).reverse ++ f.vacant
  contains_iff : ∀ w, g.contains w = true ↔ f.contains w = true ∧ ¬ f.InFamily v w
  size_add_length : g.size + freed.length = f.size
  /-- A view that is left keeps its frame, tag, role, serial, widget and links, but for its subview that is gone. -/
  kept : ∀ w node, f.node? w = some node → ¬ f.InFamily v w → f.superview? v ≠ some w →
    ∃ left, g.node? w = some left ∧ left.withoutNotes = node.withoutNotes
  /-- The former superview keeps all but the subview that is gone. -/
  superview : ∀ w node, f.node? w = some node → f.superview? v = some w →
    ∃ left, g.node? w = some left ∧ left.withoutNotes = (node.withoutSubview v).withoutNotes

theorem WellFormed.exists_destroyed (hf : f.WellFormed) (hv : f.contains v = true) :
    ∃ g freed, f.destroy v = .ok g ∧ Destroyed f v freed g := by
  obtain ⟨g, hg⟩ := hf.exists_destroy v
  rcases destroy_eq_ok hf hg with ⟨hdead, -⟩ | ⟨mid, freed, hmid, hwell, -, hfreed, hmem⟩
  · rw [hv] at hdead
    cases hdead
  have hfamily (x : View) : x ∈ freed ↔ f.InFamily v x := by
    rw [hmem, hf.inFamily_removeFromSuperview hmid]
  have hleft (w : View) : g.contains w = true ↔ f.contains w = true ∧ w ∉ freed := by
    rw [hfreed.contains_iff, contains_removeFromSuperview hf hmid]
  have hlive (w : View) (hw : w ∈ freed) : f.contains w = true := by
    rw [← contains_removeFromSuperview hf hmid]
    exact hfreed.live w hw
  have hnode : ∀ w node, f.node? w = some node → ¬ f.InFamily v w →
      ∃ left, g.node? w = some left ∧ left.withoutNotes = (node.withoutSubview v).withoutNotes := by
    intro w node hnode hout
    have hne : w ≠ v := by
      rintro rfl
      exact hout .refl
    rw [hfreed.node?, if_neg ((hfamily w).not.mpr hout)]
    exact hf.node?_removeFromSuperview hmid hne hnode
  refine ⟨g, freed, hg, ⟨hfreed.nodup, hfamily, ?_, ?_, ?_, ?_, ?_⟩⟩
  · rw [hfreed.vacant, vacant_removeFromSuperview hmid]
  · intro w
    rw [hleft, hfamily]
  · calc
      g.size + freed.length = g.views.length + freed.length := by rw [(wellFormed_destroy hf hg).size_eq]
      _ = (freed ++ g.views).length := by rw [List.length_append, Nat.add_comm]
      _ = f.views.length := (perm_views hfreed.nodup hleft hlive).length_eq.symm
      _ = f.size := hf.size_eq.symm
  · intro w node hw hout hother
    have hunlisted : v ∉ node.subviews := by
      rw [← subviewsOf_of_node? hw, ← hf.linked]
      exact hother
    rw [← Node.withoutSubview_of_not_mem hunlisted]
    exact hnode w node hw hout
  · intro w node hw hup
    exact hnode w node hw (hf.not_inFamily_of_above hup)

/-- A view is destroyed with everything below it and with nothing else, and a dead handle changes nothing. -/
theorem reachable_destroy (hf : Reaches empty f) (v : View) :
    f.contains v = false ∧ f.destroy v = .ok f ∨
      f.contains v = true ∧ ∃ g freed, f.destroy v = .ok g ∧ Destroyed f v freed g := by
  cases hlive : f.contains v with
  | false =>
    left
    refine ⟨rfl, ?_⟩
    unfold destroy
    rw [hlive]
    rfl
  | true =>
    right
    exact ⟨rfl, (reachable_wellFormed hf).exists_destroyed hlive⟩

/-- The second of three subviews is destroyed with the two views below it. The other two and the view on its own
are left. -/
theorem reachable_destroy_branched : ∃ (f g : Forest Unit) (freed : List View), Reaches empty f ∧ f.size = 7 ∧
    f.subviewsOf ⟨1⟩ = [⟨2⟩, ⟨3⟩, ⟨4⟩] ∧ f.destroy ⟨3⟩ = .ok g ∧ Destroyed f ⟨3⟩ freed g ∧
      g.size = 4 ∧ g.subviewsOf ⟨1⟩ = [⟨2⟩, ⟨4⟩] ∧ freed = [⟨3⟩, ⟨6⟩, ⟨5⟩] := by
  have hlive : branched.contains ⟨3⟩ = true := by decide +kernel
  have hsize : branched.size = 7 := by decide +kernel
  have hsubviews : branched.subviewsOf ⟨1⟩ = [⟨2⟩, ⟨3⟩, ⟨4⟩] := by decide +kernel
  have hvacant : branched.vacant = [] := by decide +kernel
  have hresult : (branched.destroy ⟨3⟩).map (fun g ↦ (g.size, g.subviewsOf ⟨1⟩, g.vacant)) =
      .ok (4, [⟨2⟩, ⟨4⟩], [5, 6, 3]) := by decide +kernel
  rcases reachable_destroy reaches_branched ⟨3⟩ with ⟨hdead, -⟩ | ⟨-, g, freed, hg, hdestroyed⟩
  · rw [hlive] at hdead
    cases hdead
  · rw [hg] at hresult
    obtain ⟨hleft, hothers, hfreed⟩ := by simpa [Except.map] using hresult
    refine ⟨branched, g, freed, reaches_branched, hsize, hsubviews, hg, hdestroyed, hleft, hothers, ?_⟩
    have hslots : freed.map View.index = [3, 6, 5] := by
      rw [hdestroyed.vacant, hvacant, List.append_nil] at hfreed
      exact List.reverse_injective hfreed
    exact List.map_injective_iff.mpr View.index_injective hslots

end Forest

end RetainedUi
