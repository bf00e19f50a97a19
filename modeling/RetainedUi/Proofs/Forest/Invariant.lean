import RetainedUi.Proofs.Forest.Answers
import RetainedUi.Proofs.Forest.Reachable

/-!
# The links of reachable forests

Whatever was done to the views of a forest that started out empty, its links agree in both directions and
lead to live views only, no view is in two lists, and every chain of superviews ends. The first slot stays
what it was, so no creation hands out index zero. Serials only grow, so none is ever carried by two views.
-/

namespace RetainedUi.Forest

variable {W : Type} {f g h : Forest W}

/-! ## Serials -/

/-- Serials were not handed out anew: those in the second forest are in the first one as well, at the
same views, or they are larger than all that were given before. -/
structure Renews (f g : Forest W) : Prop where
  lastSerial_le : f.lastSerial ≤ g.lastSerial
  old_or_new : ∀ v serial, g.serial? v = some serial → f.serial? v = some serial ∨ f.lastSerial < serial

namespace Renews

theorem of_kept (hlast : g.lastSerial = f.lastSerial)
    (hold : ∀ v serial, g.serial? v = some serial → f.serial? v = some serial) : Renews f g :=
  ⟨hlast.ge, fun v serial hv ↦ .inl (hold v serial hv)⟩

theorem of_alike (h : Alike Node.links f g) : Renews f g :=
  of_kept h.lastSerial.symm fun v _ hv ↦ (h.serial? v).trans hv

theorem refl (f : Forest W) : Renews f f := of_kept rfl fun _ _ hv ↦ hv

theorem trans (hfg : Renews f g) (hgh : Renews g h) : Renews f h := by
  refine ⟨hfg.lastSerial_le.trans hgh.lastSerial_le, fun v serial hv ↦ ?_⟩
  rcases hgh.old_or_new v serial hv with hold | hnew
  · exact hfg.old_or_new v serial hold
  · exact .inr (hfg.lastSerial_le.trans_lt hnew)

theorem of_removeFromSuperview (hf : f.WellFormed) {v : View} (h : f.removeFromSuperview v = .ok g) :
    Renews f g := by
  obtain ⟨-, ⟨-, rfl⟩ | ⟨parent, hup, frame, hg⟩⟩ := removeFromSuperview_eq_ok h
  · exact refl _
  · have halike := (relinks_of_relinked (wellFormed_unlink hf hup) hg).alike
    have hunlinked : Renews f (f.unlink parent v) := of_kept (by simp) fun w serial hw ↦ by simpa using hw
    exact hunlinked.trans (of_alike halike)

end Renews

theorem Reshapes.renews (h : Reshapes f g) (hf : f.WellFormed) : Renews f g := by
  cases h with
  | rearrange => exact .of_kept rfl fun _ _ hv ↦ hv
  | grow => exact .of_kept rfl fun v serial hv ↦ by simpa [serial?, node?_grow] using hv
  | insert frame role =>
    refine ⟨by simp [lastSerial_insert], fun v serial hv ↦ ?_⟩
    rw [serial?_insert hf] at hv
    split at hv
    · cases hv
      exact .inr (Nat.lt_succ_self _)
    · exact .inl hv
  | @addView _ parent child h =>
    obtain ⟨hparent, hchild, hroot, hout, frame, hg⟩ := addView_eq_ok hf h
    have halike := (relinks_of_relinked (wellFormed_link hf hparent hchild hroot hout) hg).alike
    have hlinked : Renews f (f.link parent child) := .of_kept (by simp) fun w serial hw ↦ by simpa using hw
    exact hlinked.trans (.of_alike halike)
  | removeFromSuperview h => exact .of_removeFromSuperview hf h
  | destroy h =>
    obtain ⟨-, rfl⟩ | ⟨mid, freed, hmid, -, -, hfreed, -⟩ := destroy_eq_ok hf h
    · exact .refl _
    · exact (Renews.of_removeFromSuperview hf hmid).trans
        (.of_kept hfreed.lastSerial fun v serial hv ↦ hfreed.serial?_eq_some hv)

theorem Reaches.renews (hfg : Reaches f g) (hf : f.WellFormed) : Renews f g := by
  have hboth : g.WellFormed ∧ Renews f g := by
    refine hfg.preserves (P := fun g ↦ g.WellFormed ∧ Renews f g) ?_ ⟨hf, .refl f⟩
    rintro g h ⟨hg, hrenews⟩ hstep
    refine ⟨hstep.wellFormed hg, hrenews.trans ?_⟩
    rcases hstep.reshapes_or_alike with hstep | hstep
    · exact hstep.renews hg
    · exact .of_alike hstep
  exact hboth.2

/-- A new view gets the next serial. -/
theorem serial?_new (hf : f.WellFormed) (node : Node W) :
    (f.insert node).2.serial? (f.insert node).1 = some (f.lastSerial + 1) := by
  rw [serial?_insert hf, if_pos rfl]

/-! ## Subviews -/

/-- The subviews of all slots together. -/
def allSubviews (f : Forest W) : List View :=
  f.slots.toList.flatMap fun slot ↦ (slot.map (·.subviews)).getD []

/-- A view in the list of a slot has the view of that slot as its superview. -/
theorem WellFormed.superview?_of_slot (hf : f.WellFormed) {slot : Nat} {found : Option (Node W)} {c : View}
    (hslot : f.slots[slot]? = some found) (hc : c ∈ (found.map (·.subviews)).getD []) :
    f.superview? c = some ⟨slot⟩ := by
  cases found with
  | none => simp at hc
  | some node =>
    have hnonzero : slot ≠ 0 := by
      intro heq
      subst heq
      obtain ⟨dummy, hdummy, -, hsubs⟩ := hf.dummy
      rw [hdummy] at hslot
      cases hslot
      simp [hsubs] at hc
    have hnode : f.node? ⟨slot⟩ = some node := node?_eq_some_iff.mpr ⟨hnonzero, hslot⟩
    rw [hf.linked, subviewsOf_of_node? hnode]
    simpa using hc

theorem WellFormed.nodup_allSubviews (hf : f.WellFormed) : f.allSubviews.Nodup := by
  refine List.nodup_flatMap.mpr ⟨fun found hfound ↦ ?_, ?_⟩
  · obtain ⟨slot, hbound, rfl⟩ := List.mem_iff_getElem.mp hfound
    have hslot : f.slots[slot]? = some f.slots[slot] := Array.getElem?_eq_getElem (by simpa using hbound)
    rw [Array.getElem_toList]
    cases hnode : f.slots[slot] with
    | none => simp
    | some node =>
      by_cases hzero : slot = 0
      · subst hzero
        obtain ⟨dummy, hdummy, -, hsubs⟩ := hf.dummy
        rw [hslot, hnode] at hdummy
        cases hdummy
        simp [hsubs]
      · have hnode' : f.node? ⟨slot⟩ = some node := node?_eq_some_iff.mpr ⟨hzero, hnode ▸ hslot⟩
        simpa [subviewsOf_of_node? hnode'] using hf.subviews_nodup ⟨slot⟩
  · rw [List.pairwise_iff_getElem]
    intro i j hi hj hij c hci hcj
    have hup := hf.superview?_of_slot (Array.getElem?_eq_getElem (by simpa using hi)) (by simpa using hci)
    have hup' := hf.superview?_of_slot (Array.getElem?_eq_getElem (by simpa using hj)) (by simpa using hcj)
    rw [hup] at hup'
    simp only [Option.some.injEq, View.mk.injEq] at hup'
    omega

/-! ## The invariant -/

/-- A view is created, on its own or for a window. -/
inductive Creates : Forest W → View → Forest W → Prop where
  | plain (f : Forest W) (frame : Rect) : Creates f (f.create frame).1 (f.create frame).2
  | window (f : Forest W) (frame : Rect) : Creates f (f.createWindow frame).1 (f.createWindow frame).2

theorem Creates.exists_insert {v : View} (h : Creates f v g) :
    ∃ node : Node W, v = (f.insert node).1 ∧ g = (f.insert node).2 := by
  cases h with
  | plain frame => exact ⟨_, rfl, rfl⟩
  | window frame => exact ⟨_, rfl, rfl⟩

/-- The invariant of all forests that are reached from the empty one. -/
theorem reachable_links (hf : Reaches empty f) :
    (∀ p c, f.superview? c = some p ↔ c ∈ f.subviewsOf p) ∧
    f.allSubviews.Nodup ∧
    (∀ v p, f.superview? v = some p → f.contains p = true) ∧
    (∀ v, ∀ c ∈ f.subviewsOf v, f.contains c = true) ∧
    (∀ v, f.contains v = true → ∃ above, f.superviews v = .ok above ∧ v ∉ above) ∧
    (∃ dummy, f.slots[0]? = some (some dummy) ∧ dummy.superview = none ∧ dummy.subviews = []) ∧
    (∀ v g, Creates f v g → v.index ≠ 0) ∧
    (∀ v w serial, f.serial? v = some serial → f.serial? w = some serial → v = w) ∧
    (∀ later, Reaches f later →
      (∀ v w serial, f.serial? v = some serial → later.serial? w = some serial → v = w) ∧
      ∀ v born, Creates later v born → ∀ w serial, f.serial? w = some serial →
        born.serial? v ≠ some serial) := by
  have hwell : f.WellFormed := reachable_wellFormed hf
  refine ⟨hwell.linked, hwell.nodup_allSubviews, fun v p ↦ hwell.contains_superview,
    fun v c ↦ hwell.contains_subview, ?_, hwell.dummy, ?_, hwell.serial_inj, ?_⟩
  · intro v hv
    obtain ⟨chain, hchain⟩ := hwell.exists_ascends hv
    have hnodup := hchain.nodup hwell
    cases hchain with
    | step hnode habove =>
      exact ⟨_, hwell.superviews_eq_ok_iff.mpr (.step hnode habove), (List.nodup_cons.mp hnodup).1⟩
  · intro v g hcreate
    obtain ⟨node, rfl, -⟩ := hcreate.exists_insert
    exact index_insert_ne_zero hwell node
  · intro later hlater
    have hrenews := hlater.renews hwell
    refine ⟨fun v w serial hv hw ↦ ?_, fun v born hcreate w serial hw ↦ ?_⟩
    · rcases hrenews.old_or_new w serial hw with hold | hnew
      · exact hwell.serial_inj v w serial hv hold
      · exact absurd (hwell.serial_le v serial hv) (by omega)
    · obtain ⟨node, rfl, rfl⟩ := hcreate.exists_insert
      rw [serial?_new (hlater.wellFormed hwell)]
      have hle := hwell.serial_le w serial hw
      have hgrown := hrenews.lastSerial_le
      simp only [ne_eq, Option.some.injEq]
      omega

/-- A slot is used again for the superview of another view. -/
theorem reachable_links_reused : ∃ f : Forest Unit, Reaches empty f ∧ f.serial? ⟨1⟩ = some 2 ∧
    f.superview? ⟨2⟩ = some ⟨1⟩ ∧ ⟨2⟩ ∈ f.subviewsOf ⟨1⟩ ∧ f.allSubviews.Nodup := by
  let destroyed : Forest Unit := { (empty : Forest Unit) with
    slots := #[some (.detached .zero .plain), none], vacant := [1], lastSerial := 1 }
  let apart : Forest Unit := ((destroyed.create .zero).2.create .zero).2
  have hdestroy : ((empty : Forest Unit).create .zero).2.destroy ⟨1⟩ = .ok destroyed := rfl
  have hapart : Reaches empty apart :=
    ((((Reaches.refl empty).step (.create _ .zero)).step (.destroy hdestroy)).step
      (.create _ .zero)).step (.create _ .zero)
  have hwell : apart.WellFormed := reachable_wellFormed hapart
  have hout : ¬ apart.InFamily ⟨2⟩ ⟨1⟩ := by
    rw [inFamily_iff_eq_or_superview]
    rintro (hsame | ⟨p, hp, -⟩)
    · simp at hsame
    · cases hp
  obtain ⟨f, hf⟩ := hwell.exists_addView rfl rfl rfl hout
  have hreach : Reaches empty f := hapart.step (.addView hf)
  obtain ⟨-, hchild, -, -, frame, hrelinked⟩ := addView_eq_ok hwell hf
  have halike := (relinks_of_relinked (wellFormed_link hwell rfl rfl rfl hout) hrelinked).alike
  have hup : f.superview? ⟨2⟩ = some ⟨1⟩ := by
    rw [← halike.superview?, superview?_link hchild, if_pos rfl]
  have hserial : f.serial? ⟨1⟩ = some 2 := by
    rw [← halike.serial?, serial?_link]
    rfl
  have hlinks := reachable_links hreach
  exact ⟨f, hreach, hserial, hup, (hlinks.1 ⟨1⟩ ⟨2⟩).mp hup, hlinks.2.1⟩

end RetainedUi.Forest
