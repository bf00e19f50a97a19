import RetainedUi.Proofs.Forest.Walks

/-!
# Creating, linking and freeing views

The operations that change the shape of a forest, and why it stays well-formed. A new view takes a slot
that held none and gets a serial that is larger than all others. A link is made on both sides, and only
below a view that is not in the family of the new subview, so no chain of superviews closes. Freeing a
view that has no superview together with its whole family leaves no handle of it behind in any link.
-/

namespace RetainedUi.Forest

variable {W : Type} {f g : Forest W}

/-! ## Creating -/

/-- The slot of a new view was empty, and every other slot keeps its node. -/
theorem getElem?_slots_insert (hf : f.WellFormed) (node : Node W) (slot : Nat) :
    (f.insert node).2.slots[slot]? =
      if slot = (f.insert node).1.index then some (some { node with serial := f.lastSerial + 1 })
      else f.slots[slot]? := by
  unfold insert
  cases hvacant : f.vacant with
  | nil =>
    by_cases hslot : slot = f.slots.size
    · simp [hslot]
    · simp [Array.getElem?_push, hslot]
  | cons free rest =>
    have hfree : f.slots[free]? = some none := hf.vacant free (by simp [hvacant])
    obtain ⟨hbound, -⟩ := Array.getElem?_eq_some_iff.mp hfree
    by_cases hslot : slot = free
    · subst hslot
      simp [hbound]
    · simp [hslot, Ne.symm hslot]

theorem index_insert_ne_zero (hf : f.WellFormed) (node : Node W) : (f.insert node).1.index ≠ 0 := by
  unfold insert
  cases hvacant : f.vacant with
  | nil => exact hf.size_slots_ne_zero
  | cons free rest => exact hf.index_vacant_ne_zero (by simp [hvacant])

theorem node?_insert_eq_none (hf : f.WellFormed) (node : Node W) :
    f.node? (f.insert node).1 = none := by
  unfold insert node?
  cases hvacant : f.vacant with
  | nil => simp
  | cons free rest => simp [hf.vacant free (by simp [hvacant])]

theorem node?_insert (hf : f.WellFormed) (node : Node W) (w : View) :
    (f.insert node).2.node? w =
      if w = (f.insert node).1 then some { node with serial := f.lastSerial + 1 } else f.node? w := by
  by_cases hview : w = (f.insert node).1
  · subst hview
    rw [if_pos rfl, node?_eq_some_iff, getElem?_slots_insert hf, if_pos rfl]
    exact ⟨index_insert_ne_zero hf node, rfl⟩
  · have hindex : w.index ≠ (f.insert node).1.index := fun h ↦ hview (View.index_injective h)
    unfold node?
    rw [if_neg hview, getElem?_slots_insert hf, if_neg hindex]

theorem lastSerial_insert (f : Forest W) (node : Node W) :
    (f.insert node).2.lastSerial = f.lastSerial + 1 := by
  unfold insert
  cases f.vacant <;> rfl

theorem vacant_insert (f : Forest W) (node : Node W) :
    (f.insert node).2.vacant = f.vacant.tail := by
  unfold insert
  cases f.vacant <;> simp

theorem superview?_insert (hf : f.WellFormed) {node : Node W} (hup : node.superview = none) (w : View) :
    (f.insert node).2.superview? w = f.superview? w := by
  unfold superview?
  rw [node?_insert hf]
  by_cases hview : w = (f.insert node).1
  · rw [if_pos hview, hview, node?_insert_eq_none hf]
    simp [hup]
  · rw [if_neg hview]

theorem subviewsOf_insert (hf : f.WellFormed) {node : Node W} (hdown : node.subviews = []) (w : View) :
    (f.insert node).2.subviewsOf w = f.subviewsOf w := by
  unfold subviewsOf
  rw [node?_insert hf]
  by_cases hview : w = (f.insert node).1
  · rw [if_pos hview, hview, node?_insert_eq_none hf]
    simp [hdown]
  · rw [if_neg hview]

theorem serial?_insert (hf : f.WellFormed) (node : Node W) (w : View) :
    (f.insert node).2.serial? w =
      if w = (f.insert node).1 then some (f.lastSerial + 1) else f.serial? w := by
  by_cases hview : w = (f.insert node).1 <;> simp [serial?, node?_insert hf, hview]

theorem wellFormed_insert (hf : f.WellFormed) {node : Node W} (hup : node.superview = none)
    (hdown : node.subviews = []) : (f.insert node).2.WellFormed where
  dummy := by
    obtain ⟨dummy, hdummy, hlinks⟩ := hf.dummy
    refine ⟨dummy, ?_, hlinks⟩
    rw [getElem?_slots_insert hf, if_neg (index_insert_ne_zero hf node).symm, hdummy]
  vacant := by
    intro slot hslot
    have hold : slot ∈ f.vacant := List.mem_of_mem_tail (vacant_insert f node ▸ hslot)
    rw [getElem?_slots_insert hf, if_neg, hf.vacant slot hold]
    -- The slot that was taken stands in front of the vacant ones and only there.
    rw [vacant_insert] at hslot
    unfold insert
    have hnodup := hf.vacant_nodup
    cases hvacant : f.vacant with
    | nil => simp [hvacant] at hslot
    | cons free rest =>
      rw [hvacant] at hslot hnodup
      intro heq
      subst heq
      exact (List.nodup_cons.mp hnodup).1 hslot
  vacant_nodup := by
    rw [vacant_insert]
    exact hf.vacant_nodup.tail
  serial_le v serial hv := by
    rw [serial?_insert hf] at hv
    rw [lastSerial_insert]
    split at hv
    · cases hv
      exact le_rfl
    · exact (hf.serial_le v serial hv).trans (Nat.le_succ _)
  serial_inj v w serial hv hw := by
    have hnew {x : View} (hx : f.serial? x = some (f.lastSerial + 1)) : False :=
      Nat.not_succ_le_self _ (hf.serial_le x _ hx)
    rw [serial?_insert hf] at hv hw
    split at hv <;> split at hw
    · simp_all
    · cases hv
      exact (hnew hw).elim
    · cases hw
      exact (hnew hv).elim
    · exact hf.serial_inj v w serial hv hw
  linked p c := by rw [superview?_insert hf hup, subviewsOf_insert hf hdown, hf.linked]
  subviews_nodup p := by
    rw [subviewsOf_insert hf hdown]
    exact hf.subviews_nodup p
  rooted := rooted_of_fewer hf.rooted fun c p h ↦ superview?_insert hf hup c ▸ h

/-! ## Linking -/

/-- Links a view below another one, on both sides. -/
def link (f : Forest W) (parent child : View) : Forest W :=
  (f.modify child fun node ↦ { node with superview := some parent }).modify parent
    fun node ↦ { node with subviews := node.subviews ++ [child] }

/-- Takes the link between a view and its superview away, on both sides. -/
def unlink (f : Forest W) (parent child : View) : Forest W :=
  (f.modify child fun node ↦ { node with superview := none }).modify parent
    fun node ↦ { node with subviews := node.subviews.filter (· != child) }

theorem superview?_modify (f : Forest W) (v w : View) (change : Node W → Node W) :
    (f.modify v change).superview? w =
      if w = v then (f.node? v).bind fun node ↦ (change node).superview else f.superview? w := by
  unfold superview?
  rw [node?_modify]
  split
  · subst w
    cases f.node? v <;> simp
  · rfl

theorem subviewsOf_modify (f : Forest W) (v w : View) (change : Node W → Node W) :
    (f.modify v change).subviewsOf w =
      if w = v then ((f.node? v).map fun node ↦ (change node).subviews).getD [] else f.subviewsOf w := by
  unfold subviewsOf
  rw [node?_modify]
  split
  · subst w
    cases f.node? v <;> simp
  · rfl

theorem serial?_modify (f : Forest W) (v w : View) {change : Node W → Node W}
    (hserial : ∀ node, (change node).serial = node.serial) :
    (f.modify v change).serial? w = f.serial? w := by
  unfold serial?
  rw [node?_modify]
  split <;> cases f.node? w <;> simp [hserial]

/-- What a change of the slots has to keep for a forest to stay well-formed, whatever the links. -/
theorem WellFormed.of_modify (hf : f.WellFormed) {v w : View} {change again : Node W → Node W}
    (hg : (f.modify v change).modify w again = g)
    (hserial : ∀ node, (change node).serial = node.serial)
    (hserial' : ∀ node, (again node).serial = node.serial)
    (hlinked : ∀ p c, g.superview? c = some p ↔ c ∈ g.subviewsOf p)
    (hnodup : ∀ p, (g.subviewsOf p).Nodup) (hrooted : WellFounded g.Above) : g.WellFormed := by
  have hserials : ∀ x, g.serial? x = f.serial? x := by
    intro x
    rw [← hg, serial?_modify _ _ _ hserial', serial?_modify _ _ _ hserial]
  have hslot : ∀ slot : Nat, f.slots[slot]? = some none → g.slots[slot]? = some none := by
    intro slot hslot
    rw [← hg, getElem?_slots_modify, getElem?_slots_modify, hslot]
    split <;> split <;> simp
  exact
    { dummy := by
        obtain ⟨dummy, hdummy, hlinks⟩ := hf.dummy
        have hzero (x : View) : ¬ (x.index ≠ 0 ∧ 0 = x.index) := fun h ↦ h.1 h.2.symm
        refine ⟨dummy, ?_, hlinks⟩
        rw [← hg, getElem?_slots_modify, if_neg (hzero w), getElem?_slots_modify, if_neg (hzero v),
          hdummy]
      vacant := by
        intro slot hvacant
        refine hslot slot (hf.vacant slot ?_)
        simpa [← hg] using hvacant
      vacant_nodup := by simpa [← hg] using hf.vacant_nodup
      serial_le := by
        intro x serial hx
        have hlast : g.lastSerial = f.lastSerial := by simp [← hg]
        exact hlast ▸ hf.serial_le x serial (hserials x ▸ hx)
      serial_inj := fun x y serial hx hy ↦
        hf.serial_inj x y serial (hserials x ▸ hx) (hserials y ▸ hy)
      linked := hlinked
      subviews_nodup := hnodup
      rooted := hrooted }

section

variable {parent child : View}

@[simp]
theorem serial?_link (v : View) : (f.link parent child).serial? v = f.serial? v := by
  unfold link
  rw [serial?_modify _ _ _ fun _ ↦ by rfl, serial?_modify _ _ _ fun _ ↦ by rfl]

@[simp]
theorem lastSerial_link : (f.link parent child).lastSerial = f.lastSerial := by
  simp [link]

@[simp]
theorem contains_link (v : View) : (f.link parent child).contains v = f.contains v := by
  simp [link]

@[simp]
theorem contains_unlink (v : View) : (f.unlink parent child).contains v = f.contains v := by
  simp [unlink]

@[simp]
theorem serial?_unlink (v : View) : (f.unlink parent child).serial? v = f.serial? v := by
  unfold unlink
  rw [serial?_modify _ _ _ fun _ ↦ by rfl, serial?_modify _ _ _ fun _ ↦ by rfl]

@[simp]
theorem lastSerial_unlink : (f.unlink parent child).lastSerial = f.lastSerial := by
  simp [unlink]

theorem superview?_link (hchild : f.contains child = true) (c : View) :
    (f.link parent child).superview? c = if c = child then some parent else f.superview? c := by
  obtain ⟨node, hnode⟩ := contains_iff.mp hchild
  unfold link
  rw [superview?_modify]
  by_cases hparent : c = parent
  · subst hparent
    rw [if_pos rfl, node?_modify]
    by_cases hself : c = child
    · subst hself
      simp [hnode]
    · simp [hself, superview?]
  · rw [if_neg hparent, superview?_modify, hnode]
    rfl

theorem subviewsOf_link (hparent : f.contains parent = true) (p : View) :
    (f.link parent child).subviewsOf p =
      if p = parent then f.subviewsOf parent ++ [child] else f.subviewsOf p := by
  obtain ⟨node, hnode⟩ := contains_iff.mp hparent
  unfold link
  rw [subviewsOf_modify, node?_modify]
  by_cases hself : parent = child
  · subst hself
    simp only [if_true, hnode, Option.map_some, Option.getD_some, subviewsOf_modify]
    split <;> simp [subviewsOf, hnode]
  · rw [if_neg hself, hnode, subviewsOf_modify]
    by_cases hp : p = parent
    · simp [hp, subviewsOf, hnode]
    · rw [if_neg hp, if_neg hp]
      split
      · subst p
        cases hc : f.node? child <;> simp [subviewsOf, hc]
      · rfl

theorem wellFormed_link (hf : f.WellFormed) (hparent : f.contains parent = true)
    (hchild : f.contains child = true) (hroot : f.superview? child = none)
    (hout : ¬ f.InFamily child parent) : (f.link parent child).WellFormed := by
  have hunlisted : ∀ p, child ∉ f.subviewsOf p := by
    intro p hp
    rw [(hf.linked p child).mpr hp] at hroot
    cases hroot
  refine hf.of_modify (g := f.link parent child) rfl (fun _ ↦ rfl) (fun _ ↦ rfl) ?_ ?_ ?_
  · intro p c
    rw [superview?_link hchild, subviewsOf_link hparent]
    by_cases hc : c = child
    · subst hc
      by_cases hp : p = parent
      · simp [hp]
      · simp [hp, Ne.symm hp, hunlisted p]
    · by_cases hp : p = parent
      · simp [hp, hc, hf.linked parent c]
      · simp [hp, hc, hf.linked p c]
  · intro p
    rw [subviewsOf_link hparent]
    split
    · refine List.nodup_append.mpr ⟨hf.subviews_nodup parent, List.nodup_singleton child, ?_⟩
      rintro c hc x hx rfl
      obtain rfl : c = child := by simpa using hx
      exact hunlisted parent hc
    · exact hf.subviews_nodup p
  · exact rooted_of_attached hf.rooted (superview?_link hchild) hout

theorem superview?_unlink (c : View) :
    (f.unlink parent child).superview? c = if c = child then none else f.superview? c := by
  unfold unlink
  rw [superview?_modify]
  by_cases hparent : c = parent
  · subst hparent
    rw [if_pos rfl, node?_modify]
    by_cases hself : c = child
    · subst hself
      cases hnode : f.node? c <;> simp
    · simp [hself, superview?]
  · rw [if_neg hparent, superview?_modify]
    split
    · cases f.node? child <;> simp
    · rfl

theorem subviewsOf_unlink (p : View) :
    (f.unlink parent child).subviewsOf p =
      if p = parent then (f.subviewsOf parent).filter (· != child) else f.subviewsOf p := by
  unfold unlink
  rw [subviewsOf_modify, node?_modify]
  by_cases hp : p = parent
  · subst hp
    rw [if_pos rfl, if_pos rfl]
    by_cases hself : p = child
    · subst hself
      cases hnode : f.node? p <;> simp [subviewsOf, hnode]
    · cases hnode : f.node? p <;> simp [subviewsOf, hnode, hself]
  · rw [if_neg hp, if_neg hp, subviewsOf_modify]
    split
    · subst p
      cases hc : f.node? child <;> simp [subviewsOf, hc]
    · rfl

theorem wellFormed_unlink (hf : f.WellFormed) (hup : f.superview? child = some parent) :
    (f.unlink parent child).WellFormed := by
  refine hf.of_modify (g := f.unlink parent child) rfl (fun _ ↦ rfl) (fun _ ↦ rfl) ?_ ?_ ?_
  · intro p c
    rw [superview?_unlink, subviewsOf_unlink]
    by_cases hc : c = child
    · subst hc
      by_cases hp : p = parent
      · simp [hp]
      · have hother : c ∉ f.subviewsOf p := by
          rw [← hf.linked p c, hup]
          simpa using Ne.symm hp
        simp [hp, hother]
    · by_cases hp : p = parent
      · simp [hp, hc, hf.linked parent c]
      · simp [hp, hc, hf.linked p c]
  · intro p
    rw [subviewsOf_unlink]
    split
    · exact (hf.subviews_nodup parent).filter _
    · exact hf.subviews_nodup p
  · apply rooted_of_fewer hf.rooted
    intro c p h
    rw [superview?_unlink] at h
    split at h
    · cases h
    · exact h

/-- The link that is taken away leads into the family of the lower view and is no part of it. -/
theorem inFamily_unlink (hf : f.WellFormed) (hup : f.superview? child = some parent) (x : View) :
    (f.unlink parent child).InFamily child x ↔ f.InFamily child x := by
  constructor
  · apply Relation.ReflTransGen.mono
    intro p c hlink
    rw [Above, superview?_unlink] at hlink
    split at hlink
    · cases hlink
    · exact hlink
  · intro hx
    induction hx with
    | refl => exact .refl
    | @tail p c hbelow hlink ih =>
      have hne : c ≠ child := by
        rintro rfl
        exact hf.not_inFamily_of_above hlink hbelow
      apply ih.tail
      rw [Above, superview?_unlink, if_neg hne]
      exact hlink

end

end RetainedUi.Forest
