import RetainedUi.Forest.Links
import RetainedUi.Proofs.Pass

/-!
# Looking up nodes after a change

Every operation is described by what it does to the nodes that handles name. A change of one node leaves
all others alone, a creation fills one vacant slot, and freeing empties one.

Most operations change only a few fields of the nodes. Two forests are alike up to what a function
forgets of a node if they have the same slots occupied, the same vacant slots in the same order and the
same last serial, and if the function takes the same value on each two nodes in the same slot.
-/

namespace RetainedUi

theorem View.index_injective : Function.Injective View.index :=
  fun v w h ↦ by cases v; cases w; simp_all

namespace Forest

variable {W : Type}

/-- The superview of a view that a handle names, if there are both. -/
def superview? (f : Forest W) (v : View) : Option View := (f.node? v).bind (·.superview)

/-- The subviews of a view that a handle names. A dead handle has none. -/
def subviewsOf (f : Forest W) (v : View) : List View := ((f.node? v).map (·.subviews)).getD []

/-- The widget of a view that a handle names, if there are both. -/
def widget? (f : Forest W) (v : View) : Option W := (f.node? v).bind (·.widget)

/-- The pending region of a view. -/
def pending? (f : Forest W) (v : View) : Option Rect := (f.node? v).bind (·.invalidated)

/-! ## Plain access -/

theorem node?_eq_some_iff {f : Forest W} {v : View} {node : Node W} :
    f.node? v = some node ↔ v.index ≠ 0 ∧ f.slots[v.index]? = some (some node) := by
  unfold node?
  by_cases hzero : v.index = 0
  · simp [hzero]
  · simp [hzero, Option.join_eq_some_iff]

theorem contains_iff {f : Forest W} {v : View} :
    f.contains v = true ↔ ∃ node, f.node? v = some node := by
  simp [contains, Option.isSome_iff_exists]

theorem index_lt_size_slots {f : Forest W} {v : View} (h : f.contains v = true) : v.index < f.slots.size := by
  obtain ⟨node, hnode⟩ := contains_iff.mp h
  exact (Array.getElem?_eq_some_iff.mp (node?_eq_some_iff.mp hnode).2).1

theorem read_eq_ok {f : Forest W} {v : View} {node : Node W} :
    f.read v = .ok node ↔ f.node? v = some node := by
  unfold read
  cases f.node? v with
  | none => simp
  | some found => simp

theorem update_eq_ok {f g : Forest W} {v : View} {change : Node W → Node W} :
    f.update v change = .ok g ↔ f.contains v = true ∧ f.modify v change = g := by
  unfold update
  by_cases hlive : f.contains v = true
  · simp [hlive]
  · simp [hlive]

theorem superview?_eq_some_iff {f : Forest W} {v p : View} :
    f.superview? v = some p ↔ ∃ node, f.node? v = some node ∧ node.superview = some p := by
  simp [superview?, Option.bind_eq_some_iff]

theorem mem_subviewsOf_iff {f : Forest W} {p c : View} :
    c ∈ f.subviewsOf p ↔ ∃ node, f.node? p = some node ∧ c ∈ node.subviews := by
  unfold subviewsOf
  cases f.node? p with
  | none => simp
  | some node => simp

theorem superview?_of_node? {f : Forest W} {v : View} {node : Node W} (h : f.node? v = some node) :
    f.superview? v = node.superview := by
  simp [superview?, h]

theorem subviewsOf_of_node? {f : Forest W} {v : View} {node : Node W} (h : f.node? v = some node) :
    f.subviewsOf v = node.subviews := by
  simp [subviewsOf, h]

theorem widget?_of_node? {f : Forest W} {v : View} {node : Node W} (h : f.node? v = some node) :
    f.widget? v = node.widget := by
  simp [widget?, h]

theorem pending?_of_node? {f : Forest W} {v : View} {node : Node W} (h : f.node? v = some node) :
    f.pending? v = node.invalidated := by
  simp [pending?, h]

theorem serial?_eq_some_iff {f : Forest W} {v : View} {serial : Nat} :
    f.serial? v = some serial ↔ ∃ node, f.node? v = some node ∧ node.serial = serial := by
  simp [serial?]

/-! ## A change of one node -/

theorem getElem?_slots_modify (f : Forest W) (v : View) (change : Node W → Node W) (slot : Nat) :
    (f.modify v change).slots[slot]? =
      if v.index ≠ 0 ∧ slot = v.index then f.slots[slot]?.map (Option.map change)
      else f.slots[slot]? := by
  unfold modify
  by_cases hzero : v.index = 0
  · simp [hzero]
  · by_cases hslot : v.index = slot
    · subst hslot
      simp [hzero, Array.getElem?_modify]
    · simp [hzero, Array.getElem?_modify, hslot, Ne.symm hslot]

@[simp]
theorem vacant_modify (f : Forest W) (v : View) (change : Node W → Node W) :
    (f.modify v change).vacant = f.vacant := by
  unfold modify
  split <;> rfl

@[simp]
theorem lastSerial_modify (f : Forest W) (v : View) (change : Node W → Node W) :
    (f.modify v change).lastSerial = f.lastSerial := by
  unfold modify
  split <;> rfl

@[simp]
theorem scaleFactor_modify (f : Forest W) (v : View) (change : Node W → Node W) :
    (f.modify v change).scaleFactor = f.scaleFactor := by
  unfold modify
  split <;> rfl

theorem node?_modify (f : Forest W) (v w : View) (change : Node W → Node W) :
    (f.modify v change).node? w = if w = v then (f.node? w).map change else f.node? w := by
  unfold node?
  by_cases hzero : w.index = 0
  · simp [hzero]
  · by_cases hview : w = v
    · subst hview
      rw [getElem?_slots_modify]
      cases hslot : f.slots[w.index]? with
      | none => simp [hzero]
      | some found => cases found <;> simp [hzero]
    · have hindex : w.index ≠ v.index := fun h ↦ hview (View.index_injective h)
      simp [hzero, hview, getElem?_slots_modify, hindex]

theorem node?_modify_self {f : Forest W} {v : View} {node : Node W} (h : f.node? v = some node)
    (change : Node W → Node W) : (f.modify v change).node? v = some (change node) := by
  simp [node?_modify, h]

theorem node?_modify_of_ne {v w : View} (h : w ≠ v) (f : Forest W) (change : Node W → Node W) :
    (f.modify v change).node? w = f.node? w := by
  simp [node?_modify, h]

/-- What becomes of the node of a view does not concern the widgets of others. -/
theorem widget?_modify_of_ne {v w : View} (h : w ≠ v) (f : Forest W) (change : Node W → Node W) :
    (f.modify v change).widget? w = f.widget? w := by
  rw [widget?, widget?, node?_modify_of_ne h]

theorem pending?_modify (f : Forest W) (v w : View) (change : Node W → Node W) :
    (f.modify v change).pending? w =
      if w = v then (f.node? w).bind fun node ↦ (change node).invalidated else f.pending? w := by
  unfold pending?
  rw [node?_modify]
  split
  · rw [Option.bind_map]
    rfl
  · rfl

/-- A change matters only at the node that is changed. -/
theorem modify_congr {f : Forest W} {v : View} {change change' : Node W → Node W}
    (h : ∀ node, f.node? v = some node → change node = change' node) :
    f.modify v change = f.modify v change' := by
  unfold modify
  by_cases hzero : v.index = 0
  · rw [if_pos hzero, if_pos hzero]
  · rw [if_neg hzero, if_neg hzero]
    congr 1
    apply Array.ext_getElem?
    intro slot
    rw [Array.getElem?_modify, Array.getElem?_modify]
    by_cases hslot : v.index = slot
    · rw [if_pos hslot, if_pos hslot]
      rcases hnode : f.slots[slot]? with _ | _ | node
      · rfl
      · rfl
      · have hview : f.node? v = some node := node?_eq_some_iff.mpr ⟨hzero, hslot ▸ hnode⟩
        simp [h node hview]
    · rw [if_neg hslot, if_neg hslot]

@[simp]
theorem contains_modify (f : Forest W) (v w : View) (change : Node W → Node W) :
    (f.modify v change).contains w = f.contains w := by
  unfold contains
  rw [node?_modify]
  split <;> simp

/-! ## Freeing and filling slots -/

theorem free_eq_ok {f g : Forest W} {v : View} {node : Node W} :
    f.free v = .ok (node, g) ↔ f.node? v = some node ∧
      { f with slots := f.slots.setIfInBounds v.index none, vacant := v.index :: f.vacant } = g := by
  unfold free
  simp only [bind_eq_ok, read_eq_ok, pure, Except.pure, Except.ok.injEq, Prod.mk.injEq]
  constructor
  · rintro ⟨found, hfound, rfl, hg⟩
    exact ⟨hfound, hg⟩
  · rintro ⟨hnode, hg⟩
    exact ⟨node, hnode, rfl, hg⟩

theorem node?_of_free {f g : Forest W} {v : View} {node : Node W} (h : f.free v = .ok (node, g))
    (w : View) : g.node? w = if w = v then none else f.node? w := by
  obtain ⟨-, rfl⟩ := free_eq_ok.mp h
  unfold node?
  by_cases hview : w = v
  · subst hview
    by_cases hbound : w.index < f.slots.size <;> simp [hbound]
  · have hindex : v.index ≠ w.index := fun h ↦ hview (View.index_injective h.symm)
    simp [hview, hindex]

/-! ## Forests that are alike -/

/-- The forests differ at most in what the function forgets of their nodes. -/
structure Alike {α : Type} (known : Node W → α) (f g : Forest W) : Prop where
  slots : f.slots.map (Option.map known) = g.slots.map (Option.map known)
  vacant : f.vacant = g.vacant
  lastSerial : f.lastSerial = g.lastSerial

namespace Alike

variable {α β : Type} {known : Node W → α} {f g h : Forest W}

theorem refl (known : Node W → α) (f : Forest W) : Alike known f f := ⟨rfl, rfl, rfl⟩

theorem symm (hfg : Alike known f g) : Alike known g f :=
  ⟨hfg.slots.symm, hfg.vacant.symm, hfg.lastSerial.symm⟩

theorem trans (hfg : Alike known f g) (hgh : Alike known g h) : Alike known f h :=
  ⟨hfg.slots.trans hgh.slots, hfg.vacant.trans hgh.vacant, hfg.lastSerial.trans hgh.lastSerial⟩

instance : IsPreorder (Forest W) (Alike known) where
  refl := refl known
  trans _ _ _ := trans

theorem getElem?_slots (hfg : Alike known f g) (slot : Nat) :
    f.slots[slot]?.map (Option.map known) = g.slots[slot]?.map (Option.map known) := by
  simpa using congrArg (fun slots ↦ slots[slot]?) hfg.slots

theorem node? (hfg : Alike known f g) (v : View) :
    (f.node? v).map known = (g.node? v).map known := by
  have hslot := hfg.getElem?_slots v.index
  unfold Forest.node?
  by_cases hzero : v.index = 0
  · simp [hzero]
  · rw [if_neg hzero, if_neg hzero, ← Option.join_map_eq_map_join, hslot,
      Option.join_map_eq_map_join]

theorem exists_node? (hfg : Alike known f g) {v : View} {node : Node W} (hv : f.node? v = some node) :
    ∃ other, g.node? v = some other ∧ known other = known node := by
  have hnode := hfg.node? v
  rw [hv, Option.map_some] at hnode
  exact Option.map_eq_some_iff.mp hnode.symm

/-- What is read off the known part of a node is the same. -/
theorem bind_node? (hfg : Alike known f g) (field : α → Option β) (v : View) :
    ((f.node? v).bind fun node ↦ field (known node)) = (g.node? v).bind fun node ↦ field (known node) := by
  have hv := congrArg (Option.bind · field) (hfg.node? v)
  simpa [Option.bind_map, Function.comp_def] using hv

theorem contains (hfg : Alike known f g) (v : View) : f.contains v = g.contains v := by
  simpa [Forest.contains] using congrArg Option.isSome (hfg.node? v)

/-- Forests that are alike stay so when more of the nodes is forgotten. -/
theorem map (hfg : Alike known f g) (fewer : α → β) : Alike (fun node ↦ fewer (known node)) f g := by
  refine ⟨?_, hfg.vacant, hfg.lastSerial⟩
  have hslots := congrArg (Array.map (Option.map fewer)) hfg.slots
  simpa [Function.comp_def] using hslots

/-- A change that only concerns what is forgotten. -/
theorem modify {change : Node W → Node W} (hchange : ∀ node, known (change node) = known node)
    (f : Forest W) (v : View) : Alike known f (f.modify v change) := by
  refine ⟨?_, by simp, by simp⟩
  apply Array.ext_getElem?
  intro slot
  simp only [Array.getElem?_map, getElem?_slots_modify]
  split
  · rcases f.slots[slot]? with _ | _ | node <;> simp [hchange]
  · rfl

theorem of_modify {change : Node W → Node W} {v : View}
    (hchange : ∀ node, known (change node) = known node) (h : Alike known (f.modify v change) g) :
    Alike known f g :=
  (modify hchange f v).trans h

theorem update {change : Node W → Node W} (hchange : ∀ node, known (change node) = known node)
    {v : View} (hg : f.update v change = .ok g) : Alike known f g := by
  obtain ⟨-, rfl⟩ := update_eq_ok.mp hg
  exact modify hchange f v

/-- A sequence of changes, each of which only concerns what is forgotten. -/
theorem foldl {ι : Type} {step : Forest W → ι → Forest W} (hstep : ∀ f i, Alike known f (step f i))
    (is : List ι) (f : Forest W) : Alike known f (is.foldl step f) := by
  induction is generalizing f with
  | nil => exact refl known f
  | cons i is ih => exact (hstep f i).trans (ih (step f i))

end Alike

end Forest

end RetainedUi
