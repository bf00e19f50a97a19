import Mathlib.Data.List.Nodup
import Mathlib.Order.WellFounded
import RetainedUi.Proofs.Forest.Fields

/-!
# Well-formed forests

A forest is well-formed if its two-sided links agree, no view is listed twice, no chain of superviews
goes on forever, serials tell the views apart, and the store of slots is in order: the first slot holds a
node that is linked to nothing, and what counts as vacant is empty.

Well-formedness depends on nothing but the links, the serials and the vacant slots. So it passes from a
forest to every forest that is alike in these.
-/

namespace RetainedUi.Forest

variable {W : Type}

/-- The first view is the superview of the second one. -/
def Above (f : Forest W) (p c : View) : Prop := f.superview? c = some p

/-- The second view is the first one or lies somewhere below it. -/
def InFamily (f : Forest W) (v x : View) : Prop := Relation.ReflTransGen f.Above v x

/-- The links form a forest, and the slots are in order. -/
structure WellFormed (f : Forest W) : Prop where
  /-- The first slot is occupied by a node that is linked to nothing. -/
  dummy : ∃ node, f.slots[0]? = some (some node) ∧ node.superview = none ∧ node.subviews = []
  vacant : ∀ slot ∈ f.vacant, f.slots[slot]? = some none
  vacant_nodup : f.vacant.Nodup
  serial_le : ∀ v serial, f.serial? v = some serial → serial ≤ f.lastSerial
  serial_inj : ∀ v w serial, f.serial? v = some serial → f.serial? w = some serial → v = w
  /-- The two sides of a link agree. -/
  linked : ∀ p c, f.superview? c = some p ↔ c ∈ f.subviewsOf p
  subviews_nodup : ∀ p, (f.subviewsOf p).Nodup
  /-- Every chain of superviews ends. -/
  rooted : WellFounded f.Above

/-! ## Handles in links -/

theorem contains_of_superview? {f : Forest W} {p c : View} (h : f.superview? c = some p) :
    f.contains c = true := by
  obtain ⟨node, hnode, -⟩ := superview?_eq_some_iff.mp h
  exact contains_iff.mpr ⟨node, hnode⟩

theorem contains_of_mem_subviewsOf {f : Forest W} {p c : View} (h : c ∈ f.subviewsOf p) :
    f.contains p = true := by
  obtain ⟨node, hnode, -⟩ := mem_subviewsOf_iff.mp h
  exact contains_iff.mpr ⟨node, hnode⟩

theorem contains_of_inFamily {f : Forest W} {v x : View} (hv : f.contains v = true) (h : f.InFamily v x) :
    f.contains x = true := by
  cases h with
  | refl => exact hv
  | tail _ hlink => exact contains_of_superview? hlink

namespace WellFormed

variable {f : Forest W} (hf : f.WellFormed)
include hf

theorem contains_superview {p c : View} (h : f.superview? c = some p) : f.contains p = true :=
  contains_of_mem_subviewsOf ((hf.linked p c).mp h)

theorem contains_subview {p c : View} (h : c ∈ f.subviewsOf p) : f.contains c = true :=
  contains_of_superview? ((hf.linked p c).mpr h)

theorem not_transGen_self (v : View) : ¬ Relation.TransGen f.Above v v :=
  fun hv ↦ hf.rooted.transGen.asymmetric v v hv hv

/-- A superview does not lie below its own subview. -/
theorem not_inFamily_of_above {p c : View} (h : f.Above p c) : ¬ f.InFamily c p :=
  fun hfamily ↦ hf.not_transGen_self p (Relation.TransGen.head' h hfamily)

theorem index_vacant_ne_zero {slot : Nat} (hslot : slot ∈ f.vacant) : slot ≠ 0 := by
  intro heq
  subst heq
  obtain ⟨node, hnode, -⟩ := hf.dummy
  rw [hf.vacant 0 hslot] at hnode
  cases hnode

theorem size_slots_ne_zero : f.slots.size ≠ 0 := by
  obtain ⟨node, hnode, -⟩ := hf.dummy
  intro hsize
  rw [Array.getElem?_eq_none (by omega)] at hnode
  cases hnode

end WellFormed

/-! ## Forests with the same links -/

namespace Alike

variable {f g : Forest W} (h : Alike Node.links f g)
include h

theorem superview? (v : View) : f.superview? v = g.superview? v := by
  have hv : (f.node? v).map Node.links = (g.node? v).map Node.links := h.node? v
  unfold Forest.superview?
  cases hf : f.node? v <;> cases hg : g.node? v <;> simp_all [Node.links]

theorem subviewsOf (v : View) : f.subviewsOf v = g.subviewsOf v := by
  have hv : (f.node? v).map Node.links = (g.node? v).map Node.links := h.node? v
  unfold Forest.subviewsOf
  cases hf : f.node? v <;> cases hg : g.node? v <;> simp_all [Node.links]

theorem serial? (v : View) : f.serial? v = g.serial? v := by
  have hv : (f.node? v).map Node.links = (g.node? v).map Node.links := h.node? v
  unfold Forest.serial?
  cases hf : f.node? v <;> cases hg : g.node? v <;> simp_all [Node.links]

theorem above : f.Above = g.Above := by
  funext p c
  unfold Forest.Above
  rw [h.superview? c]

theorem inFamily (v x : View) : f.InFamily v x ↔ g.InFamily v x := by
  unfold InFamily
  rw [h.above]

theorem wellFormed (hf : f.WellFormed) : g.WellFormed where
  dummy := by
    obtain ⟨node, hnode, hup, hdown⟩ := hf.dummy
    have hslot := h.getElem?_slots 0
    rw [hnode] at hslot
    obtain ⟨found, hfound, hsome⟩ := Option.map_eq_some_iff.mp hslot.symm
    obtain ⟨other, rfl, hlinks⟩ := Option.map_eq_some_iff.mp hsome
    obtain ⟨-, hup', hdown'⟩ := Node.links_eq_links_iff.mp hlinks
    exact ⟨other, hfound, hup'.trans hup, hdown'.trans hdown⟩
  vacant := by
    intro slot hslot
    rw [← h.vacant] at hslot
    have hmap := h.getElem?_slots slot
    rw [hf.vacant slot hslot] at hmap
    obtain ⟨found, hfound, hnone⟩ := Option.map_eq_some_iff.mp hmap.symm
    rw [hfound, Option.map_eq_none_iff.mp hnone]
  vacant_nodup := h.vacant ▸ hf.vacant_nodup
  serial_le v serial hv := h.lastSerial ▸ hf.serial_le v serial (h.serial? v ▸ hv)
  serial_inj v w serial hv hw := hf.serial_inj v w serial (h.serial? v ▸ hv) (h.serial? w ▸ hw)
  linked p c := by rw [← h.superview? c, ← h.subviewsOf p, hf.linked p c]
  subviews_nodup p := h.subviewsOf p ▸ hf.subviews_nodup p
  rooted := h.above ▸ hf.rooted

end Alike

/-! ## Chains after a change of one link -/

/-- Chains of superviews still end when links are taken away. -/
theorem rooted_of_fewer {f g : Forest W} (hf : WellFounded f.Above)
    (hfewer : ∀ c p, g.superview? c = some p → f.superview? c = some p) : WellFounded g.Above :=
  Subrelation.wf (fun {p c} h ↦ hfewer c p h) hf

/-- Chains of superviews still end when a view gets a superview that is not in its family. -/
theorem rooted_of_attached {f g : Forest W} {parent child : View} (hf : WellFounded f.Above)
    (hup : ∀ c, g.superview? c = if c = child then some parent else f.superview? c)
    (hout : ¬ f.InFamily child parent) : WellFounded g.Above := by
  -- Outside the family of the child the chains are the old ones.
  have houtside : ∀ x, ¬ f.InFamily child x → Acc g.Above x := by
    intro x
    induction x using hf.induction with
    | _ x ih =>
      intro hx
      apply Acc.intro x
      intro y hy
      have hne : x ≠ child := fun h ↦ hx (h ▸ Relation.ReflTransGen.refl)
      have hold : f.Above y x := by simpa [Above, hup, hne] using hy
      exact ih y hold fun hchild ↦ hx (hchild.tail hold)
  refine ⟨fun x ↦ ?_⟩
  induction x using hf.induction with
  | _ x ih =>
    apply Acc.intro x
    intro y hy
    by_cases hchild : x = child
    · have hy' : parent = y := by simpa [Above, hup, hchild] using hy
      exact hy' ▸ houtside parent hout
    · exact ih y (by simpa [Above, hup, hchild] using hy)

end RetainedUi.Forest
