import RetainedUi.Proofs.Forest.Answers
import RetainedUi.Proofs.Forest.Reachable
import RetainedUi.Script.Tree

/-!
# Which views may be attached

A view may be put below another one if both are live, the one has no superview yet, and the other is not in its
family. Nothing more is needed for the links to stay a forest, and nothing less would do: a second superview would
break the agreement of the two sides of a link, and a superview in its own family would close a chain.

The conditions are checked in a fixed order, all of them before anything is changed. The first one that fails
names the fault.
-/

namespace RetainedUi

variable {W : Type}

namespace Forest

variable {f g : Forest W} {parent child : View}

/-- The child may become a subview of the parent. -/
structure Admits (f : Forest W) (parent child : View) : Prop where
  parent_live : f.contains parent = true
  child_live : f.contains child = true
  unattached : f.superview? child = none
  /-- The child is neither the parent nor one of its ancestors. -/
  outside : ¬ f.InFamily child parent

/-- The child may not become a subview of the parent, for a reason that is the first to be found. -/
inductive Refuses (f : Forest W) (parent child : View) : Fault → Prop where
  | deadParent (hparent : f.contains parent = false) : Refuses f parent child (.invalidTarget parent)
  | deadChild (hparent : f.contains parent = true) (hchild : f.contains child = false) :
      Refuses f parent child (.invalidTarget child)
  | attached (hparent : f.contains parent = true) {above : View} (hup : f.superview? child = some above) :
      Refuses f parent child (.alreadyAttached child)
  | cycle (hparent : f.contains parent = true) (hchild : f.contains child = true)
      (hroot : f.superview? child = none) (hbelow : f.InFamily child parent) :
      Refuses f parent child (.wouldCycle child)

/-- The second forest has one link more than the first one: the child is the last subview of the parent. -/
structure Attached (f : Forest W) (parent child : View) (g : Forest W) : Prop where
  contains : ∀ v, g.contains v = f.contains v
  superview? : ∀ v, g.superview? v = if v = child then some parent else f.superview? v
  subviewsOf : ∀ v, g.subviewsOf v = if v = parent then f.subviewsOf parent ++ [child] else f.subviewsOf v

/-- A view either may be attached or may not, for one reason. -/
theorem admits_or_refuses (f : Forest W) (parent child : View) :
    f.Admits parent child ∨ ∃ fault, f.Refuses parent child fault := by
  cases hparent : f.contains parent with
  | false => exact .inr ⟨_, .deadParent hparent⟩
  | true =>
    cases hchild : f.contains child with
    | false => exact .inr ⟨_, .deadChild hparent hchild⟩
    | true =>
      cases hup : f.superview? child with
      | some above => exact .inr ⟨_, .attached hparent hup⟩
      | none =>
        by_cases hbelow : f.InFamily child parent
        · exact .inr ⟨_, .cycle hparent hchild hup hbelow⟩
        · exact .inl ⟨hparent, hchild, hup, hbelow⟩

namespace WellFormed

variable (hf : f.WellFormed)
include hf

theorem attached_of_addView (h : f.addView parent child = .ok (.ok g)) : f.Attached parent child g := by
  obtain ⟨hparent, hchild, hroot, hout, frame, hg⟩ := addView_eq_ok hf h
  have hlinks := (relinks_of_relinked (wellFormed_link hf hparent hchild hroot hout) hg).alike
  constructor
  · intro v
    rw [← hlinks.contains, contains_link]
  · intro v
    rw [← hlinks.superview?, superview?_link hchild]
  · intro v
    rw [← hlinks.subviewsOf, subviewsOf_link hparent]

theorem exists_addView_iff : (∃ g, f.addView parent child = .ok (.ok g)) ↔ f.Admits parent child := by
  constructor
  · rintro ⟨g, h⟩
    obtain ⟨hparent, hchild, hroot, hout, -⟩ := addView_eq_ok hf h
    exact ⟨hparent, hchild, hroot, hout⟩
  · intro h
    exact hf.exists_addView h.parent_live h.child_live h.unattached h.outside

theorem addView_of_refuses {fault : Fault} (h : f.Refuses parent child fault) :
    f.addView parent child = .ok (.error fault) := by
  unfold addView
  cases h with
  | deadParent hparent =>
    rw [hparent]
    rfl
  | deadChild hparent hchild =>
    rw [hparent, hchild]
    rfl
  | attached hparent hup =>
    obtain ⟨node, hnode, hup⟩ := superview?_eq_some_iff.mp hup
    rw [hparent, contains_iff.mpr ⟨node, hnode⟩, read_eq_ok.mpr hnode]
    simp only [bind, Except.bind, hup]
    rfl
  | cycle hparent hchild hroot hbelow =>
    obtain ⟨node, hnode⟩ := contains_iff.mp hchild
    obtain ⟨chain, hchain⟩ := hf.exists_ascends hparent
    have hup : node.superview = none := (superview?_of_node? hnode).symm.trans hroot
    have hmem : chain.contains child = true := List.contains_iff_mem.mpr ((hchain.mem_iff child).mpr ⟨_, rfl, hbelow⟩)
    rw [hparent, hchild, read_eq_ok.mpr hnode, hf.lineage_eq_ok_iff.mpr hchain]
    simp only [bind, Except.bind, hup, hmem]
    rfl

end WellFormed

end Forest

namespace Script

variable {s t : Grove W Notebook} {parent child : View}

/-- The forest is all that an attachment changes. -/
theorem attach_eq_ok_iff : attach parent child s = .ok (.ok ()) t ↔
    s.forest.addView parent child = .ok (.ok t.forest) ∧ t = { s with forest := t.forest } := by
  unfold attach
  rcases s.forest.addView parent child with halt | fault | g
  · simp
  · simp
  · constructor
    · intro h
      cases h
      exact ⟨rfl, rfl⟩
    · rintro ⟨hg, ht⟩
      cases hg
      rw [ht]

/-- A view is attached just if it may be, and then a single link is new. A view that may not be attached is refused
with the first reason that applies, and nothing is changed at all. -/
theorem attach_admits_or_refuses (hs : Forest.Reaches .empty s.forest) (parent child : View) :
    ((∃ t, attach parent child s = .ok (.ok ()) t) ↔ s.forest.Admits parent child) ∧
      (∀ t, attach parent child s = .ok (.ok ()) t →
        s.forest.Attached parent child t.forest ∧ t = { s with forest := t.forest }) ∧
      (¬ s.forest.Admits parent child → ∃ fault, s.forest.Refuses parent child fault ∧
        s.forest.addView parent child = .ok (.error fault) ∧ attach parent child s = .ok (.error fault) s) := by
  have hf : s.forest.WellFormed := Forest.reachable_wellFormed hs
  refine ⟨?_, ?_, ?_⟩
  · rw [← hf.exists_addView_iff]
    constructor
    · rintro ⟨t, h⟩
      exact ⟨t.forest, (attach_eq_ok_iff.mp h).1⟩
    · rintro ⟨g, h⟩
      exact ⟨{ s with forest := g }, attach_eq_ok_iff.mpr ⟨h, rfl⟩⟩
  · intro t h
    obtain ⟨hadd, ht⟩ := attach_eq_ok_iff.mp h
    exact ⟨hf.attached_of_addView hadd, ht⟩
  · intro hnot
    obtain ⟨fault, hrefuses⟩ := (s.forest.admits_or_refuses parent child).resolve_left hnot
    have hadd := hf.addView_of_refuses hrefuses
    refine ⟨fault, hrefuses, hadd, ?_⟩
    unfold attach
    rw [hadd]

/-- A view on its own is put below a view two levels down, and the root on top of that view is not. -/
theorem attach_admits_or_refuses_branched : ∃ s t : Grove Unit Notebook,
    s.forest = .branched ∧ attach ⟨5⟩ ⟨7⟩ s = .ok (.ok ()) t ∧ s.forest.Attached ⟨5⟩ ⟨7⟩ t.forest ∧
      s.forest.Refuses ⟨5⟩ ⟨1⟩ (.wouldCycle ⟨1⟩) ∧ attach ⟨5⟩ ⟨1⟩ s = .ok (.error (.wouldCycle ⟨1⟩)) s := by
  have hgrove (f : Forest Unit) : ∃ s : Grove Unit Notebook, s.forest = f := ⟨⟨f, ⟨#[], .blank⟩⟩, rfl⟩
  obtain ⟨s, hforest⟩ := hgrove .branched
  have hs : Forest.Reaches .empty s.forest := hforest ▸ Forest.reaches_branched
  have hadmitted : (Forest.branched.addView ⟨5⟩ ⟨7⟩).map Except.isOk = .ok true := by decide +kernel
  have hrefused : (Forest.branched.addView ⟨5⟩ ⟨1⟩).map Except.isOk = .ok false := by decide +kernel
  have hlive : Forest.branched.contains ⟨5⟩ = true ∧ Forest.branched.contains ⟨1⟩ = true := by decide +kernel
  have hroot : Forest.branched.superview? ⟨1⟩ = none := by decide +kernel
  rw [← hforest] at hadmitted hrefused hlive hroot
  have hattach : ∃ t, attach ⟨5⟩ ⟨7⟩ s = .ok (.ok ()) t := by
    cases hadd : s.forest.addView ⟨5⟩ ⟨7⟩ with
    | error halt => simp [hadd, Except.map] at hadmitted
    | ok answer =>
      cases answer with
      | error fault => simp [hadd, Except.map, Except.isOk, Except.toBool] at hadmitted
      | ok g => exact ⟨{ s with forest := g }, attach_eq_ok_iff.mpr ⟨hadd, rfl⟩⟩
  have hnot : ¬ s.forest.Admits ⟨5⟩ ⟨1⟩ := by
    intro hadmits
    obtain ⟨t, ht⟩ := (attach_admits_or_refuses hs ⟨5⟩ ⟨1⟩).1.mpr hadmits
    simp [(attach_eq_ok_iff.mp ht).1, Except.map, Except.isOk, Except.toBool] at hrefused
  obtain ⟨t, ht⟩ := hattach
  obtain ⟨fault, hreason, -, hsame⟩ := (attach_admits_or_refuses hs ⟨5⟩ ⟨1⟩).2.2 hnot
  have hcycle : fault = .wouldCycle ⟨1⟩ := by
    cases hreason with
    | deadParent hdead => cases hlive.1.symm.trans hdead
    | deadChild _ hdead => cases hlive.2.symm.trans hdead
    | attached _ hup => cases hroot.symm.trans hup
    | cycle => rfl
  rw [hcycle] at hreason hsame
  exact ⟨s, t, hforest, ht, ((attach_admits_or_refuses hs ⟨5⟩ ⟨7⟩).2.1 t ht).1, hreason, hsame⟩

end Script

end RetainedUi
