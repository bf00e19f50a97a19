import RetainedUi.Proofs.Forest.Answers
import RetainedUi.Proofs.Forest.Reachable

/-!
# The window and the root that views know

A view that was asked for its window or for its root keeps the answer. Both depend on the superviews and the
roles of the view and its ancestors, and on nothing else. A view that gains or loses its superview is an
ancestor of its own family and of no other view, and just this family forgets what it knows.

So no answer survives that a changed link has made wrong, and a view that is destroyed is known to nobody who
is left: whoever knew it was below it.
-/

namespace RetainedUi.Forest

variable {W : Type} {f g : Forest W}

/-! ## Windows and roots -/

def role? (f : Forest W) (v : View) : Option Role := (f.node? v).map (·.role)

/-- The first view is the topmost one at or above the second. -/
structure IsRootOf (f : Forest W) (root v : View) : Prop where
  inFamily : f.InFamily root v
  superview : f.superview? root = none

/-- The first view is the closest one with the window role at or above the second: every other one is above
it. -/
structure IsClosestWindow (f : Forest W) (window v : View) : Prop where
  inFamily : f.InFamily window v
  role : f.role? window = some .window
  above : ∀ x, f.InFamily x v → f.role? x = some .window → f.InFamily x window

/-- The first view is the window of the second: the closest one at or above it, or the root if there is
none. -/
def IsWindowOf (f : Forest W) (window v : View) : Prop :=
  f.IsClosestWindow window v ∨ (∀ x, f.InFamily x v → f.role? x ≠ some .window) ∧ f.IsRootOf window v

theorem role?_of_node? {v : View} {node : Node W} (h : f.node? v = some node) : f.role? v = some node.role := by
  rw [role?, h, Option.map_some]

theorem WellFormed.inFamily_antisymm (hf : f.WellFormed) {v w : View} (hvw : f.InFamily v w)
    (hwv : f.InFamily w v) : v = w := by
  rcases inFamily_iff_eq_or_superview.mp hvw with heq | ⟨p, hp, hvp⟩
  · exact heq
  · exact (hf.not_inFamily_of_above hp (hwv.trans hvp)).elim

section

variable {v above : View}

theorem inFamily_iff_of_superview? (hup : f.superview? v = some above) (x : View) :
    f.InFamily x v ↔ x = v ∨ f.InFamily x above := by
  rw [inFamily_iff_eq_or_superview, hup]
  simp

theorem inFamily_iff_of_root (hroot : f.superview? v = none) (x : View) : f.InFamily x v ↔ x = v := by
  rw [inFamily_iff_eq_or_superview, hroot]
  simp

theorem isRootOf_iff_of_root (hroot : f.superview? v = none) (x : View) : f.IsRootOf x v ↔ x = v := by
  constructor
  · exact fun h ↦ (inFamily_iff_of_root hroot x).mp h.inFamily
  · rintro rfl
    exact ⟨.refl, hroot⟩

theorem isRootOf_iff_of_superview? (hup : f.superview? v = some above) (x : View) :
    f.IsRootOf x v ↔ f.IsRootOf x above := by
  constructor
  · rintro ⟨hfamily, hroot⟩
    rcases (inFamily_iff_of_superview? hup x).mp hfamily with rfl | hfamily
    · cases hup.symm.trans hroot
    · exact ⟨hfamily, hroot⟩
  · exact fun h ↦ ⟨h.inFamily.tail hup, h.superview⟩

theorem isWindowOf_iff_of_window (hf : f.WellFormed) (hrole : f.role? v = some .window) (x : View) :
    f.IsWindowOf x v ↔ x = v := by
  constructor
  · rintro (hclosest | ⟨hnone, -⟩)
    · exact hf.inFamily_antisymm hclosest.inFamily (hclosest.above v .refl hrole)
    · exact (hnone v .refl hrole).elim
  · rintro rfl
    exact .inl ⟨.refl, hrole, fun _ hfamily _ ↦ hfamily⟩

variable (hplain : f.role? v = some .plain)
include hplain

theorem isWindowOf_iff_of_root (hroot : f.superview? v = none) (x : View) : f.IsWindowOf x v ↔ x = v := by
  constructor
  · rintro (hclosest | ⟨-, htop⟩)
    · exact (inFamily_iff_of_root hroot x).mp hclosest.inFamily
    · exact (inFamily_iff_of_root hroot x).mp htop.inFamily
  · rintro rfl
    refine .inr ⟨fun y hy ↦ ?_, .refl, hroot⟩
    rw [(inFamily_iff_of_root hroot y).mp hy, hplain]
    simp

/-- A plain view has the window of its superview. -/
theorem isWindowOf_iff_of_superview? (hup : f.superview? v = some above) (x : View) :
    f.IsWindowOf x v ↔ f.IsWindowOf x above := by
  have hfamily (y : View) (hy : f.role? y = some .window) : f.InFamily y v ↔ f.InFamily y above := by
    rw [inFamily_iff_of_superview? hup]
    refine or_iff_right ?_
    rintro rfl
    cases hplain.symm.trans hy
  unfold IsWindowOf
  refine or_congr ?_ (and_congr ?_ (isRootOf_iff_of_superview? hup x))
  · constructor
    · rintro ⟨hx, hrole, habove⟩
      exact ⟨(hfamily x hrole).mp hx, hrole, fun y hy hwindow ↦ habove y ((hfamily y hwindow).mpr hy) hwindow⟩
    · rintro ⟨hx, hrole, habove⟩
      exact ⟨(hfamily x hrole).mpr hx, hrole, fun y hy hwindow ↦ habove y ((hfamily y hwindow).mp hy) hwindow⟩
  · refine forall_congr' fun y ↦ ?_
    rw [imp_not_comm, imp_not_comm (a := f.InFamily y above)]
    exact forall_congr' fun hy ↦ not_congr (hfamily y hy)

end

/-- The answers depend on the superviews and the roles of the view and its ancestors alone. -/
theorem inFamily_congr {v : View} (hsame : ∀ x, f.InFamily x v → g.superview? x = f.superview? x) (x : View) :
    g.InFamily x v ↔ f.InFamily x v := by
  constructor
  · intro hx
    induction hx using Relation.ReflTransGen.head_induction_on with
    | refl => exact .refl
    | @head p c hlink _ ih =>
      have hlink' : f.Above p c := (hsame c ih).symm.trans hlink
      exact ih.head hlink'
  · intro hx
    induction hx using Relation.ReflTransGen.head_induction_on with
    | refl => exact .refl
    | @head p c hlink hc ih =>
      have hlink' : g.Above p c := (hsame c hc).trans hlink
      exact ih.head hlink'

section

variable {v : View} (hsuperview : ∀ x, f.InFamily x v → g.superview? x = f.superview? x)
include hsuperview

theorem IsRootOf.congr {root : View} (h : f.IsRootOf root v) : g.IsRootOf root v :=
  ⟨(inFamily_congr hsuperview root).mpr h.inFamily, (hsuperview root h.inFamily).trans h.superview⟩

theorem IsWindowOf.congr (hrole : ∀ x, f.InFamily x v → g.role? x = f.role? x) {window : View}
    (h : f.IsWindowOf window v) : g.IsWindowOf window v := by
  have hfamily := inFamily_congr hsuperview
  rcases h with ⟨hwindow, hwindowRole, habove⟩ | ⟨hnone, hroot⟩
  · refine .inl ⟨(hfamily window).mpr hwindow, (hrole window hwindow).trans hwindowRole, fun x hx hxrole ↦ ?_⟩
    rw [hfamily] at hx
    have hup := habove x hx ((hrole x hx).symm.trans hxrole)
    exact (inFamily_congr (fun y hy ↦ hsuperview y (hy.trans hwindow)) x).mpr hup
  · refine .inr ⟨fun x hx ↦ ?_, hroot.congr hsuperview⟩
    rw [hfamily] at hx
    rw [hrole x hx]
    exact hnone x hx

end

/-! ## What the walks upwards find -/

theorem isWindowOf_iff_of_closestWindow (hf : f.WellFormed) {steps : Nat} {v window : View}
    (h : f.closestWindow steps v = .ok window) (x : View) : f.IsWindowOf x v ↔ x = window := by
  induction steps generalizing v with
  | zero => cases h
  | succ steps ih =>
    simp only [closestWindow, bind_eq_ok, read_eq_ok] at h
    obtain ⟨node, hnode, h⟩ := h
    have hrole := role?_of_node? hnode
    have hup := superview?_of_node? hnode
    cases hkind : node.role with
    | window =>
      rw [hkind] at h hrole
      cases h
      exact isWindowOf_iff_of_window hf hrole x
    | plain =>
      rw [hkind] at h hrole
      cases habove : node.superview with
      | none =>
        rw [habove] at h hup
        cases h
        exact isWindowOf_iff_of_root hrole hup x
      | some above =>
        rw [habove] at h hup
        rw [isWindowOf_iff_of_superview? hrole hup]
        exact ih h

/-- The walk ends, since the chain of superviews does. -/
theorem Ascends.exists_closestWindow {v : View} {chain : List View} (h : f.Ascends (some v) chain) {steps : Nat}
    (hsteps : chain.length ≤ steps) : ∃ window, f.closestWindow steps v = .ok window := by
  induction steps generalizing v chain with
  | zero => cases h with | step => simp at hsteps
  | succ steps ih =>
    cases h with
    | @step v node above hnode habove =>
      simp only [closestWindow, read_eq_ok.mpr hnode, bind, Except.bind]
      cases node.role with
      | window => exact ⟨v, rfl⟩
      | plain =>
        cases hup : node.superview with
        | none => exact ⟨v, rfl⟩
        | some p => exact ih (hup ▸ habove) (by simpa using hsteps)

/-- The root stands last on a chain of superviews. -/
theorem Ascends.isRootOf_iff {v : View} {chain : List View} (h : f.Ascends (some v) chain) (x : View) :
    f.IsRootOf x v ↔ chain.getLast? = some x := by
  generalize hstart : some v = start at h
  induction h generalizing v with
  | done => cases hstart
  | @step v node above hnode habove ih =>
    cases hstart
    have hup := superview?_of_node? hnode
    cases hsuperview : node.superview with
    | none =>
      rw [hsuperview] at hup habove
      cases habove
      rw [isRootOf_iff_of_root hup, List.getLast?_singleton, Option.some.injEq, eq_comm]
    | some p =>
      rw [hsuperview] at hup
      rw [isRootOf_iff_of_superview? hup, ih hsuperview.symm]
      cases above with
      | nil =>
        rw [hsuperview] at habove
        cases habove
      | cons first rest => rw [List.getLast?_cons_cons]

/-! ## Forgetting -/

/-- The window and the root that a view knows. -/
def ancestorCaches (f : Forest W) (v : View) : Option View × Option View :=
  ((f.node? v).map Node.ancestorCaches).getD (none, none)

theorem ancestorCaches_of_node? {v : View} {node : Node W} (h : f.node? v = some node) :
    f.ancestorCaches v = node.ancestorCaches := by
  rw [ancestorCaches, h, Option.map_some, Option.getD_some]

theorem Alike.ancestorCaches (h : Alike Node.ancestorCaches f g) (v : View) :
    f.ancestorCaches v = g.ancestorCaches v := by
  have hv : (f.node? v).map Node.ancestorCaches = (g.node? v).map Node.ancestorCaches := h.node? v
  rw [Forest.ancestorCaches, Forest.ancestorCaches, hv]

theorem Alike.role? (h : Alike Node.role f g) (v : View) : f.role? v = g.role? v := h.node? v

theorem ancestorCaches_foldl_clear (ps : List Placed) (f : Forest W) (w : View) :
    (ps.foldl (fun f p ↦ f.modify p.view fun node ↦ { node with windowCache := none, rootCache := none })
      f).ancestorCaches w = if w ∈ ps.map Placed.view then (none, none) else f.ancestorCaches w := by
  induction ps generalizing f with
  | nil => simp
  | cons p ps ih =>
    rw [List.foldl_cons, ih, List.map_cons]
    by_cases hmem : w ∈ ps.map Placed.view
    · rw [if_pos hmem, if_pos (List.mem_cons_of_mem _ hmem)]
    · rw [if_neg hmem]
      unfold ancestorCaches
      rw [node?_modify]
      by_cases hview : w = p.view
      · subst hview
        rw [if_pos rfl, if_pos List.mem_cons_self]
        cases f.node? p.view <;> rfl
      · have hout : w ∉ p.view :: ps.map Placed.view := List.not_mem_cons_of_ne_of_not_mem hview hmem
        rw [if_neg hview, if_neg hout]

/-- After a link was changed, the family of the lower view has forgotten what it knew, and no other view
has. -/
theorem ancestorCaches_of_relinked (hf : f.WellFormed) {parent child : View} {frame : Rect}
    (h : f.relinked parent child frame = .ok g) (w : View) :
    (f.InFamily child w → g.ancestorCaches w = (none, none)) ∧
      (¬ f.InFamily child w → g.ancestorCaches w = f.ancestorCaches w) := by
  simp only [relinked, bind_eq_ok] at h
  obtain ⟨cleared, hcleared, unknown, hunknown, painted, hpainted, h⟩ := h
  have hleaves := alike_of_clearLeafCaches hcleared
  have hbefore : f.ancestorCaches w = cleared.ancestorCaches w :=
    (hleaves.map Node.ancestorCaches).ancestorCaches w
  have hbehind : unknown.ancestorCaches w = g.ancestorCaches w :=
    (((alike_of_invalidate hpainted).map Node.ancestorCaches).trans
      ((alike_of_requestLayout h).map Node.ancestorCaches)).ancestorCaches w
  simp only [clearAncestorCaches, bind_eq_ok, pure, Except.pure, Except.ok.injEq] at hunknown
  obtain ⟨family, hfamily, rfl⟩ := hunknown
  have hlinks : Alike Node.links f cleared := hleaves.map Node.links
  have hmem : w ∈ family.map Placed.view ↔ f.InFamily child w := by
    rw [(hlinks.wellFormed hf).mem_family_iff hfamily, hlinks.inFamily]
  rw [← hbehind, ancestorCaches_foldl_clear, hbefore, ← hmem]
  exact ⟨fun h ↦ if_pos h, fun h ↦ if_neg h⟩

/-! ## Coherence -/

/-- The windows and roots that views know are those that a walk upwards would find. -/
structure AncestorCoherent (f : Forest W) : Prop where
  window : ∀ v window, (f.ancestorCaches v).1 = some window → f.IsWindowOf window v
  root : ∀ v root, (f.ancestorCaches v).2 = some root → f.IsRootOf root v

namespace AncestorCoherent

variable (hcoherent : f.AncestorCoherent)
include hcoherent

/-- What is known stays right if it is only known to views whose ancestors have kept their superviews and
roles. -/
theorem of_kept (hkept : ∀ v, g.ancestorCaches v ≠ (none, none) → g.ancestorCaches v = f.ancestorCaches v ∧
    ∀ x, f.InFamily x v → g.superview? x = f.superview? x ∧ g.role? x = f.role? x) : g.AncestorCoherent := by
  constructor
  · intro v window hwindow
    obtain ⟨hknown, hsame⟩ := hkept v fun hnone ↦ by simp [hnone] at hwindow
    exact (hcoherent.window v window (hknown ▸ hwindow)).congr (fun x hx ↦ (hsame x hx).1) fun x hx ↦ (hsame x hx).2
  · intro v root hroot
    obtain ⟨hknown, hsame⟩ := hkept v fun hnone ↦ by simp [hnone] at hroot
    exact (hcoherent.root v root (hknown ▸ hroot)).congr fun x hx ↦ (hsame x hx).1

theorem of_alike (h : Alike Node.standing f g) : g.AncestorCoherent := by
  have hlinks : Alike Node.links f g := h.map fun standing ↦ standing.1.1
  have hrole : Alike Node.role f g := h.map fun standing ↦ standing.2.1
  have hcaches : Alike Node.ancestorCaches f g := h.map fun standing ↦ standing.2.2
  exact hcoherent.of_kept fun v _ ↦
    ⟨(hcaches.ancestorCaches v).symm, fun x _ ↦ ⟨(hlinks.superview? x).symm, (hrole.role? x).symm⟩⟩

/-- A query only adds the answer that its own walk has found. -/
theorem of_answered {v : View} {change : Node W → Node W} {node : Node W} (hnode : f.node? v = some node)
    (hsame : ∀ node, (change node).links = node.links ∧ (change node).role = node.role)
    (hwindow : ∀ window, (change node).windowCache = some window → f.IsWindowOf window v)
    (hroot : ∀ root, (change node).rootCache = some root → f.IsRootOf root v) :
    (f.modify v change).AncestorCoherent := by
  have hlinks : Alike Node.links f (f.modify v change) := .modify (fun node ↦ (hsame node).1) f v
  have hrole : Alike Node.role f (f.modify v change) := .modify (fun node ↦ (hsame node).2) f v
  have hsuperview (w x : View) (_ : f.InFamily x w) : (f.modify v change).superview? x = f.superview? x :=
    (hlinks.superview? x).symm
  have hroles (w x : View) (_ : f.InFamily x w) : (f.modify v change).role? x = f.role? x := (hrole.role? x).symm
  have hcaches (w : View) : (f.modify v change).ancestorCaches w =
      if w = v then (change node).ancestorCaches else f.ancestorCaches w := by
    by_cases hview : w = v
    · subst hview
      rw [if_pos rfl, ancestorCaches_of_node? (node?_modify_self hnode change)]
    · rw [if_neg hview, ancestorCaches, node?_modify_of_ne hview, ancestorCaches]
  constructor
  · intro w window hknown
    rw [hcaches] at hknown
    refine IsWindowOf.congr (hsuperview w) (hroles w) ?_
    split at hknown
    · subst w
      exact hwindow window hknown
    · exact hcoherent.window w window hknown
  · intro w root hknown
    rw [hcaches] at hknown
    refine IsRootOf.congr (hsuperview w) ?_
    split at hknown
    · subst w
      exact hroot root hknown
    · exact hcoherent.root w root hknown

theorem of_windowOf (hf : f.WellFormed) {v window : View} (h : f.windowOf v = .ok (window, g)) :
    g.AncestorCoherent := by
  simp only [windowOf, bind_eq_ok, read_eq_ok] at h
  obtain ⟨node, hnode, h⟩ := h
  cases hcache : node.windowCache with
  | some known =>
    rw [hcache] at h
    cases h
    exact hcoherent
  | none =>
    rw [hcache] at h
    obtain ⟨found, hfound, h⟩ := bind_eq_ok.mp h
    cases h
    refine hcoherent.of_answered hnode (fun _ ↦ ⟨rfl, rfl⟩) ?_ fun root hroot ↦ ?_
    · rintro _ ⟨⟩
      exact (isWindowOf_iff_of_closestWindow hf hfound _).mpr rfl
    · exact hcoherent.root v root (by rw [ancestorCaches_of_node? hnode]; exact hroot)

theorem of_rootOf (hf : f.WellFormed) {v root : View} (h : f.rootOf v = .ok (root, g)) : g.AncestorCoherent := by
  simp only [rootOf, bind_eq_ok, read_eq_ok] at h
  obtain ⟨node, hnode, h⟩ := h
  cases hcache : node.rootCache with
  | some known =>
    rw [hcache] at h
    cases h
    exact hcoherent
  | none =>
    rw [hcache] at h
    obtain ⟨above, habove, h⟩ := bind_eq_ok.mp h
    cases h
    refine hcoherent.of_answered hnode (fun _ ↦ ⟨rfl, rfl⟩) (fun window hwindow ↦ ?_) ?_
    · exact hcoherent.window v window (by rw [ancestorCaches_of_node? hnode]; exact hwindow)
    · rintro _ ⟨⟩
      rw [(hf.superviews_eq_ok_iff.mp habove).isRootOf_iff, List.getLast?_cons]

/-- A changed link matters to the family of its lower view only. -/
theorem of_relinked {linked : Forest W} {parent child : View} {frame : Rect} (hlinked : linked.WellFormed)
    (h : linked.relinked parent child frame = .ok g)
    (halike : Alike (fun node ↦ (node.role, node.ancestorCaches)) f linked)
    (hsuperview : ∀ x, x ≠ child → linked.superview? x = f.superview? x)
    (hbelow : ∀ v, f.InFamily child v → linked.InFamily child v) : g.AncestorCoherent := by
  have hlinks : Alike Node.links linked g := (relinks_of_relinked hlinked h).alike
  have hrole : Alike Node.role f linked := halike.map Prod.fst
  have hcaches : Alike Node.ancestorCaches f linked := halike.map Prod.snd
  have hrole' : Alike Node.role linked g := (alike_of_relinked h).map Node.role
  refine hcoherent.of_kept fun v hknown ↦ ?_
  obtain ⟨hforgotten, hkept⟩ := ancestorCaches_of_relinked hlinked h v
  have hapart : ¬ linked.InFamily child v := fun hfamily ↦ hknown (hforgotten hfamily)
  refine ⟨(hkept hapart).trans (hcaches.ancestorCaches v).symm, fun x hx ↦ ⟨?_, ?_⟩⟩
  · have hne : x ≠ child := by
      rintro rfl
      exact hapart (hbelow v hx)
    rw [← hlinks.superview?, hsuperview x hne]
  · rw [← hrole'.role?, ← hrole.role?]

variable (hf : f.WellFormed)
include hf

theorem of_addView {parent child : View} (h : f.addView parent child = .ok (.ok g)) : g.AncestorCoherent := by
  obtain ⟨hparent, hchild, hroot, hout, frame, hg⟩ := addView_eq_ok hf h
  have halike : Alike (fun node ↦ (node.role, node.ancestorCaches)) f (f.link parent child) :=
    (Alike.modify (fun _ ↦ by rfl) f child).trans (Alike.modify (fun _ ↦ by rfl) _ parent)
  have hsuperview : ∀ x, x ≠ child → (f.link parent child).superview? x = f.superview? x := fun x hx ↦ by
    rw [superview?_link hchild, if_neg hx]
  refine hcoherent.of_relinked (wellFormed_link hf hparent hchild hroot hout) hg halike hsuperview ?_
  -- Links are only added, so the family of the child only grows.
  refine fun v ↦ Relation.ReflTransGen.mono (fun p c hlink ↦ ?_) child v
  have hne : c ≠ child := by
    rintro rfl
    rw [Above, hroot] at hlink
    cases hlink
  exact (hsuperview c hne).trans hlink

theorem of_removeFromSuperview {v : View} (h : f.removeFromSuperview v = .ok g) : g.AncestorCoherent := by
  obtain ⟨-, ⟨-, rfl⟩ | ⟨parent, hup, frame, hg⟩⟩ := removeFromSuperview_eq_ok h
  · exact hcoherent
  · have halike : Alike (fun node ↦ (node.role, node.ancestorCaches)) f (f.unlink parent v) :=
      (Alike.modify (fun _ ↦ by rfl) f v).trans (Alike.modify (fun _ ↦ by rfl) _ parent)
    have hsuperview : ∀ x, x ≠ v → (f.unlink parent v).superview? x = f.superview? x := fun x hx ↦ by
      rw [superview?_unlink, if_neg hx]
    exact hcoherent.of_relinked (wellFormed_unlink hf hup) hg halike hsuperview fun w ↦ (inFamily_unlink hf hup w).mpr

theorem of_destroy {v : View} (h : f.destroy v = .ok g) : g.AncestorCoherent := by
  obtain ⟨-, rfl⟩ | ⟨mid, freed, hmid, hwell, hroot, hfreed, hmem⟩ := destroy_eq_ok hf h
  · exact hcoherent
  · refine (hcoherent.of_removeFromSuperview hf hmid).of_kept fun w hknown ↦ ?_
    have hw : w ∉ freed := by
      intro hw
      rw [ancestorCaches, hfreed.node?, if_pos hw] at hknown
      exact hknown rfl
    refine ⟨by rw [ancestorCaches, hfreed.node?, if_neg hw, ancestorCaches], fun x hx ↦ ?_⟩
    -- Whatever is below a freed view is freed as well.
    have hx' : x ∉ freed := fun hxfreed ↦ hw ((hmem w).mpr (((hmem x).mp hxfreed).trans hx))
    rw [hfreed.superview?, if_neg hx', role?, hfreed.node?, if_neg hx']
    exact ⟨rfl, rfl⟩

theorem of_insert (frame : Rect) (role : Role) : (f.insert (.detached frame role)).2.AncestorCoherent := by
  refine hcoherent.of_kept fun v hknown ↦ ?_
  have hold : v ≠ (f.insert (.detached frame role)).1 := by
    rintro rfl
    rw [ancestorCaches, node?_insert hf, if_pos rfl] at hknown
    exact hknown rfl
  have hcaches : (f.insert (.detached frame role)).2.ancestorCaches v = f.ancestorCaches v := by
    rw [ancestorCaches, node?_insert hf, if_neg hold, ancestorCaches]
  refine ⟨hcaches, fun x hx ↦ ⟨superview?_insert hf rfl x, ?_⟩⟩
  have hx' : x ≠ (f.insert (.detached frame role)).1 := by
    rintro rfl
    have hvacant := node?_insert_eq_none hf (Node.detached frame role : Node W)
    rcases Relation.ReflTransGen.cases_head hx with rfl | ⟨c, hlink, -⟩
    · exact hold rfl
    · obtain ⟨node, hnode⟩ := contains_iff.mp (hf.contains_superview hlink)
      rw [hvacant] at hnode
      cases hnode
  rw [role?, node?_insert hf, if_neg hx', role?]

theorem of_reshapes (h : Reshapes f g) : g.AncestorCoherent := by
  cases h with
  | rearrange => exact hcoherent.of_kept fun v _ ↦ ⟨rfl, fun x _ ↦ ⟨rfl, rfl⟩⟩
  | grow =>
    refine hcoherent.of_kept fun v _ ↦ ⟨?_, fun x _ ↦ ⟨?_, ?_⟩⟩
    · rw [ancestorCaches, node?_grow, ancestorCaches]
    · rw [superview?, node?_grow, superview?]
    · rw [role?, node?_grow, role?]
  | insert frame role => exact hcoherent.of_insert hf frame role
  | addView h => exact hcoherent.of_addView hf h
  | removeFromSuperview h => exact hcoherent.of_removeFromSuperview hf h
  | destroy h => exact hcoherent.of_destroy hf h

theorem step (h : Step f g) : g.AncestorCoherent := by
  rcases h.cases_standing with h | ⟨v, leaves, h⟩ | ⟨v, window, h⟩ | ⟨v, root, h⟩ | h
  · exact hcoherent.of_reshapes hf h
  · have halike := alike_of_leafViews h
    have hlinks : Alike Node.links f g := halike.map Node.links
    have hrole : Alike Node.role f g := halike.map Node.role
    have hcaches : Alike Node.ancestorCaches f g := halike.map Node.ancestorCaches
    exact hcoherent.of_kept fun v _ ↦
      ⟨(hcaches.ancestorCaches v).symm, fun x _ ↦ ⟨(hlinks.superview? x).symm, (hrole.role? x).symm⟩⟩
  · exact hcoherent.of_windowOf hf h
  · exact hcoherent.of_rootOf hf h
  · exact hcoherent.of_alike h

end AncestorCoherent

theorem ancestorCoherent_empty : (empty : Forest W).AncestorCoherent := by
  constructor
  · intro v window h
    rw [ancestorCaches, node?_empty] at h
    cases h
  · intro v root h
    rw [ancestorCaches, node?_empty] at h
    cases h

/-- Views know nothing wrong about windows and roots at any point of a run. -/
theorem reachable_ancestorCoherent (hf : Reaches empty f) : f.AncestorCoherent := by
  have hboth : f.WellFormed ∧ f.AncestorCoherent := by
    apply hf.preserves (P := fun f ↦ f.WellFormed ∧ f.AncestorCoherent)
    · intro f g hboth hstep
      exact ⟨hstep.wellFormed hboth.1, hboth.2.step hboth.1 hstep⟩
    · exact ⟨wellFormed_empty, ancestorCoherent_empty⟩
  exact hboth.2

/-! ## The answers -/

namespace WellFormed

variable (hf : f.WellFormed) {v : View} (hv : f.contains v = true)
include hf hv

theorem exists_closestWindow : ∃ window, f.closestWindow f.slots.size v = .ok window := by
  obtain ⟨chain, hchain⟩ := hf.exists_ascends hv
  exact hchain.exists_closestWindow (length_le_size_slots (hchain.nodup hf) hchain.contains)

theorem exists_superviews : ∃ above, f.superviews v = .ok above := by
  obtain ⟨chain, hchain⟩ := hf.exists_ascends hv
  cases hchain with
  | step hnode habove => exact ⟨_, hf.superviews_eq_ok_iff.mpr (.step hnode habove)⟩

end WellFormed

namespace AncestorCoherent

variable (hcoherent : f.AncestorCoherent) (hf : f.WellFormed) {v : View} (hv : f.contains v = true)
include hcoherent hf hv

/-- The query answers with the window of the view, known or not. -/
theorem exists_windowOf : ∃ window g, f.windowOf v = .ok (window, g) ∧ ∀ x, f.IsWindowOf x v ↔ x = window := by
  obtain ⟨node, hnode⟩ := contains_iff.mp hv
  obtain ⟨found, hfound⟩ := hf.exists_closestWindow hv
  have hunique := isWindowOf_iff_of_closestWindow hf hfound
  cases hcache : node.windowCache with
  | none =>
    refine ⟨found, f.modify v fun node ↦ { node with windowCache := some found }, ?_, hunique⟩
    simp only [windowOf, read_eq_ok.mpr hnode, hcache, hfound, bind, Except.bind]
    rfl
  | some known =>
    have hknown : f.IsWindowOf known v :=
      hcoherent.window v known (by rw [ancestorCaches_of_node? hnode]; exact hcache)
    obtain rfl : known = found := (hunique known).mp hknown
    refine ⟨known, f, ?_, hunique⟩
    simp only [windowOf, read_eq_ok.mpr hnode, hcache, bind, Except.bind]
    rfl

theorem exists_rootOf : ∃ root g, f.rootOf v = .ok (root, g) ∧ ∀ x, f.IsRootOf x v ↔ x = root := by
  obtain ⟨node, hnode⟩ := contains_iff.mp hv
  obtain ⟨above, habove⟩ := hf.exists_superviews hv
  have hunique (x : View) : f.IsRootOf x v ↔ x = above.getLast?.getD v := by
    rw [(hf.superviews_eq_ok_iff.mp habove).isRootOf_iff, List.getLast?_cons, Option.some.injEq, eq_comm]
  cases hcache : node.rootCache with
  | none =>
    refine ⟨_, f.modify v fun node ↦ { node with rootCache := some (above.getLast?.getD v) }, ?_, hunique⟩
    simp only [rootOf, read_eq_ok.mpr hnode, hcache, habove, bind, Except.bind]
    rfl
  | some known =>
    have hknown : f.IsRootOf known v :=
      hcoherent.root v known (by rw [ancestorCaches_of_node? hnode]; exact hcache)
    rw [← (hunique known).mp hknown] at hunique
    refine ⟨known, f, ?_, hunique⟩
    simp only [rootOf, read_eq_ok.mpr hnode, hcache, bind, Except.bind]
    rfl

end AncestorCoherent

/-- In every reachable forest, whatever was asked before, the queries at a live view answer with its window
and its root as the links are now. -/
theorem reachable_windowOf_rootOf (hf : Reaches empty f) {v : View} (hv : f.contains v = true) :
    (∃ window g, f.windowOf v = .ok (window, g) ∧ ∀ x, f.IsWindowOf x v ↔ x = window) ∧
    ∃ root g, f.rootOf v = .ok (root, g) ∧ ∀ x, f.IsRootOf x v ↔ x = root := by
  have hwell : f.WellFormed := reachable_wellFormed hf
  have hcoherent : f.AncestorCoherent := reachable_ancestorCoherent hf
  exact ⟨hcoherent.exists_windowOf hwell hv, hcoherent.exists_rootOf hwell hv⟩

/-- A view that knew itself for its window and its root answers with the window that it was attached to
since. -/
theorem reachable_windowOf_attached : ∃ (f g h : Forest Unit), Reaches empty f ∧ f.contains ⟨2⟩ = true ∧
    f.superview? ⟨2⟩ = some ⟨1⟩ ∧ f.windowOf ⟨2⟩ = .ok (⟨1⟩, g) ∧ f.rootOf ⟨2⟩ = .ok (⟨1⟩, h) := by
  let apart : Forest Unit := (((empty : Forest Unit).createWindow .zero).2.create .zero).2
  let windowed : Forest Unit := apart.modify ⟨2⟩ fun node ↦ { node with windowCache := some ⟨2⟩ }
  let asked : Forest Unit := windowed.modify ⟨2⟩ fun node ↦ { node with rootCache := some ⟨2⟩ }
  have hwindow : apart.windowOf ⟨2⟩ = .ok (⟨2⟩, windowed) := rfl
  have hroot : windowed.rootOf ⟨2⟩ = .ok (⟨2⟩, asked) := rfl
  have hasked : Reaches empty asked :=
    ((((Reaches.refl empty).step (.createWindow _ .zero)).step (.create _ .zero)).step (.windowOf hwindow)).step
      (.rootOf hroot)
  have hwell : asked.WellFormed := reachable_wellFormed hasked
  have hout : ¬ asked.InFamily ⟨2⟩ ⟨1⟩ := by
    rw [inFamily_iff_eq_or_superview]
    rintro (hsame | ⟨p, hp, -⟩)
    · simp at hsame
    · cases hp
  obtain ⟨f, hf⟩ := hwell.exists_addView rfl rfl rfl hout
  have hreach : Reaches empty f := hasked.step (.addView hf)
  obtain ⟨-, hchild, -, -, frame, hrelinked⟩ := addView_eq_ok hwell hf
  have hlinked := wellFormed_link hwell rfl rfl rfl hout
  have hlinks := (relinks_of_relinked hlinked hrelinked).alike
  have hup : f.superview? ⟨2⟩ = some ⟨1⟩ := by
    rw [← hlinks.superview?, superview?_link hchild, if_pos rfl]
  have htop : f.superview? ⟨1⟩ = none := by
    rw [← hlinks.superview?, superview?_link hchild, if_neg (by decide)]
    rfl
  have hlive : f.contains ⟨2⟩ = true := by
    rw [← hlinks.contains]
    rfl
  have hroles : Alike Node.role asked f :=
    ((Alike.modify (fun _ ↦ by rfl) asked ⟨2⟩).trans (Alike.modify (fun _ ↦ by rfl) _ ⟨1⟩)).trans
      ((alike_of_relinked hrelinked).map Node.role)
  have hplain : f.role? ⟨2⟩ = some .plain := (hroles.role? ⟨2⟩).symm
  have hwindowRole : f.role? ⟨1⟩ = some .window := (hroles.role? ⟨1⟩).symm
  obtain ⟨⟨window, g, hg, hwindows⟩, root, h, hh, hroots⟩ := reachable_windowOf_rootOf hreach hlive
  obtain rfl : ⟨1⟩ = window := by
    rw [← hwindows, isWindowOf_iff_of_superview? hplain hup,
      isWindowOf_iff_of_window (reachable_wellFormed hreach) hwindowRole]
  obtain rfl : ⟨1⟩ = root := by
    rw [← hroots, isRootOf_iff_of_superview? hup, isRootOf_iff_of_root htop]
  exact ⟨f, g, h, hreach, hlive, hup, hg, hh⟩

end RetainedUi.Forest
