import RetainedUi.Proofs.Forest.LeafOrder
import RetainedUi.Proofs.Routing.Walks

/-!
# The order of delivery

Among calm receivers, an event goes up from the view of a live redirect or else from its target, and then
up from each leaf of the root. So it is served to the chains of these views one after the other, where only
the first place of a view counts, and where the target of a redirected event is left out.

Every view at or below the root is on the chain of some leaf. Hence an event that is neither redirected nor
stopped reaches all views there that have a receiver.
-/

namespace RetainedUi

variable {W D A : Type}

namespace Routing

/-- Where an event goes first: to the view of a live redirect, or else to its target if that is live. -/
def start? (s : Desk W D A) (e : Event) : Option View :=
  match s.redirects.target? s.forest e.kind with
  | some receiver => some receiver
  | none => e.target.filter s.forest.contains

/-- The target of an event that is redirected, which is left out. -/
def leftOut (s : Desk W D A) (e : Event) : List View :=
  match s.redirects.target? s.forest e.kind with
  | some _ => e.target.toList
  | none => []

/-- The leaves of the root, in the order in which they are offered an event. -/
def leavesOf (f : Forest W) (root : View) : List View :=
  match f.leafViews root with
  | .ok (leaves, _) => leaves.map Placed.view
  | .error _ => []

/-- The views to which an event is served: each at its first place on the chains of where it goes first and
of the leaves, if it is not left out and has a receiver. -/
def order (conduct : HandlingConduct W D A) (s : Desk W D A) (root : View) (e : Event) : List View :=
  (firsts (leftOut s e) (((start? s e).toList ++ leavesOf s.forest root).flatMap (chain s.forest))).filter
    (handles conduct s.forest)

/-! ## Leaves -/

theorem leavesOf_eq {f : Forest W} (hreach : Forest.empty.Reaches f) {root : View} {leaves : List Placed}
    (hroot : f.contains root = true) (hleaves : f.leafViewsUncached root = .ok leaves) :
    leavesOf f root = leaves.map Placed.view := by
  have hcoherent : f.LeafCoherent := Forest.reachable_leafCoherent hreach
  obtain ⟨g, hg⟩ := hcoherent.leafViews_eq hleaves hroot
  rw [leavesOf, hg]

theorem mem_leavesOf_iff {f : Forest W} (hreach : Forest.empty.Reaches f) {root v : View}
    (hroot : f.contains root = true) :
    v ∈ leavesOf f root ↔ f.InFamily root v ∧ f.subviewsOf v = [] := by
  have hf : f.WellFormed := Forest.reachable_wellFormed hreach
  obtain ⟨leaves, hleaves⟩ := hf.exists_leafViewsUncached hroot
  rw [leavesOf_eq hreach hroot hleaves]
  exact hf.mem_leafViewsUncached_iff hroot hleaves

/-- The leaves of the root are still the same after a walk, whether a view knew them or not. -/
theorem leafViews_of_undisturbed {f g : Forest W} {touched : List View} (hreach : Forest.empty.Reaches f)
    (hfg : Undisturbed touched f g) {root : View} (hroot : f.contains root = true) :
    ∃ leaves h, g.leafViews root = .ok (leaves, h) ∧ leaves.map Placed.view = leavesOf f root ∧
      Undisturbed touched f h := by
  have hreach' : Forest.empty.Reaches g := hreach.trans hfg.reaches
  have hf : f.WellFormed := Forest.reachable_wellFormed hreach
  have hg : g.WellFormed := Forest.reachable_wellFormed hreach'
  obtain ⟨leaves, hleaves⟩ := hf.exists_leafViewsUncached hroot
  have hsame : g.leafViewsUncached root = f.leafViewsUncached root := by
    apply Forest.leafViewsUncached_congr hf hg hroot
    intro x hx
    exact ⟨(hfg.contains x).trans (Forest.contains_of_inFamily hroot hx), hfg.subviews x⟩
  have hcoherent : g.LeafCoherent := Forest.reachable_leafCoherent hreach'
  obtain ⟨h, hh⟩ := hcoherent.leafViews_eq (hsame.trans hleaves) ((hfg.contains root).trans hroot)
  have halike := Forest.alike_of_leafViews hh
  have hgh : Undisturbed touched g h :=
    .of_alike ((Forest.Reaches.refl g).step (.leafViews hh)) (halike.map Node.links)
      (halike.map Node.widget)
  exact ⟨leaves, h, hh, (leavesOf_eq hreach hroot hleaves).symm, hfg.trans hgh⟩

/-! ## What the order covers -/

variable {conduct : HandlingConduct W D A}

/-- First comes the chain of where the event goes first, and then what the leaves add to it. -/
theorem order_eq {s : Desk W D A} (hreach : Forest.empty.Reaches s.forest) (root : View) (e : Event) :
    order conduct s root e =
      (((start? s e).toList.flatMap (chain s.forest)).filter fun v ↦ !(leftOut s e).contains v).filter
        (handles conduct s.forest) ++
      (firsts (leftOut s e ++ (start? s e).toList.flatMap (chain s.forest))
        ((leavesOf s.forest root).flatMap (chain s.forest))).filter (handles conduct s.forest) := by
  have hfirst : ((start? s e).toList.flatMap (chain s.forest)).Nodup := by
    cases start? s e with
    | none => exact List.nodup_nil
    | some v => simpa using nodup_chain (Forest.reachable_wellFormed hreach) v
  rw [order, List.flatMap_append, firsts_append hfirst, List.filter_append]

theorem nodup_order (s : Desk W D A) (root : View) (e : Event) : (order conduct s root e).Nodup :=
  ((nodup_eraseDups _).filter _).filter _

/-- A view at or below the root is on the chain of a leaf. -/
theorem exists_mem_chain {f : Forest W} (hreach : Forest.empty.Reaches f) {root v : View}
    (hroot : f.contains root = true) (hv : f.InFamily root v) :
    ∃ leaf ∈ leavesOf f root, v ∈ chain f leaf := by
  have hf : f.WellFormed := Forest.reachable_wellFormed hreach
  have hlive : f.contains v = true := Forest.contains_of_inFamily hroot hv
  obtain ⟨leaf, hleaf, hbelow⟩ := hf.exists_leaf hlive
  refine ⟨leaf, (mem_leavesOf_iff hreach hroot).mpr ⟨hv.trans hbelow, hleaf⟩, ?_⟩
  have hchain := ascends_chain hf (Forest.contains_of_inFamily hlive hbelow)
  exact (hchain.mem_iff v).mpr ⟨leaf, rfl, hbelow⟩

theorem mem_order {s : Desk W D A} (hreach : Forest.empty.Reaches s.forest) {root v : View} {e : Event}
    (hroot : s.forest.contains root = true) (hfree : s.redirects.target? s.forest e.kind = none)
    (hv : s.forest.InFamily root v) (hhandles : handles conduct s.forest v = true) :
    v ∈ order conduct s root e := by
  obtain ⟨leaf, hleaf, hmem⟩ := exists_mem_chain hreach hroot hv
  have hnone : leftOut s e = [] := by rw [leftOut, hfree]
  rw [order, hnone]
  apply List.mem_filter.mpr ⟨List.mem_filter.mpr ⟨List.mem_eraseDups.mpr ?_, rfl⟩, hhandles⟩
  exact List.mem_flatMap.mpr ⟨leaf, List.mem_append_right _ hleaf, hmem⟩

/-! ## One event -/

section

variable {steps : Nat} (hcalm : Calm conduct)
include hcalm

theorem walks_of_live {s : Desk W D (A × List Receipt)} (hreach : Forest.empty.Reaches s.forest)
    (hsteps : s.forest.slots.size ≤ steps) {v : View} (hv : s.forest.contains v = true) {e : Event}
    (hgoes : e.propagating = true) (seen : List View) :
    Walks conduct s.forest seen (chain s.forest v) e s.receipts
      (upwards conduct.recorded steps (some v) e seen s) := by
  have hf : s.forest.WellFormed := Forest.reachable_wellFormed hreach
  exact upwards_recorded hcalm hreach (ascends_chain hf hv) ((length_chain_le hf hv).trans hsteps) hgoes
    (.refl seen s.forest)

theorem toTarget_recorded {s : Desk W D (A × List Receipt)} (hreach : Forest.empty.Reaches s.forest)
    (hsteps : s.forest.slots.size ≤ steps) {e : Event} (hgoes : e.propagating = true) :
    Walks conduct s.forest [] ((e.target.filter s.forest.contains).toList.flatMap (chain s.forest)) e
      s.receipts (toTarget conduct.recorded steps e s) := by
  unfold toTarget
  cases e.target with
  | none => exact ⟨e, [], s, [], rfl, by simp, .refl _ _, .done e, by simp⟩
  | some target =>
    dsimp only
    rw [Pass.bind_get]
    cases hlive : s.forest.contains target with
    | true =>
      rw [if_pos rfl, Option.filter_some_pos hlive, Option.toList_some, List.flatMap_singleton]
      exact walks_of_live hcalm hreach hsteps hlive hgoes []
    | false =>
      rw [Option.filter_some_neg (by simp [hlive])]
      refine ⟨e, [], _, [], rfl, ?_, .refl _ _, .done e, by simp⟩
      rw [List.append_nil]
      rfl

/-- The first phase serves the chain of where the event goes first. -/
theorem direct_recorded {s : Desk W D (A × List Receipt)} (hreach : Forest.empty.Reaches s.forest)
    (hsteps : s.forest.slots.size ≤ steps) {e : Event} (hgoes : e.propagating = true) :
    Walks conduct s.forest (leftOut s e) ((start? s e).toList.flatMap (chain s.forest)) e s.receipts
      (direct conduct.recorded steps e s) := by
  rw [direct_eq, start?, leftOut, Redirects.target?]
  cases s.redirects.find? e.kind with
  | none => exact toTarget_recorded hcalm hreach hsteps hgoes
  | some redirect =>
    dsimp only
    cases hlive : redirect.isLive s.forest with
    | true =>
      have hcontains : s.forest.contains redirect.view = true := by
        rw [Redirect.isLive, beq_iff_eq, Forest.serial?_eq_some_iff] at hlive
        obtain ⟨node, hnode, -⟩ := hlive
        exact Forest.contains_iff.mpr ⟨node, hnode⟩
      have hwalk := walks_of_live hcalm hreach hsteps hcontains hgoes e.target.toList
      simpa using hwalk
    | false =>
      -- A dead redirect is noted and erased, which neither the forest nor the receipts show.
      exact toTarget_recorded (s := s.forgoing e.kind redirect) hcalm hreach hsteps hgoes

/-- An event is served in order. -/
theorem dispatchEvent_recorded {s : Desk W D (A × List Receipt)} (hreach : Forest.empty.Reaches s.forest)
    (hsteps : s.forest.slots.size ≤ steps) {root : View} (hroot : s.forest.contains root = true) {e : Event}
    (hgoes : e.propagating = true) :
    ∃ e' t log, dispatchEvent conduct.recorded steps root e s = .ok e' t ∧
      t.receipts = s.receipts ++ log ∧ Served (order conduct s.plain root e) e log e' := by
  obtain ⟨e₁, seen, t₁, log₁, hrun₁, hlog₁, ht₁, hserved₁, hmem₁⟩ :=
    direct_recorded hcalm hreach hsteps hgoes
  rw [order_eq (s := s.plain) hreach, dispatchEvent_eq, hrun₁]
  dsimp only
  cases hnext : e₁.propagating with
  | false => exact ⟨e₁, t₁, log₁, rfl, hlog₁, hserved₁.append_of_stopped hgoes hnext _⟩
  | true =>
    obtain ⟨leaves, h, hleaves, hsame, hh⟩ := leafViews_of_undisturbed hreach ht₁ hroot
    have hlive : ∀ leaf ∈ leavesOf s.forest root, s.forest.contains leaf = true := fun leaf hleaf ↦
      Forest.contains_of_inFamily hroot ((mem_leavesOf_iff hreach hroot).mp hleaf).1
    obtain ⟨e', t, log, hrun, hlog, hserved⟩ :=
      broadcast_recorded hcalm hreach hsteps hlive hnext (s := { t₁ with forest := h }) hh
    rw [firsts_congr (hmem₁ hnext)] at hserved
    refine ⟨e', t, log₁ ++ log, ?_, ?_, hserved₁.append hnext hserved⟩
    · rw [if_pos rfl, hleaves]
      dsimp only
      rw [hsame, hrun]
    · calc t.receipts = t₁.receipts ++ log := hlog
        _ = s.receipts ++ (log₁ ++ log) := by rw [hlog₁, List.append_assoc]

/-- Calm receivers are run for an event in order: first up from the view of a live redirect or else from
the target, then up from each leaf, each view once and without the target of a redirected event, until one
stops the event. If it is neither redirected nor stopped, every view at or below the root that has a
receiver receives it once. -/
theorem dispatchEvent_order {s : Desk W D A} (hreach : Forest.empty.Reaches s.forest)
    (hsteps : s.forest.slots.size ≤ steps) {root : View} (hroot : s.forest.contains root = true) {e : Event}
    (hgoes : e.propagating = true) :
    ∃ e' t log, dispatchEvent conduct steps root e s = .ok e' t ∧
      dispatchEvent conduct.recorded steps root e (s.withReceipts []) = .ok e' (t.withReceipts log) ∧
      Served (order conduct s root e) e log e' ∧
      (s.redirects.target? s.forest e.kind = none → e'.propagating = true →
        ∀ v, s.forest.InFamily root v → handles conduct s.forest v = true →
          (log.map Receipt.view).count v = 1) := by
  obtain ⟨e', t, log, hrun, hlog, hserved⟩ :=
    dispatchEvent_recorded hcalm (s := s.withReceipts []) hreach hsteps hroot hgoes
  have hplain := erases_dispatchEvent conduct steps root e (s.withReceipts [])
  rw [hrun] at hplain
  refine ⟨e', t.plain, log, hplain.symm, ?_, hserved, fun hfree hgoes' v hv hhandles ↦ ?_⟩
  · rw [hrun, show log = t.receipts from hlog.symm]
    rfl
  · rw [hserved.map_view hgoes']
    exact List.count_eq_one_of_mem (nodup_order s root e) (mem_order hreach hroot hfree hv hhandles)

end

/-- The tree of a root that was asked for its leaves. -/
def asked : Forest Unit := Forest.branched.modify ⟨1⟩ fun node ↦
  { node with leafCache := some [⟨⟨5⟩, 3⟩, ⟨⟨6⟩, 3⟩, ⟨⟨2⟩, 2⟩, ⟨⟨4⟩, 2⟩] }

theorem reaches_asked : Forest.empty.Reaches asked := by
  have hlive : Forest.branched.contains ⟨1⟩ = true := by decide +kernel
  have hunasked : (Forest.branched.node? ⟨1⟩).bind (·.leafCache) = none := by decide +kernel
  obtain ⟨node, hnode⟩ := Forest.contains_iff.mp hlive
  have hcache : node.leafCache = none := by simpa [hnode] using hunasked
  have hleaves : Forest.branched.leafViews ⟨1⟩ = .ok ([⟨⟨5⟩, 3⟩, ⟨⟨6⟩, 3⟩, ⟨⟨2⟩, 2⟩, ⟨⟨4⟩, 2⟩], asked) := by
    rw [Forest.leafViews, Forest.read_eq_ok.mpr hnode, Forest.leafViewsUncached_branched]
    simp only [bind, Except.bind, hcache]
    rfl
  exact Forest.reaches_branched.step (.leafViews hleaves)

/-- All views of the tree have a receiver but one, which has two leaves below it. -/
def gapped : Forest Unit := asked.equipped () [⟨1⟩, ⟨2⟩, ⟨4⟩, ⟨5⟩, ⟨6⟩]

/-- The target is below the view without a receiver, so after the target comes the root. Then come the other leaves,
the deeper ones first. The receivers post the event again and redirect its kind, which is of no consequence before
the next event. -/
theorem dispatchEvent_order_target : ∃ (conduct : HandlingConduct Unit Unit Unit)
    (s t : Desk Unit Unit Unit) (e e' : Event) (log : List Receipt), Calm conduct ∧
      e.target = some ⟨6⟩ ∧ chain s.forest ⟨6⟩ = [⟨6⟩, ⟨3⟩, ⟨1⟩] ∧ handles conduct s.forest ⟨3⟩ = false ∧
      leavesOf s.forest ⟨1⟩ = [⟨5⟩, ⟨6⟩, ⟨2⟩, ⟨4⟩] ∧ s.redirects.target? s.forest e.kind = none ∧
      dispatchEvent conduct.recorded 8 ⟨1⟩ e (s.withReceipts []) = .ok e' (t.withReceipts log) ∧
      log.map Receipt.view = [⟨6⟩, ⟨1⟩, ⟨5⟩, ⟨2⟩, ⟨4⟩] := by
  let conduct : HandlingConduct Unit Unit Unit := fun _ ↦ some fun v e ↦ do
    Desk.post e
    Desk.redirect e.kind (some v)
    return ((), e)
  let s : Desk Unit Unit Unit :=
    { forest := gapped, queue := [], redirects := .empty, deferred := [], ambient := ⟨#[], ()⟩ }
  let e : Event := (Event.closeRequest none).withTarget ⟨6⟩
  have hcalm : Calm conduct := by
    intro widget handle hhandle v e s _ _
    cases hhandle
    exact ⟨_, _, rfl, .refl [] s.forest⟩
  have hsteps : s.forest.slots.size ≤ 8 := by decide +kernel
  have hroot : s.forest.contains ⟨1⟩ = true := by decide +kernel
  obtain ⟨e', t, log, hrun, hrecorded, hserved, -⟩ :=
    dispatchEvent_order hcalm (reaches_asked.equipped () _) hsteps hroot (show e.propagating = true by decide)
  have hgoes : (match dispatchEvent conduct 8 ⟨1⟩ e s with
      | .ok e' _ => e'.propagating
      | .error _ _ => false) = true := by decide +kernel
  have hchain : chain s.forest ⟨6⟩ = [⟨6⟩, ⟨3⟩, ⟨1⟩] := by decide +kernel
  have hidle : handles conduct s.forest ⟨3⟩ = false := by decide +kernel
  have hleaves : leavesOf s.forest ⟨1⟩ = [⟨5⟩, ⟨6⟩, ⟨2⟩, ⟨4⟩] := by decide +kernel
  have horder : order conduct s ⟨1⟩ e = [⟨6⟩, ⟨1⟩, ⟨5⟩, ⟨2⟩, ⟨4⟩] := by decide +kernel
  rw [hrun] at hgoes
  exact ⟨conduct, s, t, e, e', log, hcalm, rfl, hchain, hidle, hleaves, by decide, hrecorded,
    (hserved.map_view hgoes).trans horder⟩

end Routing

end RetainedUi
