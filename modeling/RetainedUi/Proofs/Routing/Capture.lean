import Mathlib.Data.List.Infix
import RetainedUi.Proofs.Routing.Once

/-!
# Captured events

A view captures the events of a kind when they are redirected to it. The first view that receives a captured
event is its captor, whatever receivers do afterwards, since receipts are never taken back.

There is one exception. The target of a captured event counts as having seen it, so a captor that is the
target itself never receives the event, although all views above it may.
-/

namespace RetainedUi

variable {W D A : Type}

theorem Redirects.target?_eq_some_iff {r : Redirects} {f : Forest W} {kind : EventKind} {v : View} :
    r.target? f kind = some v ↔
      ∃ redirect, r.find? kind = some redirect ∧ redirect.isLive f = true ∧ redirect.view = v := by
  unfold target?
  cases r.find? kind with
  | none => simp
  | some redirect => cases hlive : redirect.isLive f <;> simp [hlive]

namespace Routing

/-! ## Receipts are never taken back -/

theorem receipts_of_moves {s t : Desk W D (A × List Receipt)} (h : s.Moves t) : s.receipts <+: t.receipts := by
  cases h <;> exact List.prefix_rfl

theorem carries_receipts_recorded {conduct : HandlingConduct W D A} (widget : W)
    (handle : View → Event → Pass (Desk W D (A × List Receipt)) (W × Event))
    (hhandle : conduct.recorded widget = some handle) (v : View) (e : Event) :
    Pass.Carries Desk.receipts (· <+: ·) (handle v e) := by
  intro s
  obtain ⟨plain, -, rfl⟩ := Option.map_eq_some_iff.mp hhandle
  unfold leavingReceipt
  cases plain v e s.plain <;> exact List.prefix_append _ _

section

variable (conduct : HandlingConduct W D A)

/-- The first receipt of a walk is left by the view where it starts. -/
theorem upwards_first (steps : Nat) {v : View} {e : Event} {seen : List View}
    {s : Desk W D (A × List Receipt)} (hgoes : e.propagating = true)
    (hhandles : handles conduct s.forest v = true) (hunseen : v ∉ seen) :
    ∃ receipt : Receipt, receipt.view = v ∧
      s.receipts ++ [receipt] <+:
        (Pass.final (upwards conduct.recorded (steps + 1) (some v) e seen s)).receipts := by
  obtain ⟨log, hlog, hviews⟩ := deliver_logs conduct v e s
  rw [if_pos hhandles] at hviews
  obtain ⟨receipt, rfl, hview⟩ := List.map_eq_singleton_iff.mp hviews
  refine ⟨receipt, hview, ?_⟩
  rw [upwards_succ _ _ _ hgoes (contains_of_handles hhandles), if_neg (by simpa using hunseen)]
  cases hdeliver : deliver conduct.recorded v e s with
  | error halt t =>
    rw [hdeliver] at hlog
    exact hlog ▸ List.prefix_rfl
  | ok e' t =>
    rw [hdeliver] at hlog
    rw [← hlog]
    exact carries_upwards (fun _ _ ↦ receipts_of_moves) carries_receipts_recorded steps _ e' _ t

/-- What is received in the first phase comes before everything else. -/
theorem direct_prefix_dispatchEvent (steps : Nat) (root : View) (e : Event)
    (s : Desk W D (A × List Receipt)) :
    (Pass.final (direct conduct.recorded steps e s)).receipts <+:
      (Pass.final (dispatchEvent conduct.recorded steps root e s)).receipts := by
  rw [dispatchEvent_eq]
  cases direct conduct.recorded steps e s with
  | error halt t => exact List.prefix_rfl
  | ok answer t =>
    obtain ⟨e', seen⟩ := answer
    dsimp only
    split
    · split
      case _ leaves f _ =>
        exact carries_broadcast (fun _ _ ↦ receipts_of_moves) carries_receipts_recorded steps _ e' seen
          { t with forest := f }
      case _ => exact List.prefix_rfl
    · exact List.prefix_rfl

/-- A captured event goes up from its captor, and its target counts as having seen it. -/
theorem direct_of_captor (steps : Nat) {s : Desk W D A} {e : Event} {v : View}
    (h : s.redirects.target? s.forest e.kind = some v) :
    direct conduct steps e s = upwards conduct steps (some v) e e.target.toList s := by
  obtain ⟨redirect, hfound, hlive, rfl⟩ := Redirects.target?_eq_some_iff.mp h
  simp only [direct_eq, hfound, hlive, if_true]

/-- A captor with a receiver is the first to receive a captured event, unless the captor is also the target.
Then the captor does not receive the event at all. -/
theorem captor_receives_first_iff {steps : Nat} (hsteps : 0 < steps) (root : View) {e : Event}
    (hgoes : e.propagating = true) {s : Desk W D A} {captor : View}
    (hcaptor : s.redirects.target? s.forest e.kind = some captor)
    (hhandles : handles conduct s.forest captor = true) :
    let run := dispatchEvent conduct.recorded steps root e (s.withReceipts [])
    let receivers := (Pass.final run).receipts.map Receipt.view
    dropReceipts run = dispatchEvent conduct steps root e s ∧
      (receivers.head? = some captor ↔ e.target ≠ some captor) ∧
      (e.target = some captor → captor ∉ receivers) := by
  obtain ⟨steps, rfl⟩ := Nat.exists_eq_succ_of_ne_zero hsteps.ne'
  let start := s.withReceipts []
  have hleft : leftOut start e = e.target.toList := by
    have hstart : start.redirects.target? start.forest e.kind = some captor := hcaptor
    rw [leftOut, hstart]
  have hout : e.target = some captor →
      captor ∉ (Pass.final (dispatchEvent conduct.recorded (steps + 1) root e start)).receipts.map
        Receipt.view := by
    intro htarget hmem
    obtain ⟨log, hlog, hfresh⟩ := dispatchEvent_logs conduct (steps + 1) root e start
    rw [hlog] at hmem
    refine hfresh.unseen captor hmem ?_
    simp [hleft, htarget]
  refine ⟨erases_dispatchEvent conduct (steps + 1) root e start, ⟨fun hfirst htarget ↦ ?_, fun hother ↦ ?_⟩,
    hout⟩
  · exact hout htarget (List.mem_of_head? hfirst)
  · have hunseen : captor ∉ e.target.toList := by simpa using hother
    obtain ⟨receipt, hview, hwalk⟩ := upwards_first conduct steps (s := start) hgoes hhandles hunseen
    rw [← direct_of_captor conduct.recorded (steps + 1) (s := start) hcaptor] at hwalk
    obtain ⟨rest, hrest⟩ := hwalk.trans (direct_prefix_dispatchEvent conduct (steps + 1) root e start)
    change ((Pass.final (dispatchEvent conduct.recorded (steps + 1) root e start)).receipts.map
      Receipt.view).head? = some captor
    rw [← hrest, ← hview]
    rfl

end

/-- A view captures the resizing of the window that another view stands for. -/
theorem captor_receives_first_resize : ∃ (conduct : HandlingConduct Unit Unit Unit) (s : Desk Unit Unit Unit)
    (e : Event), s.redirects.target? s.forest e.kind = some ⟨2⟩ ∧ e.target = some ⟨1⟩ ∧
      ((Pass.final (dispatchEvent conduct.recorded 3 ⟨1⟩ e (s.withReceipts []))).receipts.map
        Receipt.view).head? = some ⟨2⟩ := by
  let conduct : HandlingConduct Unit Unit Unit := fun _ ↦ some fun _ e ↦ pure ((), e)
  let apart : Forest Unit := ((Forest.empty.createWindow .zero).2.create .zero).2
  let forest : Forest Unit := apart.modify ⟨2⟩ fun node ↦ { node with widget := some () }
  let s : Desk Unit Unit Unit :=
    { forest, queue := [], redirects := (Redirects.empty.set forest .resize (some ⟨2⟩)).1, deferred := []
      ambient := ⟨#[], ()⟩ }
  let e : Event := (Event.resize none .zero).withTarget ⟨1⟩
  have hcaptor : s.redirects.target? s.forest e.kind = some ⟨2⟩ := by decide +kernel
  have hhandles : handles conduct s.forest ⟨2⟩ = true := by decide +kernel
  obtain ⟨-, hfirst, -⟩ :=
    captor_receives_first_iff conduct (show 0 < 3 by decide) ⟨1⟩ (show e.propagating = true from rfl) hcaptor
      hhandles
  exact ⟨conduct, s, e, hcaptor, rfl, hfirst.mpr (by decide)⟩

/-- The only view of a window captures the resizing of that window, and does not receive it. -/
theorem captor_of_own_event_skipped : ∃ (conduct : HandlingConduct Unit Unit Unit)
    (s : Desk Unit Unit Unit) (e : Event), Forest.empty.Reaches s.forest ∧ e.propagating = true ∧
      s.redirects.target? s.forest e.kind = some ⟨1⟩ ∧ handles conduct s.forest ⟨1⟩ = true ∧
      (Pass.final (dispatchEvent conduct.recorded 3 ⟨1⟩ e (s.withReceipts []))).receipts.map
        Receipt.view = [] := by
  let conduct : HandlingConduct Unit Unit Unit := fun _ ↦ some fun _ e ↦ pure ((), e)
  let forest : Forest Unit :=
    (Forest.empty.createWindow .zero).2.modify ⟨1⟩ fun node ↦ { node with widget := some () }
  let s : Desk Unit Unit Unit :=
    { forest, queue := [], redirects := (Redirects.empty.set forest .resize (some ⟨1⟩)).1, deferred := []
      ambient := ⟨#[], ()⟩ }
  let e : Event := (Event.resize none .zero).withTarget ⟨1⟩
  have hreach : Forest.empty.Reaches s.forest :=
    ((Forest.Reaches.refl Forest.empty).step (.createWindow _ .zero)).step (.setWidget _ ⟨1⟩ (some ()))
  exact ⟨conduct, s, e, hreach, rfl, by decide +kernel, by decide +kernel, by decide +kernel⟩

/-- The target that a captured event had when it was taken from the queue does not receive it, neither on the way
up from the captor nor from the leaves, whatever receivers do to redirects, targets and views meanwhile. -/
theorem captured_spares_target (conduct : HandlingConduct W D A) (steps : Nat) (root : View) (s : Desk W D A) :
    let start := s.withReceipts []
    let history := rounds conduct.recorded steps root steps start.pruned
    dropReceipts (dispatch conduct.recorded steps root start) = dispatch conduct steps root s ∧
      (Pass.final (dispatch conduct.recorded steps root start)).receipts =
        history.flatMap (Round.log conduct steps root) ∧
      ∀ round ∈ history, ∀ captor target,
        round.desk.redirects.target? round.desk.forest round.event.kind = some captor →
          round.event.target = some target →
            target ∉ (round.log conduct steps root).map Receipt.view := by
  refine ⟨erases_dispatch conduct steps root _, ?_, ?_⟩
  · rw [dispatch_eq, drain_logs]
    rfl
  · intro round _ captor target hcaptor htarget hmem
    refine (round.fresh_log conduct steps root).unseen target hmem ?_
    simp [leftOut, hcaptor, htarget]

/-- A view captures the request to close the window above it. It gives the redirect up and has the event go to
nobody by name, but the window is left out all the same. -/
theorem captured_spares_target_above : ∃ (conduct : HandlingConduct Unit Unit Unit) (s : Desk Unit Unit Unit)
    (e : Event), s.queue = [e] ∧ e.target = some ⟨1⟩ ∧ handles conduct s.forest ⟨1⟩ = true ∧
      s.forest.superview? ⟨2⟩ = some ⟨1⟩ ∧ s.redirects.target? s.forest e.kind = some ⟨2⟩ ∧
      (Pass.final (dispatch conduct.recorded 5 ⟨1⟩ (s.withReceipts []))).receipts.map Receipt.view = [⟨2⟩] ∧
      ∃ round ∈ rounds conduct.recorded 5 ⟨1⟩ 5 (s.withReceipts []).pruned,
        ⟨1⟩ ∉ (round.log conduct 5 ⟨1⟩).map Receipt.view := by
  let conduct : HandlingConduct Unit Unit Unit := fun _ ↦ some fun _ e ↦ do
    Desk.redirect .closeRequest none
    return ((), { e with target := none })
  let apart : Forest Unit := ((Forest.empty.createWindow .zero).2.create .zero).2
  let forest : Forest Unit := (apart.added ⟨1⟩ ⟨2⟩).equipped () [⟨1⟩, ⟨2⟩]
  let e : Event := (Event.closeRequest none).withTarget ⟨1⟩
  let s : Desk Unit Unit Unit :=
    { forest, queue := [e], redirects := (Redirects.empty.set forest .closeRequest (some ⟨2⟩)).1, deferred := []
      ambient := ⟨#[], ()⟩ }
  let taken : Desk Unit Unit (Unit × List Receipt) := { (s.withReceipts []).pruned with queue := [] }
  have hround : ⟨e, taken⟩ ∈ rounds conduct.recorded 5 ⟨1⟩ 5 (s.withReceipts []).pruned := List.mem_cons_self
  have hcaptor : taken.redirects.target? taken.forest e.kind = some ⟨2⟩ := by decide +kernel
  have hspared := (captured_spares_target conduct 5 ⟨1⟩ s).2.2 ⟨e, taken⟩ hround ⟨2⟩ ⟨1⟩ hcaptor rfl
  exact ⟨conduct, s, e, rfl, rfl, by decide +kernel, by decide +kernel, by decide +kernel, by decide +kernel,
    ⟨e, taken⟩, hround, hspared⟩

end Routing

end RetainedUi
