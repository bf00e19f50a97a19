import RetainedUi.Proofs.Routing.Passes

/-!
# The queue of events

Receivers may post events while a pass takes events from the queue. They put them at its end, and a pass ends
only when the queue is empty. So the events of a pass are those that were in the queue at first, followed by those
that were posted meanwhile, in this order. Each has a round of its own, and nobody receives an event outside of
its round, however the round ends.

What a receiver posts is seen from the queue before and after it was run, and is kept with the delivery. The same
goes for the callbacks that it schedules.
-/

namespace RetainedUi

/-- One run of a receiver: the event as it was received, what was posted and what was scheduled. -/
structure Delivery (D : Type) where
  view : View
  event : Event
  posted : List Event
  deferred : List D

variable {W D A : Type}

/-- What an event keeps for good. -/
def Event.lasting (e : Event) : Option View × EventKind × EventInfo × Option View :=
  (e.sender, e.kind, e.info, e.addressee)

namespace Desk

def deliveries (s : Desk W D (A × List (Delivery D))) : List (Delivery D) := s.ambient.shared.2

/-- A desk with a log of deliveries. -/
def withDeliveries (s : Desk W D A) (deliveries : List (Delivery D)) : Desk W D (A × List (Delivery D)) :=
  { s with ambient := { s.ambient with shared := (s.ambient.shared, deliveries) } }

end Desk

/-- Receivers put events at the end of the queue and callbacks at the end of what is scheduled. -/
def HandlingConduct.Appends (conduct : HandlingConduct W D A) : Prop :=
  ∀ widget handle, conduct widget = some handle → ∀ v e s,
    s.queue <+: (Pass.final (handle v e s)).queue ∧ s.deferred <+: (Pass.final (handle v e s)).deferred

/-- A receiver that logs what it posts and schedules, also if it halts. -/
def loggingDelivery (handle : View → Event → Pass (Desk W D A) (W × Event)) (v : View) (e : Event) :
    Pass (Desk W D (A × List (Delivery D))) (W × Event) := fun s ↦
  let logged (t : Desk W D A) : Desk W D (A × List (Delivery D)) :=
    t.withDeliveries (s.deliveries ++
      [⟨v, e, t.queue.drop s.queue.length, t.deferred.drop s.deferred.length⟩])
  match handle v e s.plain with
  | .ok answer t => .ok answer (logged t)
  | .error halt t => .error halt (logged t)

/-- The same widgets, whose receivers log what they do. -/
def HandlingConduct.logged (conduct : HandlingConduct W D A) : HandlingConduct W D (A × List (Delivery D)) :=
  fun widget ↦ (conduct widget).map loggingDelivery

namespace Routing

theorem logged_echoes (conduct : HandlingConduct W D A) : conduct.logged.Echoes conduct := by
  intro widget
  unfold HandlingConduct.logged
  cases conduct widget with
  | none => exact .none
  | some handle =>
    refine .some fun v e s ↦ ?_
    unfold loggingDelivery
    cases handle v e s.plain <;> rfl

/-! ## What a part of a pass adds -/

/-- What was posted and scheduled on the way from one desk to another was posted and scheduled in deliveries of
events with a property. -/
def Adds (Q : Event → Prop) (s t : Desk W D (A × List (Delivery D))) : Prop :=
  ∃ log, t.deliveries = s.deliveries ++ log ∧ t.queue = s.queue ++ log.flatMap Delivery.posted ∧
    t.deferred = s.deferred ++ log.flatMap Delivery.deferred ∧ ∀ delivery ∈ log, Q delivery.event

namespace Adds

variable {Q : Event → Prop}

theorem of_same {s t : Desk W D (A × List (Delivery D))} (hdeliveries : t.deliveries = s.deliveries)
    (hqueue : t.queue = s.queue) (hdeferred : t.deferred = s.deferred) : Adds Q s t :=
  ⟨[], by simpa using hdeliveries, by simpa using hqueue, by simpa using hdeferred, by simp⟩

theorem trans {s t u : Desk W D (A × List (Delivery D))} (hst : Adds Q s t) (htu : Adds Q t u) : Adds Q s u := by
  obtain ⟨log, hdeliveries, hqueue, hdeferred, hlog⟩ := hst
  obtain ⟨log', hdeliveries', hqueue', hdeferred', hlog'⟩ := htu
  refine ⟨log ++ log', ?_, ?_, ?_, ?_⟩
  · rw [hdeliveries', hdeliveries, List.append_assoc]
  · rw [hqueue', hqueue, List.append_assoc, List.flatMap_append]
  · rw [hdeferred', hdeferred, List.append_assoc, List.flatMap_append]
  · intro delivery hmem
    exact (List.mem_append.mp hmem).elim (hlog delivery) (hlog' delivery)

instance : IsPreorder (Desk W D (A × List (Delivery D))) (Adds Q) where
  refl _ := of_same rfl rfl rfl
  trans _ _ _ := trans

/-- By itself a pass posts and schedules nothing. -/
theorem of_moves {s t : Desk W D (A × List (Delivery D))} (h : s.Moves t) (hqueue : t.queue = s.queue) :
    Adds Q s t := by
  cases h with
  | forest | note | prune | forgo => exact of_same rfl rfl rfl
  | take htaken =>
    have hlength := congrArg List.length (htaken.symm.trans hqueue.symm)
    simp at hlength

theorem of_receiver {conduct : HandlingConduct W D A} (hconduct : conduct.Appends) {widget : W}
    {handle : View → Event → Pass (Desk W D (A × List (Delivery D))) (W × Event)}
    (hhandle : conduct.logged widget = some handle) (v : View) {e : Event} (he : Q e) :
    Pass.Carries id (Adds Q) (handle v e) := by
  intro s
  obtain ⟨plain, hplain, rfl⟩ := Option.map_eq_some_iff.mp hhandle
  obtain ⟨⟨posted, hposted⟩, scheduled, hscheduled⟩ := hconduct widget plain hplain v e s.plain
  unfold loggingDelivery
  have hadds {t : Desk W D A} (hqueue : t.queue = s.queue ++ posted)
      (hdeferred : t.deferred = s.deferred ++ scheduled) : Adds Q s (t.withDeliveries (s.deliveries ++
        [⟨v, e, t.queue.drop s.queue.length, t.deferred.drop s.deferred.length⟩])) := by
    refine ⟨_, rfl, hqueue.trans ?_, hdeferred.trans ?_, by simpa using he⟩
    · simp [hqueue]
    · simp [hdeferred]
  cases hrun : plain v e s.plain with
  | ok answer t =>
    rw [hrun] at hposted hscheduled
    exact hadds hposted.symm hscheduled.symm
  | error halt t =>
    rw [hrun] at hposted hscheduled
    exact hadds hposted.symm hscheduled.symm

end Adds

/-! ## Rounds -/

section

variable {conduct : HandlingConduct W D A} (hconduct : conduct.Appends) (steps : Nat) (root : View)

/-- The deliveries of a round. -/
def Round.deliveries (conduct : HandlingConduct W D A) (steps : Nat) (root : View)
    (round : Round W D (A × List (Delivery D))) : List (Delivery D) :=
  (Pass.final (dispatchEvent conduct.logged steps root round.event round.desk)).deliveries.drop
    round.desk.deliveries.length

include hconduct

/-- In the dispatch of an event, no other event is received. -/
theorem adds_dispatchEvent (e : Event) :
    Pass.CarriesTo id (Adds fun e' ↦ e'.lasting = e.lasting) (fun e' ↦ e'.lasting = e.lasting)
      (dispatchEvent conduct.logged steps root e) := by
  refine carriesTo_dispatchEvent (fun _ _ ↦ Adds.of_moves) (fun _ _ h ↦ h) ?_ steps root rfl
  exact fun widget handle hhandle v _ he ↦ Adds.of_receiver hconduct hhandle v he

/-- What a round adds belongs to its deliveries. -/
theorem Round.adds (round : Round W D (A × List (Delivery D))) :
    let final := Pass.final (dispatchEvent conduct.logged steps root round.event round.desk)
    let log := round.deliveries conduct steps root
    final.deliveries = round.desk.deliveries ++ log ∧
      final.queue = round.desk.queue ++ log.flatMap Delivery.posted ∧
      final.deferred = round.desk.deferred ++ log.flatMap Delivery.deferred ∧
      ∀ delivery ∈ log, delivery.event.lasting = round.event.lasting := by
  obtain ⟨log, hdeliveries, hrest⟩ := (adds_dispatchEvent hconduct steps root round.event).1 round.desk
  have hlog : round.deliveries conduct steps root = log := by
    rw [Round.deliveries, ← id_eq (Pass.final _), hdeliveries, id, List.drop_left]
  rw [← hlog] at hdeliveries hrest
  exact ⟨hdeliveries, hrest⟩

/-- Whatever is in the queue when a pass goes on gets a round, and so does whatever is posted from then on. -/
theorem drain_in_order {events : Nat} {s t : Desk W D (A × List (Delivery D))} {done : List Event}
    (h : drain conduct.logged steps root events s = .ok done t) :
    let history := rounds conduct.logged steps root events s
    let log := history.flatMap (Round.deliveries conduct steps root)
    history.map Round.event = s.queue ++ log.flatMap Delivery.posted ∧
      t.deliveries = s.deliveries ++ log ∧ t.deferred = s.deferred ++ log.flatMap Delivery.deferred ∧
      done.map Event.lasting = history.map (fun round ↦ round.event.lasting) ∧ t.queue = [] := by
  induction events generalizing s done with
  | zero =>
    rw [drain_zero] at h
    split at h
    case isTrue hempty =>
      cases h
      have hqueue := List.isEmpty_iff.mp hempty
      simp [rounds, hqueue]
    case isFalse => cases h
  | succ events ih =>
    rw [drain_succ] at h
    rw [rounds]
    cases hqueue : s.queue with
    | nil =>
      rw [hqueue] at h
      cases h
      simp [hqueue]
    | cons e rest =>
      rw [hqueue] at h
      let round : Round W D (A × List (Delivery D)) := ⟨e, { s with queue := rest }⟩
      have hround := round.adds hconduct steps root
      have hanswer := (adds_dispatchEvent hconduct steps root e).2 { s with queue := rest }
      dsimp only [round] at h hround ⊢
      cases hrun : dispatchEvent conduct.logged steps root e { s with queue := rest } with
      | error halt u =>
        rw [hrun] at h
        cases h
      | ok e' u =>
        rw [hrun] at h hround
        rw [Pass.final_ok] at hround
        dsimp only at h
        cases hrest : drain conduct.logged steps root events u with
        | error halt v =>
          rw [hrest] at h
          cases h
        | ok done' v =>
          rw [hrest] at h
          cases h
          have hdeliveries : u.deliveries = s.deliveries ++ round.deliveries conduct steps root := hround.1
          obtain ⟨-, hposted, hdeferred, -⟩ := hround
          obtain ⟨hevents, hdeliveries', hdeferred', hdone, hempty⟩ := ih hrest
          rw [hposted] at hevents
          rw [hdeliveries] at hdeliveries'
          rw [hdeferred] at hdeferred'
          refine ⟨?_, ?_, ?_, ?_, hempty⟩
          · simp [hevents]
          · simpa [round] using hdeliveries'
          · simpa using hdeferred'
          · simp [hdone, hanswer e' u hrun]

end

/-- The deliveries of a pass. -/
def deliveries (conduct : HandlingConduct W D A) (steps : Nat) (root : View) (s : Desk W D A) : List (Delivery D) :=
  (Pass.final (dispatch conduct.logged steps root (s.withDeliveries []))).deliveries

/-- A pass that ends also ends with a log. -/
theorem exists_dispatch_logged {conduct : HandlingConduct W D A} {steps : Nat} {root : View} {s t : Desk W D A}
    {done : List Event} (h : dispatch conduct steps root s = .ok done t) :
    ∃ u, dispatch conduct.logged steps root (s.withDeliveries []) = .ok done u ∧ u.plain = t := by
  have hplain : dropReceipts (dispatch conduct.logged steps root (s.withDeliveries [])) = .ok done t :=
    ((logged_echoes conduct).erases_dispatch steps root (s.withDeliveries [])).trans h
  cases hrun : dispatch conduct.logged steps root (s.withDeliveries []) with
  | error halt u =>
    rw [hrun] at hplain
    cases hplain
  | ok done' u =>
    rw [hrun] at hplain
    cases hplain
    exact ⟨u, rfl, rfl⟩

section

variable {conduct : HandlingConduct W D A} (hconduct : conduct.Appends) {steps : Nat} {root : View}
  {s t : Desk W D A} {done : List Event}
include hconduct

/-- The deliveries of a pass that ends are those of its rounds. -/
theorem deliveries_eq {u : Desk W D (A × List (Delivery D))}
    (h : dispatch conduct.logged steps root (s.withDeliveries []) = .ok done u) :
    deliveries conduct steps root s = (rounds conduct.logged steps root steps (s.withDeliveries []).pruned).flatMap
      (Round.deliveries conduct steps root) := by
  obtain ⟨-, hlog, -⟩ := drain_in_order hconduct steps root h
  rw [deliveries, h]
  exact hlog

variable (h : dispatch conduct steps root s = .ok done t)
include h

/-- A pass schedules what its receivers schedule, in this order. -/
theorem deferred_dispatch :
    t.deferred = s.deferred ++ (deliveries conduct steps root s).flatMap Delivery.deferred := by
  obtain ⟨u, hrun, rfl⟩ := exists_dispatch_logged h
  obtain ⟨-, -, hdeferred, -⟩ := drain_in_order hconduct steps root hrun
  rw [deliveries_eq hconduct hrun]
  exact hdeferred

/-- A pass that ends has dispatched what was in the queue and then what was posted, in this order. Its
deliveries come in rounds, one for each event, and the queue is empty. -/
theorem dispatch_in_order :
    let start := s.withDeliveries []
    let history := rounds conduct.logged steps root steps start.pruned
    let log := deliveries conduct steps root s
    dropReceipts (dispatch conduct.logged steps root start) = .ok done t ∧
      history.map Round.event = s.queue ++ log.flatMap Delivery.posted ∧
      done.map Event.lasting = (history.map Round.event).map Event.lasting ∧
      log = history.flatMap (Round.deliveries conduct steps root) ∧
      (∀ round ∈ history, ∀ delivery ∈ round.deliveries conduct steps root,
        delivery.event.lasting = round.event.lasting) ∧
      t.queue = [] := by
  obtain ⟨u, hrun, rfl⟩ := exists_dispatch_logged h
  obtain ⟨hevents, -, -, hdone, hempty⟩ := drain_in_order hconduct steps root hrun
  have hlog := deliveries_eq hconduct hrun
  refine ⟨congrArg dropReceipts hrun, ?_, ?_, hlog, ?_, hempty⟩
  · rw [hlog]
    exact hevents
  · rw [hdone, List.map_map]
    rfl
  · exact fun round _ ↦ (round.adds hconduct steps root).2.2.2

end

/-- The kinds of the events that a pass has dispatched, if it has ended. -/
def dispatchedKinds? : EStateM.Result Halt (Desk W D A) (List Event) → Option (List EventKind)
  | .ok done _ => some (done.map Event.kind)
  | .error _ _ => none

/-- Resizing has the window asked to close, which is dispatched after what was in the queue before. -/
theorem dispatch_in_order_posted : ∃ (conduct : HandlingConduct Unit Unit Unit) (s t : Desk Unit Unit Unit)
    (done : List Event), conduct.Appends ∧ s.queue.map Event.kind = [.resize, .move] ∧
      dispatch conduct 5 ⟨1⟩ s = .ok done t ∧ done.map Event.kind = [.resize, .move, .closeRequest] ∧
      t.queue = [] := by
  let handle (v : View) (e : Event) : Pass (Desk Unit Unit Unit) (Unit × Event) := do
    if e.kind = .resize then Desk.post ((Event.closeRequest none).withTarget v)
    return ((), e.stop)
  let conduct : HandlingConduct Unit Unit Unit := fun _ ↦ some handle
  let forest : Forest Unit :=
    (Forest.empty.createWindow .zero).2.modify ⟨1⟩ fun node ↦ { node with widget := some () }
  let s : Desk Unit Unit Unit :=
    { forest
      queue := [(Event.resize none .zero).withTarget ⟨1⟩, (Event.moved none .zero).withTarget ⟨1⟩]
      redirects := .empty
      deferred := []
      ambient := ⟨#[], ()⟩ }
  have happends : conduct.Appends := by
    rintro _ _ ⟨⟩ v e s
    by_cases hkind : e.kind = .resize
    · have hrun : handle v e s =
          .ok ((), e.stop) { s with queue := s.queue ++ [(Event.closeRequest none).withTarget v] } := by
        simp only [handle, if_pos hkind]
        rfl
      rw [hrun]
      exact ⟨List.prefix_append _ _, List.prefix_rfl⟩
    · have hrun : handle v e s = .ok ((), e.stop) s := by
        simp only [handle, if_neg hkind]
        rfl
      rw [hrun]
      exact ⟨List.prefix_rfl, List.prefix_rfl⟩
  have hkinds : dispatchedKinds? (dispatch conduct 5 ⟨1⟩ s) = some [.resize, .move, .closeRequest] := by
    decide +kernel
  cases hrun : dispatch conduct 5 ⟨1⟩ s with
  | error halt t =>
    rw [hrun] at hkinds
    cases hkinds
  | ok done t =>
    rw [hrun] at hkinds
    obtain ⟨-, -, -, -, -, hempty⟩ := dispatch_in_order happends hrun
    exact ⟨conduct, s, t, done, happends, rfl, hrun, Option.some.inj hkinds, hempty⟩

end Routing

end RetainedUi
