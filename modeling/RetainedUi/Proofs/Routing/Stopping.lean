import Mathlib.Data.List.Infix
import RetainedUi.Proofs.Routing.Queue
import RetainedUi.Proofs.Routing.Once

/-!
# Stopped events

Each receiver gets what the one before it made of the event, and only as long as the event goes on. So
nobody receives an event after somebody stopped it, and nobody at all receives an event that was posted as a
stopped one. Receivers may change the forest, the redirects and the target as they like: none of them is asked
about an event that was stopped.

The pass itself is not stopped. What is in the queue behind the event gets its rounds as ever.
-/

namespace RetainedUi

variable {W D A α : Type}

/-! ## What receivers make of an event -/

/-- What becomes of an event at a receiver. A receiver that halts leaves the event as it is. -/
def Receipt.amending (e : Event) (receipt : Receipt) : Event := receipt.answer.elim e e.amended

/-- What becomes of an event at one receiver after the other. -/
def Event.after (e : Event) (log : List Receipt) : Event := log.foldl Receipt.amending e

@[simp]
theorem Event.after_nil (e : Event) : e.after [] = e := rfl

@[simp]
theorem Event.after_cons (e : Event) (receipt : Receipt) (log : List Receipt) :
    e.after (receipt :: log) = (receipt.amending e).after log := rfl

theorem Event.after_append (e : Event) (log log' : List Receipt) :
    e.after (log ++ log') = (e.after log).after log' := List.foldl_append

/-- Receipts change nothing about the queue. -/
theorem HandlingConduct.Appends.recorded {conduct : HandlingConduct W D A} (hconduct : conduct.Appends) :
    conduct.recorded.Appends := by
  intro widget handle hhandle v e s
  obtain ⟨plain, hplain, rfl⟩ := Option.map_eq_some_iff.mp hhandle
  have happends := hconduct widget plain hplain v e s.plain
  unfold leavingReceipt
  cases hrun : plain v e s.plain <;> rw [hrun] at happends <;> exact happends

namespace Routing

/-- Each receipt is for what the ones before it made of the event, which was not stopped by then. -/
def Relayed (e : Event) : List Receipt → Prop
  | [] => True
  | receipt :: log => receipt.event = e ∧ e.propagating = true ∧ Relayed (receipt.amending e) log

theorem relayed_append {e : Event} {log log' : List Receipt} :
    Relayed e (log ++ log') ↔ Relayed e log ∧ Relayed (e.after log) log' := by
  induction log generalizing e with
  | nil => simp [Relayed]
  | cons receipt log ih => simp [Relayed, ih, and_assoc]

/-- A stopped event is received by nobody. -/
theorem Relayed.eq_nil {e : Event} {log : List Receipt} (h : Relayed e log) (hstopped : e.propagating = false) :
    log = [] := by
  cases log with
  | nil => rfl
  | cons receipt log =>
    rw [h.2.1] at hstopped
    cases hstopped

/-- A run relays an event to the receivers whose receipts it adds, and answers with what they made of it. It
does not halt after the event was stopped, except for the bound of the caller. -/
def Relays (made : α → Event) (e : Event) (receipts : List Receipt)
    (result : EStateM.Result Halt (Desk W D (A × List Receipt)) α) : Prop :=
  ∃ log, (Pass.final result).receipts = receipts ++ log ∧ Relayed e log ∧
    (∀ answer t, result = .ok answer t → made answer = e.after log) ∧
    ∀ halt t, result = .error halt t → (e.after log).propagating = false → halt = .exhausted

namespace Relays

variable {made : α → Event} {e : Event} {receipts log : List Receipt}

theorem done (made : α → Event) (answer : α) (s : Desk W D (A × List Receipt)) :
    Relays made (made answer) s.receipts (.ok answer s) := by
  refine ⟨[], by simp, trivial, ?_, by simp⟩
  rintro _ _ ⟨⟩
  rfl

theorem exhausted (e : Event) (s : Desk W D (A × List Receipt)) :
    Relays made e s.receipts (.error .exhausted s) := by
  refine ⟨[], by simp, trivial, by simp, ?_⟩
  rintro _ _ ⟨⟩ -
  rfl

/-- A halt is no matter of stopping if the event goes on. -/
theorem halted (hgoes : e.propagating = true) (halt : Halt) (s : Desk W D (A × List Receipt)) :
    Relays made e s.receipts (.error halt s) := by
  refine ⟨[], by simp, trivial, by simp, ?_⟩
  rintro _ _ - hstopped
  rw [Event.after_nil, hgoes] at hstopped
  cases hstopped

/-- A run goes on with what was made of the event. -/
theorem after {result : EStateM.Result Halt (Desk W D (A × List Receipt)) α} (hlog : Relayed e log)
    (h : Relays made (e.after log) (receipts ++ log) result) : Relays made e receipts result := by
  obtain ⟨log', hfinal, hlog', hok, herror⟩ := h
  refine ⟨log ++ log', ?_, relayed_append.mpr ⟨hlog, hlog'⟩, ?_, ?_⟩
  · rw [hfinal, List.append_assoc]
  · rw [Event.after_append]
    exact hok
  · rw [Event.after_append]
    exact herror

section

variable {β : Type} {made' : β → Event} {first : EStateM.Result Halt (Desk W D (A × List Receipt)) β}

/-- What follows a run goes on with the event that it answers with. -/
theorem goOn (hfirst : Relays made' e receipts first) {answer : β} {t : Desk W D (A × List Receipt)}
    (hrun : first = .ok answer t) {result : EStateM.Result Halt (Desk W D (A × List Receipt)) α}
    (hnext : Relays made (made' answer) t.receipts result) : Relays made e receipts result := by
  obtain ⟨log, hfinal, hlog, hok, -⟩ := hfirst
  rw [hrun, Pass.final_ok] at hfinal
  rw [hok answer t hrun, hfinal] at hnext
  exact .after hlog hnext

/-- Nothing follows a run that halts. -/
theorem halts (hfirst : Relays made' e receipts first) {halt : Halt} {t : Desk W D (A × List Receipt)}
    (hrun : first = .error halt t) : Relays made e receipts (.error halt t) := by
  obtain ⟨log, hfinal, hlog, -, herror⟩ := hfirst
  rw [hrun] at hfinal
  refine ⟨log, hfinal, hlog, by simp, ?_⟩
  rintro _ _ ⟨⟩
  exact herror halt t hrun

end

end Relays

/-! ## The parts of a dispatch -/

section

variable (conduct : HandlingConduct W D A)

/-- A delivery relays the event to the receiver of the view, if there is one. -/
theorem deliver_relays (v : View) {e : Event} (hgoes : e.propagating = true) (s : Desk W D (A × List Receipt)) :
    Relays id e s.receipts (deliver conduct.recorded v e s) := by
  cases hnode : s.forest.node? v with
  | none =>
    rw [deliver_of_dead _ hnode]
    exact .halted hgoes _ s
  | some node =>
    rw [deliver_eq hnode]
    cases node.widget with
    | none => exact .done id e s
    | some widget =>
      dsimp only
      cases hhandle : conduct widget with
      | none =>
        simp only [receive, HandlingConduct.recorded_eq hhandle, Option.map_none]
        change Relays id e s.receipts (.ok (e.amended e) (putBack (takeWidget s v) v widget))
        rw [Event.amended_self]
        exact .done id e (putBack (takeWidget s v) v widget)
      | some handle =>
        simp only [receive, HandlingConduct.recorded_eq hhandle, Option.map_some, leavingReceipt]
        cases handle v e (takeWidget s v).plain with
        | ok answer t =>
          refine ⟨[⟨v, e, some answer.2⟩], rfl, ⟨rfl, hgoes, trivial⟩, ?_, by simp⟩
          rintro _ _ ⟨⟩
          rfl
        | error halt t =>
          refine ⟨[⟨v, e, none⟩], rfl, ⟨rfl, hgoes, trivial⟩, by simp, ?_⟩
          intro _ _ _ hstopped
          rw [show e.after [⟨v, e, none⟩] = e from rfl, hgoes] at hstopped
          cases hstopped

theorem upwards_relays (steps : Nat) (start : Option View) (e : Event) (seen : List View)
    (s : Desk W D (A × List Receipt)) :
    Relays Prod.fst e s.receipts (upwards conduct.recorded steps start e seen s) := by
  induction steps generalizing start e seen s with
  | zero =>
    cases start with
    | none => exact .done Prod.fst (e, seen) s
    | some v => exact .exhausted e s
  | succ steps ih =>
    cases start with
    | none => exact .done Prod.fst (e, seen) s
    | some v =>
      cases hgoes : e.propagating && s.forest.contains v with
      | false =>
        rw [upwards_of_ended _ _ hgoes]
        exact .done Prod.fst (e, seen) s
      | true =>
        obtain ⟨hgoes, hlive⟩ := Bool.and_eq_true_iff.mp hgoes
        rw [upwards_succ _ _ _ hgoes hlive]
        split
        · exact ih _ e seen s
        · have hdeliver := deliver_relays conduct v hgoes s
          cases hrun : deliver conduct.recorded v e s with
          | error halt t => exact hdeliver.halts hrun
          | ok e' t => exact hdeliver.goOn hrun (ih _ e' (v :: seen) t)

theorem broadcast_relays (steps : Nat) (leaves : List View) (e : Event) (seen : List View)
    (s : Desk W D (A × List Receipt)) :
    Relays id e s.receipts (broadcast conduct.recorded steps leaves e seen s) := by
  induction leaves generalizing e seen s with
  | nil => exact .done id e s
  | cons leaf rest ih =>
    have hwalk := upwards_relays conduct steps (some leaf) e seen s
    rw [broadcast_cons]
    cases hrun : upwards conduct.recorded steps (some leaf) e seen s with
    | error halt t => exact hwalk.halts hrun
    | ok answer t =>
      obtain ⟨e', seen'⟩ := answer
      refine hwalk.goOn hrun ?_
      dsimp only
      split
      · exact ih e' seen' t
      · exact .done id e' t

theorem toTarget_relays (steps : Nat) (e : Event) (s : Desk W D (A × List Receipt)) :
    Relays Prod.fst e s.receipts (toTarget conduct.recorded steps e s) := by
  unfold toTarget
  cases e.target with
  | none => exact .done Prod.fst (e, []) s
  | some target =>
    dsimp only
    rw [Pass.bind_get]
    split
    · exact upwards_relays conduct steps (some target) e [] s
    · exact .done Prod.fst (e, []) _

theorem direct_relays (steps : Nat) (e : Event) (s : Desk W D (A × List Receipt)) :
    Relays Prod.fst e s.receipts (direct conduct.recorded steps e s) := by
  rw [direct_eq]
  cases s.redirects.find? e.kind with
  | none => exact toTarget_relays conduct steps e s
  | some redirect =>
    dsimp only
    split
    · exact upwards_relays conduct steps (some redirect.view) e e.target.toList s
    · exact toTarget_relays conduct steps e (s.forgoing e.kind redirect)

/-- The leaves are asked for only if the event goes on after the first phase. -/
theorem dispatchEvent_relays (steps : Nat) (root : View) (e : Event) (s : Desk W D (A × List Receipt)) :
    Relays id e s.receipts (dispatchEvent conduct.recorded steps root e s) := by
  have hfirst := direct_relays conduct steps e s
  rw [dispatchEvent_eq]
  cases hrun : direct conduct.recorded steps e s with
  | error halt t => exact hfirst.halts hrun
  | ok answer t =>
    obtain ⟨e', seen⟩ := answer
    refine hfirst.goOn hrun ?_
    dsimp only
    cases hgoes : e'.propagating with
    | false => exact .done id e' t
    | true =>
      rw [if_pos rfl]
      cases t.forest.leafViews root with
      | error halt => exact .halted hgoes halt t
      | ok found =>
        obtain ⟨leaves, f⟩ := found
        exact broadcast_relays conduct steps (leaves.map (·.view)) e' seen { t with forest := f }

theorem Round.relays (steps : Nat) (root : View) (round : Round W D (A × List Receipt)) :
    let result := dispatchEvent conduct.recorded steps root round.event round.desk
    let log := round.log conduct steps root
    Relayed round.event log ∧ (∀ e t, result = .ok e t → e = round.event.after log) ∧
      ∀ halt t, result = .error halt t → (round.event.after log).propagating = false → halt = .exhausted := by
  obtain ⟨log, hfinal, hlog, hok, herror⟩ := dispatchEvent_relays conduct steps root round.event round.desk
  have hround : round.log conduct steps root = log := by rw [Round.log, hfinal, List.drop_left]
  dsimp only
  rw [hround]
  exact ⟨hlog, hok, herror⟩

end

/-! ## What is in the queue behind an event -/

section

variable {conduct : HandlingConduct W D A}

variable (hconduct : conduct.Appends)
include hconduct

/-- The dispatch of an event leaves what is in the queue where it is. -/
theorem queue_prefix_dispatchEvent (steps : Nat) (root : View) (e : Event) :
    Pass.Carries Desk.queue (· <+: ·) (dispatchEvent conduct steps root e) :=
  (carriesTo_dispatchEvent (Q := fun _ ↦ True) (fun _ _ _ hqueue ↦ by rw [hqueue])
    (fun _ _ _ ↦ trivial) (fun widget handle hhandle v e _ s ↦ (hconduct widget handle hhandle v e s).1)
    steps root trivial).1

theorem queue_prefix_of_dispatched {steps : Nat} {root : View} {e e' : Event} {s t : Desk W D A}
    (hrun : dispatchEvent conduct steps root e s = .ok e' t) : s.queue <+: t.queue := by
  have hkept := queue_prefix_dispatchEvent hconduct steps root e s
  rwa [hrun, Pass.final_ok] at hkept

/-- A pass that ends has had rounds for all that was in the queue. -/
theorem queue_prefix_rounds {steps : Nat} {root : View} {events : Nat} {s t : Desk W D A} {done : List Event}
    (h : drain conduct steps root events s = .ok done t) :
    s.queue <+: (rounds conduct steps root events s).map Round.event := by
  induction events generalizing s done with
  | zero =>
    rw [drain_zero] at h
    split at h
    case isTrue hempty => simp [List.isEmpty_iff.mp hempty]
    case isFalse => cases h
  | succ events ih =>
    rcases drain_succ_eq_ok conduct steps root h with ⟨hqueue, -, -⟩ |
      ⟨e, rest, e', u, done', hqueue, hrun, hrest, hrounds⟩
    · rw [hqueue]
      exact List.nil_prefix
    · have hkept : rest <+: u.queue := queue_prefix_of_dispatched hconduct hrun
      rw [hqueue, hrounds]
      exact List.cons_prefix_cons.mpr ⟨rfl, hkept.trans (ih hrest)⟩

/-- Every round of a pass that ends is followed by rounds for what was in the queue behind its event. -/
theorem queue_prefix_later {steps : Nat} {root : View} {events : Nat} {s t : Desk W D A} {done : List Event}
    (h : drain conduct steps root events s = .ok done t) {before after : List (Round W D A)}
    {round : Round W D A} (hsplit : rounds conduct steps root events s = before ++ round :: after) :
    round.desk.queue <+: after.map Round.event := by
  induction events generalizing s done before with
  | zero => simp [rounds] at hsplit
  | succ events ih =>
    rcases drain_succ_eq_ok conduct steps root h with ⟨-, -, hrounds⟩ |
      ⟨e, rest, e', u, done', -, hrun, hrest, hrounds⟩
    · simp [hrounds] at hsplit
    · rw [hrounds] at hsplit
      cases before with
      | nil =>
        obtain ⟨rfl, rfl⟩ := List.cons.inj hsplit
        have hkept : rest <+: u.queue := queue_prefix_of_dispatched hconduct hrun
        exact hkept.trans (queue_prefix_rounds hconduct hrest)
      | cons first before => exact ih hrest (List.cons.inj hsplit).2

/-- As long as rounds come to an end, there are more of them for what is in the queue, up to the bound of the pass. -/
theorem take_queue_prefix_rounds {steps : Nat} {root : View} {events : Nat} {s : Desk W D A}
    (hends : ∀ round ∈ rounds conduct steps root events s, ∃ e t,
      dispatchEvent conduct steps root round.event round.desk = .ok e t) :
    s.queue.take events <+: (rounds conduct steps root events s).map Round.event := by
  induction events generalizing s with
  | zero => exact List.nil_prefix
  | succ events ih =>
    rw [rounds] at hends ⊢
    cases hqueue : s.queue with
    | nil => exact List.nil_prefix
    | cons e rest =>
      rw [hqueue] at hends
      obtain ⟨⟨e', u, hrun⟩, hrest⟩ := List.forall_mem_cons.mp hends
      dsimp only at hrun ⊢
      have hkept : rest <+: u.queue := queue_prefix_of_dispatched hconduct hrun
      rw [hrun] at hrest ⊢
      exact List.cons_prefix_cons.mpr ⟨rfl, (hkept.take events).trans (ih hrest)⟩

/-- The same goes for what is in the queue behind the event of a round. Receivers may keep the pass going by posting. -/
theorem take_queue_prefix_later {steps : Nat} {root : View} {events : Nat} {s : Desk W D A}
    {before after : List (Round W D A)} {round : Round W D A}
    (hsplit : rounds conduct steps root events s = before ++ round :: after)
    (hends : ∀ later ∈ round :: after, ∃ e t,
      dispatchEvent conduct steps root later.event later.desk = .ok e t) :
    round.desk.queue.take (events - (before.length + 1)) <+: after.map Round.event := by
  induction events generalizing s before with
  | zero => simp [rounds] at hsplit
  | succ events ih =>
    rw [rounds] at hsplit
    cases hqueue : s.queue with
    | nil => simp [hqueue] at hsplit
    | cons e rest =>
      rw [hqueue] at hsplit
      cases before with
      | nil =>
        obtain ⟨rfl, rfl⟩ := List.cons.inj hsplit
        obtain ⟨⟨e', u, hrun⟩, hrest⟩ := List.forall_mem_cons.mp hends
        dsimp only at hrun ⊢
        have hkept : rest <+: u.queue := queue_prefix_of_dispatched hconduct hrun
        rw [hrun] at hrest ⊢
        exact (hkept.take events).trans (take_queue_prefix_rounds hconduct hrest)
      | cons first before =>
        have hlater := (List.cons.inj hsplit).2
        cases hrun : dispatchEvent conduct steps root e { s with queue := rest } with
        | error halt u => simp [hrun] at hlater
        | ok e' u =>
          rw [hrun] at hlater
          rw [List.length_cons, Nat.add_sub_add_right]
          exact ih hlater

/-- An event that was stopped, by a receiver or before it was posted, is received by nobody from then on, and its
dispatch does not halt any more, except for the bound of the caller. What is in the queue behind it gets its
rounds in a pass that ends. In any other pass it gets them up to the bound as long as no round halts, also if
receivers keep the pass going. -/
theorem stopped_reaches_nobody (steps : Nat) (root : View) (s : Desk W D A) :
    let start := s.withReceipts []
    let history := rounds conduct.recorded steps root steps start.pruned
    dropReceipts (dispatch conduct.recorded steps root start) = dispatch conduct steps root s ∧
      (Pass.final (dispatch conduct.recorded steps root start)).receipts =
        history.flatMap (Round.log conduct steps root) ∧
      (∀ round ∈ history, ∀ before after, round.log conduct steps root = before ++ after →
        ((round.event.after before).propagating = false → after = []) ∧
          ∀ receipt ∈ after.head?, receipt.event = round.event.after before) ∧
      (∀ round ∈ history, ∀ halt t,
        dispatchEvent conduct.recorded steps root round.event round.desk = .error halt t →
          (round.event.after (round.log conduct steps root)).propagating = false → halt = .exhausted) ∧
      (∀ before round after, history = before ++ round :: after →
        (∀ later ∈ round :: after, ∃ e t,
          dispatchEvent conduct.recorded steps root later.event later.desk = .ok e t) →
        round.desk.queue.take (steps - (before.length + 1)) <+: after.map Round.event) ∧
      ∀ done t, dispatch conduct steps root s = .ok done t → ∀ before round after,
        history = before ++ round :: after → round.desk.queue <+: after.map Round.event := by
  refine ⟨erases_dispatch conduct steps root _, ?_, ?_, ?_, ?_, ?_⟩
  · rw [dispatch_eq, drain_logs]
    rfl
  · intro round _ before after hlog
    have hrelayed := (round.relays conduct steps root).1
    rw [hlog, relayed_append] at hrelayed
    refine ⟨hrelayed.2.eq_nil, fun receipt hreceipt ↦ ?_⟩
    obtain ⟨rest, rfl⟩ := List.head?_eq_some_iff.mp hreceipt
    exact hrelayed.2.1
  · exact fun round _ ↦ (round.relays conduct steps root).2.2
  · exact fun before round after hsplit hends ↦ take_queue_prefix_later hconduct.recorded hsplit hends
  · intro done t hrun before round after hsplit
    have herased := erases_dispatch conduct steps root (s.withReceipts [])
    rw [show (s.withReceipts []).plain = s from rfl, hrun] at herased
    cases hrecorded : dispatch conduct.recorded steps root (s.withReceipts []) with
    | error halt u =>
      rw [hrecorded] at herased
      cases herased
    | ok done' u => exact queue_prefix_later hconduct.recorded hrecorded hsplit

end

/-- A view stops the request to close its window and has later ones sent to the window. The window does not
receive this one, but it receives the event that was posted behind it. -/
theorem stopped_reaches_nobody_redirected : ∃ (conduct : HandlingConduct Unit Unit Unit) (s : Desk Unit Unit Unit),
    let start := s.withReceipts []
    conduct.Appends ∧ s.queue.map Event.kind = [.closeRequest, .move] ∧
      (Pass.final (dispatch conduct.recorded 5 ⟨1⟩ start)).receipts.map
          (fun receipt ↦ (receipt.event.kind, receipt.view)) =
        [(.closeRequest, ⟨2⟩), (.move, ⟨2⟩), (.move, ⟨1⟩)] ∧
      ∀ round ∈ rounds conduct.recorded 5 ⟨1⟩ 5 start.pruned, ∀ before after,
        round.log conduct 5 ⟨1⟩ = before ++ after → (round.event.after before).propagating = false → after = [] := by
  let handle (_ : View) (e : Event) : Pass (Desk Unit Unit Unit) (Unit × Event) := do
    if e.kind = .closeRequest then
      Desk.redirect .closeRequest (some ⟨1⟩)
      return ((), e.stop)
    else return ((), e)
  let conduct : HandlingConduct Unit Unit Unit := fun _ ↦ some handle
  let apart : Forest Unit := ((Forest.empty.createWindow .zero).2.create .zero).2
  let s : Desk Unit Unit Unit :=
    { forest := (apart.added ⟨1⟩ ⟨2⟩).equipped () [⟨1⟩, ⟨2⟩]
      queue := [(Event.closeRequest none).withTarget ⟨2⟩, (Event.moved none .zero).withTarget ⟨2⟩]
      redirects := .empty
      deferred := []
      ambient := ⟨#[], ()⟩ }
  have happends : conduct.Appends := by
    rintro _ _ ⟨⟩ v e s
    by_cases hkind : e.kind = .closeRequest
    · have hrun : handle v e s = (do
          Desk.redirect .closeRequest (some ⟨1⟩)
          return ((), e.stop) : Pass (Desk Unit Unit Unit) (Unit × Event)) s := by
        simp only [handle, if_pos hkind]
      rw [hrun]
      exact ⟨List.prefix_rfl, List.prefix_rfl⟩
    · have hrun : handle v e s = .ok ((), e) s := by
        simp only [handle, if_neg hkind]
        rfl
      rw [hrun]
      exact ⟨List.prefix_rfl, List.prefix_rfl⟩
  obtain ⟨-, -, hstopped, -⟩ := stopped_reaches_nobody happends 5 ⟨1⟩ s
  exact ⟨conduct, s, happends, rfl, by decide +kernel,
    fun round hround before after hlog ↦ (hstopped round hround before after hlog).1⟩

end Routing

end RetainedUi
