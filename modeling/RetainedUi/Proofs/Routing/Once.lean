import RetainedUi.Proofs.Routing.Order

/-!
# No view receives an event twice

Whatever the receivers do to the forest, a view that has seen an event is skipped for the rest of its
dispatch. Views are told apart by their handles here: a view that is created during the dispatch in the slot
of one that has seen the event counts as having seen it.

What a part of a dispatch adds to the receipts belongs to views that had not seen the event, each of them
once, and the part answers with a list of seen views that holds all of these.
-/

namespace RetainedUi.Routing

variable {W D A : Type}

/-! ## Receipts of unseen views -/

/-- Receipts of views that had not seen the event, each of them once. -/
structure Fresh (seen : List View) (log : List Receipt) : Prop where
  nodup : (log.map Receipt.view).Nodup
  unseen : ∀ v ∈ log.map Receipt.view, v ∉ seen

namespace Fresh

variable {seen seen' : List View} {log log' : List Receipt}

theorem nil (seen : List View) : Fresh seen [] := ⟨List.nodup_nil, by simp⟩

theorem mono (h : Fresh seen' log) (hmore : seen ⊆ seen') : Fresh seen log :=
  ⟨h.nodup, fun v hv hseen ↦ h.unseen v hv (hmore hseen)⟩

/-- Fresh receipts go on being fresh if whoever left one has seen the event. -/
theorem append (h : Fresh seen log) (hmore : seen ⊆ seen') (hlog : log.map Receipt.view ⊆ seen')
    (h' : Fresh seen' log') : Fresh seen (log ++ log') := by
  refine ⟨?_, ?_⟩
  · rw [List.map_append]
    refine h.nodup.append h'.nodup fun v hv hv' ↦ ?_
    exact h'.unseen v hv' (hlog hv)
  · rw [List.map_append]
    intro v hv
    rcases List.mem_append.mp hv with hv | hv
    · exact h.unseen v hv
    · exact (h'.mono hmore).unseen v hv

theorem of_delivery {v : View} (hunseen : v ∉ seen) {receives : Bool}
    (hlog : log.map Receipt.view = if receives then [v] else []) : Fresh seen log := by
  cases receives <;> exact ⟨by simp [hlog], by simp [hlog, hunseen]⟩

end Fresh

/-- A run adds fresh receipts only, and if it comes to an answer, whoever left one has seen the event. -/
def LogsFresh (seen : List View) (receipts : List Receipt)
    (result : EStateM.Result Halt (Desk W D (A × List Receipt)) (Event × List View)) : Prop :=
  ∃ log, (Pass.final result).receipts = receipts ++ log ∧ Fresh seen log ∧
    ∀ e' seen' t, result = .ok (e', seen') t → seen ⊆ seen' ∧ log.map Receipt.view ⊆ seen'

namespace LogsFresh

variable {seen seen' : List View} {receipts log : List Receipt}
variable {result : EStateM.Result Halt (Desk W D (A × List Receipt)) (Event × List View)}

theorem done (e : Event) (seen : List View) (s : Desk W D (A × List Receipt)) :
    LogsFresh seen s.receipts (.ok (e, seen) s) := by
  refine ⟨[], by simp, .nil seen, ?_⟩
  rintro e' seen' t ⟨⟩
  simp

theorem halted (seen : List View) (halt : Halt) (s : Desk W D (A × List Receipt)) :
    LogsFresh seen s.receipts
      (.error halt s : EStateM.Result Halt (Desk W D (A × List Receipt)) (Event × List View)) :=
  ⟨[], by simp, .nil seen, by simp⟩

/-- A run goes on after fresh receipts. -/
theorem after (hlog : Fresh seen log) (hmore : seen ⊆ seen') (hseen : log.map Receipt.view ⊆ seen')
    (h : LogsFresh seen' (receipts ++ log) result) : LogsFresh seen receipts result := by
  obtain ⟨log', hfinal, hfresh, hanswer⟩ := h
  refine ⟨log ++ log', ?_, hlog.append hmore hseen hfresh, fun e' seen'' t hok ↦ ?_⟩
  · rw [hfinal, List.append_assoc]
  · obtain ⟨hseen', hlog'⟩ := hanswer e' seen'' t hok
    rw [List.map_append]
    exact ⟨List.Subset.trans hmore hseen',
      List.append_subset.mpr ⟨List.Subset.trans hseen hseen', hlog'⟩⟩

end LogsFresh

/-! ## The parts of a dispatch -/

section

variable (conduct : HandlingConduct W D A)

/-- A delivery leaves one receipt if the view has a receiver, and none otherwise. -/
theorem deliver_logs (v : View) (e : Event) (s : Desk W D (A × List Receipt)) :
    ∃ log, (Pass.final (deliver conduct.recorded v e s)).receipts = s.receipts ++ log ∧
      log.map Receipt.view = if handles conduct s.forest v then [v] else [] := by
  cases hnode : s.forest.node? v with
  | none =>
    refine ⟨[], ?_, by simp [handles, Forest.widget?, hnode]⟩
    rw [deliver_of_dead _ hnode, List.append_nil]
    rfl
  | some node =>
    have hhandles : handles conduct s.forest v = node.widget.any fun widget ↦ (conduct widget).isSome := by
      rw [handles, Forest.widget?, hnode, Option.bind_some]
    rw [deliver_eq hnode, hhandles]
    cases node.widget with
    | none => exact ⟨[], by simp, rfl⟩
    | some widget =>
      dsimp only
      cases hhandle : conduct widget with
      | none =>
        refine ⟨[], ?_, by simp [hhandle]⟩
        simp only [receive, HandlingConduct.recorded_eq hhandle, Option.map_none, List.append_nil]
        rfl
      | some handle =>
        simp only [receive, HandlingConduct.recorded_eq hhandle, Option.map_some, leavingReceipt]
        cases handle v e (takeWidget s v).plain with
        | ok answer t => exact ⟨[⟨v, e, some answer.2⟩], rfl, by simp [hhandle]⟩
        | error halt t => exact ⟨[⟨v, e, none⟩], rfl, by simp [hhandle]⟩

/-- A walk delivers to unseen views only, and counts each of them as having seen the event from then on. -/
theorem upwards_logs (steps : Nat) (start : Option View) (e : Event) (seen : List View)
    (s : Desk W D (A × List Receipt)) :
    LogsFresh seen s.receipts (upwards conduct.recorded steps start e seen s) := by
  induction steps generalizing start e seen s with
  | zero =>
    cases start with
    | none => exact .done e seen s
    | some v => exact .halted seen _ s
  | succ steps ih =>
    cases start with
    | none => exact .done e seen s
    | some v =>
      cases hgoes : e.propagating && s.forest.contains v with
      | false =>
        rw [upwards_of_ended _ _ hgoes]
        exact .done e seen s
      | true =>
        obtain ⟨hgoes, hlive⟩ := Bool.and_eq_true_iff.mp hgoes
        rw [upwards_succ _ _ _ hgoes hlive]
        by_cases hseen : v ∈ seen
        · rw [if_pos (List.contains_iff_mem.mpr hseen)]
          exact ih _ e seen s
        · rw [if_neg (by simpa using hseen)]
          obtain ⟨log, hlog, hviews⟩ := deliver_logs conduct v e s
          have hfresh : Fresh seen log := .of_delivery hseen hviews
          -- The view counts as having seen the event even where it has left no receipt.
          have hmem : log.map Receipt.view ⊆ v :: seen := by
            rw [hviews]
            split <;> simp
          cases hdeliver : deliver conduct.recorded v e s with
          | error halt t =>
            rw [hdeliver] at hlog
            exact ⟨log, hlog, hfresh, by simp⟩
          | ok e' t =>
            rw [hdeliver, Pass.final_ok] at hlog
            have hrest := ih (t.forest.superview? v) e' (v :: seen) t
            rw [hlog] at hrest
            exact .after hfresh (List.subset_cons_self v seen) hmem hrest

theorem broadcast_logs (steps : Nat) (leaves : List View) (e : Event) (seen : List View)
    (s : Desk W D (A × List Receipt)) :
    ∃ log, (Pass.final (broadcast conduct.recorded steps leaves e seen s)).receipts = s.receipts ++ log ∧
      Fresh seen log := by
  induction leaves generalizing e seen s with
  | nil => exact ⟨[], (List.append_nil _).symm, .nil seen⟩
  | cons leaf rest ih =>
    obtain ⟨log, hlog, hfresh, hanswer⟩ := upwards_logs conduct steps (some leaf) e seen s
    rw [broadcast_cons]
    cases hrun : upwards conduct.recorded steps (some leaf) e seen s with
    | error halt t =>
      rw [hrun] at hlog
      exact ⟨log, hlog, hfresh⟩
    | ok answer t =>
      obtain ⟨e', seen'⟩ := answer
      rw [hrun, Pass.final_ok] at hlog
      dsimp only
      cases e'.propagating with
      | false => exact ⟨log, hlog, hfresh⟩
      | true =>
        obtain ⟨hmore, hmem⟩ := hanswer e' seen' t hrun
        obtain ⟨log', hlog', hfresh'⟩ := ih e' seen' t
        refine ⟨log ++ log', ?_, hfresh.append hmore hmem hfresh'⟩
        calc (Pass.final (broadcast conduct.recorded steps rest e' seen' t)).receipts
          _ = t.receipts ++ log' := hlog'
          _ = s.receipts ++ (log ++ log') := by rw [hlog, List.append_assoc]

theorem toTarget_logs (steps : Nat) (e : Event) (s : Desk W D (A × List Receipt)) :
    LogsFresh [] s.receipts (toTarget conduct.recorded steps e s) := by
  unfold toTarget
  cases e.target with
  | none => exact .done e [] s
  | some target =>
    dsimp only
    rw [Pass.bind_get]
    split
    · exact upwards_logs conduct steps (some target) e [] s
    · exact .done e [] _

/-- The first phase counts the target of a redirected event as having seen it. -/
theorem direct_logs (steps : Nat) (e : Event) (s : Desk W D (A × List Receipt)) :
    LogsFresh (leftOut s e) s.receipts (direct conduct.recorded steps e s) := by
  rw [direct_eq, leftOut, Redirects.target?]
  cases s.redirects.find? e.kind with
  | none => exact toTarget_logs conduct steps e s
  | some redirect =>
    dsimp only
    cases redirect.isLive s.forest with
    | true => exact upwards_logs conduct steps (some redirect.view) e e.target.toList s
    | false => exact toTarget_logs conduct steps e (s.forgoing e.kind redirect)

/-- Every view leaves at most one receipt for an event, and the target of a redirected event none. -/
theorem dispatchEvent_logs (steps : Nat) (root : View) (e : Event) (s : Desk W D (A × List Receipt)) :
    ∃ log, (Pass.final (dispatchEvent conduct.recorded steps root e s)).receipts = s.receipts ++ log ∧
      Fresh (leftOut s e) log := by
  obtain ⟨log, hlog, hfresh, hanswer⟩ := direct_logs conduct steps e s
  rw [dispatchEvent_eq]
  cases hrun : direct conduct.recorded steps e s with
  | error halt t =>
    rw [hrun] at hlog
    exact ⟨log, hlog, hfresh⟩
  | ok answer t =>
    obtain ⟨e', seen⟩ := answer
    rw [hrun, Pass.final_ok] at hlog
    dsimp only
    cases e'.propagating with
    | false => exact ⟨log, hlog, hfresh⟩
    | true =>
      rw [if_pos rfl]
      cases t.forest.leafViews root with
      | error halt => exact ⟨log, hlog, hfresh⟩
      | ok found =>
        obtain ⟨leaves, f⟩ := found
        obtain ⟨hmore, hmem⟩ := hanswer e' seen t hrun
        obtain ⟨log', hlog', hfresh'⟩ :=
          broadcast_logs conduct steps (leaves.map (·.view)) e' seen { t with forest := f }
        refine ⟨log ++ log', ?_, hfresh.append hmore hmem hfresh'⟩
        calc (Pass.final (broadcast conduct.recorded steps (leaves.map (·.view)) e' seen
              { t with forest := f })).receipts
          _ = t.receipts ++ log' := hlog'
          _ = s.receipts ++ (log ++ log') := by rw [hlog, List.append_assoc]

/-! ## Whole passes -/

/-- The receipts that are added in a round. -/
def Round.log (steps : Nat) (root : View) (round : Round W D (A × List Receipt)) : List Receipt :=
  (Pass.final (dispatchEvent conduct.recorded steps root round.event round.desk)).receipts.drop
    round.desk.receipts.length

theorem Round.receipts_eq (steps : Nat) (root : View) (round : Round W D (A × List Receipt)) :
    (Pass.final (dispatchEvent conduct.recorded steps root round.event round.desk)).receipts =
      round.desk.receipts ++ round.log conduct steps root := by
  obtain ⟨log, hlog, -⟩ := dispatchEvent_logs conduct steps root round.event round.desk
  rw [Round.log, hlog, List.drop_left]

theorem Round.fresh_log (steps : Nat) (root : View) (round : Round W D (A × List Receipt)) :
    Fresh (leftOut round.desk round.event) (round.log conduct steps root) := by
  obtain ⟨log, hlog, hfresh⟩ := dispatchEvent_logs conduct steps root round.event round.desk
  rw [Round.log, hlog, List.drop_left]
  exact hfresh

/-- All receipts of a pass are left in its rounds. -/
theorem drain_logs (steps : Nat) (root : View) (events : Nat) (s : Desk W D (A × List Receipt)) :
    (Pass.final (drain conduct.recorded steps root events s)).receipts =
      s.receipts ++ (rounds conduct.recorded steps root events s).flatMap (Round.log conduct steps root) := by
  induction events generalizing s with
  | zero => rw [final_drain_zero, rounds, List.flatMap_nil, List.append_nil]
  | succ events ih =>
    rw [final_drain_succ, rounds]
    cases s.queue with
    | nil => rw [List.flatMap_nil, List.append_nil]
    | cons e rest =>
      have hround := Round.receipts_eq conduct steps root ⟨e, { s with queue := rest }⟩
      dsimp only at hround ⊢
      rw [List.flatMap_cons]
      cases hrun : dispatchEvent conduct.recorded steps root e { s with queue := rest } with
      | error halt t =>
        rw [hrun] at hround
        rw [List.flatMap_nil, List.append_nil]
        exact hround
      | ok e' t =>
        rw [hrun, Pass.final_ok] at hround
        dsimp only
        rw [ih t, hround, List.append_assoc]
        rfl

/-- In a pass no view receives the same event twice, whatever the receivers do. -/
theorem dispatch_receives_once (steps : Nat) (root : View) (s : Desk W D A) :
    let start := s.withReceipts []
    let history := rounds conduct.recorded steps root steps start.pruned
    dropReceipts (dispatch conduct.recorded steps root start) = dispatch conduct steps root s ∧
      (Pass.final (dispatch conduct.recorded steps root start)).receipts =
        history.flatMap (Round.log conduct steps root) ∧
      ∀ round ∈ history, ∀ v, ((round.log conduct steps root).map Receipt.view).count v ≤ 1 := by
  refine ⟨erases_dispatch conduct steps root _, ?_, fun round _ v ↦ ?_⟩
  · rw [dispatch_eq, drain_logs]
    rfl
  · exact List.nodup_iff_count_le_one.mp (round.fresh_log conduct steps root).nodup v

end

end RetainedUi.Routing
