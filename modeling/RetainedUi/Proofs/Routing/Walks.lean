import RetainedUi.Proofs.Routing.Delivery
import RetainedUi.Proofs.Routing.Passes

/-!
# Serving an event

An event is served to a list of views: each of them leaves a receipt, and receives what the one before it
made of the event. A walk upwards serves it to those of a view and its ancestors that have not seen it and
have a receiver. Among calm receivers these are known before the walk begins.

Walks from several views serve each view at the first place that it has on all their chains.
-/

namespace RetainedUi

variable {W D A : Type}

/-! ## First places -/

theorem eraseDups_filter {α : Type} [BEq α] [LawfulBEq α] (keep : α → Bool) (as : List α) :
    (as.filter keep).eraseDups = as.eraseDups.filter keep := by
  -- The tail shrinks by a filter, so the induction is on the length.
  induction hlength : as.length using Nat.strong_induction_on generalizing as with
  | _ n ih =>
    cases as with
    | nil => rfl
    | cons a as =>
      subst hlength
      have hshorter : (as.filter fun b ↦ !b == a).length < (a :: as).length :=
        Nat.lt_succ_of_le (List.length_filter_le _ _)
      have htail := ih _ hshorter (as.filter fun b ↦ !b == a) rfl
      rw [List.eraseDups_cons]
      by_cases hkeep : keep a = true
      · rw [List.filter_cons_of_pos hkeep, List.filter_cons_of_pos hkeep, List.eraseDups_cons, ← htail,
          List.filter_comm]
      · rw [List.filter_cons_of_neg hkeep, List.filter_cons_of_neg hkeep, ← htail]
        congr 1
        rw [List.filter_filter]
        apply List.filter_congr
        intro b _
        cases hb : keep b with
        | false => rfl
        | true =>
          have hne : b ≠ a := fun h ↦ hkeep (h ▸ hb)
          simp [hne]

theorem nodup_eraseDups {α : Type} [BEq α] [LawfulBEq α] (as : List α) : as.eraseDups.Nodup := by
  induction hlength : as.length using Nat.strong_induction_on generalizing as with
  | _ n ih =>
    cases as with
    | nil => exact List.nodup_nil
    | cons a as =>
      subst hlength
      have hshorter : (as.filter fun b ↦ !b == a).length < (a :: as).length :=
        Nat.lt_succ_of_le (List.length_filter_le _ _)
      rw [List.eraseDups_cons]
      refine List.nodup_cons.mpr ⟨?_, ih _ hshorter _ rfl⟩
      rw [List.mem_eraseDups]
      simp

theorem eraseDups_of_nodup {α : Type} [BEq α] [LawfulBEq α] {as : List α} (h : as.Nodup) :
    as.eraseDups = as := by
  apply Forest.eraseDupsBy_eq_self
  exact h.imp fun hne ↦ beq_eq_false_iff_ne.mpr (Ne.symm hne)

/-- The views of a list that are not among others, each at its first place. -/
def firsts (others vs : List View) : List View := vs.eraseDups.filter fun v ↦ !others.contains v

theorem firsts_congr {others others' : List View} (h : ∀ v, v ∈ others ↔ v ∈ others') (vs : List View) :
    firsts others vs = firsts others' vs := by
  apply List.filter_congr
  intro v _
  congr 1
  rw [Bool.eq_iff_iff, List.contains_iff_mem, List.contains_iff_mem, h]

theorem firsts_append {chain : List View} (hchain : chain.Nodup) (others vs : List View) :
    firsts others (chain ++ vs) =
      (chain.filter fun v ↦ !others.contains v) ++ firsts (others ++ chain) vs := by
  unfold firsts
  rw [List.eraseDups_append, eraseDups_of_nodup hchain, List.filter_append, List.removeAll,
    eraseDups_filter, List.filter_filter]
  congr 1
  apply List.filter_congr
  intro v _
  simp [Bool.and_comm]

/-! ## Serving -/

/-- An event is served to a list of views. Each leaves a receipt, and the answer of one is amended into
the event before the next one receives it. Who stops the event is the last one to receive it. -/
inductive Served : List View → Event → List Receipt → Event → Prop where
  | done (e : Event) : Served [] e [] e
  | passed {v : View} {todo : List View} {e answer e' : Event} {log : List Receipt}
      (hgoes : (e.amended answer).propagating = true) (hrest : Served todo (e.amended answer) log e') :
      Served (v :: todo) e (⟨v, e, some answer⟩ :: log) e'
  | stopped {v : View} {todo : List View} {e answer : Event}
      (hstops : (e.amended answer).propagating = false) :
      Served (v :: todo) e [⟨v, e, some answer⟩] (e.amended answer)

namespace Served

variable {todo others : List View} {e e' e'' : Event} {log log' : List Receipt}

theorem append (h : Served todo e log e') (hgoes : e'.propagating = true)
    (hothers : Served others e' log' e'') : Served (todo ++ others) e (log ++ log') e'' := by
  induction h with
  | done => exact hothers
  | passed hpassed _ ih => exact .passed hpassed (ih hgoes hothers)
  | stopped hstops =>
    rw [hstops] at hgoes
    cases hgoes

/-- Nobody behind a view that stops an event receives it. -/
theorem append_of_stopped (h : Served todo e log e') (hstart : e.propagating = true)
    (hstops : e'.propagating = false) (others : List View) : Served (todo ++ others) e log e' := by
  induction h with
  | done =>
    rw [hstops] at hstart
    cases hstart
  | passed hpassed _ ih => exact .passed hpassed (ih hpassed hstops)
  | stopped hlast => exact .stopped hlast

/-- All views receive an event that is not stopped. -/
theorem map_view (h : Served todo e log e') (hgoes : e'.propagating = true) :
    log.map Receipt.view = todo := by
  induction h with
  | done => rfl
  | passed _ _ ih => rw [List.map_cons, ih hgoes]
  | stopped hstops =>
    rw [hstops] at hgoes
    cases hgoes

end Served

namespace Routing

/-! ## One walk upwards -/

/-- A view and its ancestors, of which a dead view has none. -/
def chain (f : Forest W) (v : View) : List View :=
  match f.lineage v with
  | .ok vs => vs
  | .error _ => []

theorem ascends_chain {f : Forest W} (hf : f.WellFormed) {v : View} (hv : f.contains v = true) :
    f.Ascends (some v) (chain f v) := by
  obtain ⟨vs, hvs⟩ := hf.exists_ascends hv
  rw [chain, hf.lineage_eq_ok_iff.mpr hvs]
  exact hvs

theorem nodup_chain {f : Forest W} (hf : f.WellFormed) (v : View) : (chain f v).Nodup := by
  unfold chain
  cases hvs : f.lineage v with
  | error halt => exact List.nodup_nil
  | ok vs => exact (hf.lineage_eq_ok_iff.mp hvs).nodup hf

theorem length_chain_le {f : Forest W} (hf : f.WellFormed) {v : View} (hv : f.contains v = true) :
    (chain f v).length ≤ f.slots.size :=
  Forest.length_le_size_slots ((ascends_chain hf hv).nodup hf) (ascends_chain hf hv).contains

/-- A stopped event goes nowhere. -/
theorem upwards_of_stopped {f : Forest W} {conduct : HandlingConduct W D A} {steps : Nat}
    {start : Option View} {vs : List View} (hstart : f.Ascends start vs) (hsteps : vs.length ≤ steps)
    {e : Event} (hstops : e.propagating = false) (seen : List View) (s : Desk W D A) :
    upwards conduct steps start e seen s = .ok (e, seen) s := by
  cases steps with
  | zero =>
    cases hstart with
    | done => rfl
    | step => simp at hsteps
  | succ steps =>
    cases start with
    | none => rfl
    | some v => exact upwards_of_ended conduct steps (by rw [hstops, Bool.false_and]) seen

/-- A walk serves an event to those among some views that have not seen it and have a receiver. Unless it
was stopped, all of these views have seen it afterwards. -/
def Walks (conduct : HandlingConduct W D A) (f : Forest W) (seen vs : List View) (e : Event)
    (receipts : List Receipt)
    (result : EStateM.Result Halt (Desk W D (A × List Receipt)) (Event × List View)) : Prop :=
  ∃ e' seen' t log, result = .ok (e', seen') t ∧ t.receipts = receipts ++ log ∧
    Undisturbed seen' f t.forest ∧
    Served ((vs.filter fun v ↦ !seen.contains v).filter (handles conduct f)) e log e' ∧
    (e'.propagating = true → ∀ v, v ∈ seen' ↔ v ∈ seen ++ vs)

namespace Walks

variable {conduct : HandlingConduct W D A} {f : Forest W} {seen above : List View} {v : View}
variable {e answer : Event} {receipts : List Receipt}
variable {result : EStateM.Result Halt (Desk W D (A × List Receipt)) (Event × List View)}

/-- A view that has seen the event is skipped. -/
theorem skip (hseen : v ∈ seen) (h : Walks conduct f seen above e receipts result) :
    Walks conduct f seen (v :: above) e receipts result := by
  obtain ⟨e', seen', t, log, hrun, hlog, ht, hserved, hmem⟩ := h
  rw [Walks, List.filter_cons_of_neg (by simpa using hseen)]
  refine ⟨e', seen', t, log, hrun, hlog, ht, hserved, fun hgoes w ↦ ?_⟩
  rw [hmem hgoes, List.mem_append, List.mem_append, List.mem_cons]
  constructor
  · exact fun hw ↦ hw.imp_right .inr
  · rintro (hw | rfl | hw)
    · exact .inl hw
    · exact .inl hseen
    · exact .inr hw

variable (hseen : v ∉ seen) (habove : v ∉ above)
include hseen habove

/-- The views above are still unseen when a view has seen the event. -/
theorem filter_cons_seen : ((v :: above).filter fun w ↦ !seen.contains w) =
    v :: above.filter fun w ↦ !(v :: seen).contains w := by
  rw [List.filter_cons_of_pos (by simpa using hseen)]
  congr 1
  apply List.filter_congr
  intro w hw
  have hne : w ≠ v := fun h ↦ habove (h ▸ hw)
  simp [hne]

omit hseen habove in
theorem mem_cons_seen (w : View) : w ∈ (v :: seen) ++ above ↔ w ∈ seen ++ v :: above := by
  simp only [List.mem_append, List.mem_cons]
  tauto

/-- A view without a receiver lets the event pass. -/
theorem pass (hhandles : handles conduct f v = false)
    (h : Walks conduct f (v :: seen) above e receipts result) :
    Walks conduct f seen (v :: above) e receipts result := by
  obtain ⟨e', seen', t, log, hrun, hlog, ht, hserved, hmem⟩ := h
  rw [Walks, filter_cons_seen hseen habove, List.filter_cons_of_neg (by simp [hhandles])]
  exact ⟨e', seen', t, log, hrun, hlog, ht, hserved, fun hgoes w ↦ (hmem hgoes w).trans (mem_cons_seen w)⟩

/-- A receiver amends the event before the walk goes on. -/
theorem serve (hhandles : handles conduct f v = true) (hgoes : (e.amended answer).propagating = true)
    (h : Walks conduct f (v :: seen) above (e.amended answer) (receipts ++ [⟨v, e, some answer⟩]) result) :
    Walks conduct f seen (v :: above) e receipts result := by
  obtain ⟨e', seen', t, log, hrun, hlog, ht, hserved, hmem⟩ := h
  rw [Walks, filter_cons_seen hseen habove, List.filter_cons_of_pos hhandles]
  refine ⟨e', seen', t, ⟨v, e, some answer⟩ :: log, hrun, ?_, ht, .passed hgoes hserved, ?_⟩
  · rw [hlog, List.append_assoc, List.singleton_append]
  · exact fun hgoes w ↦ (hmem hgoes w).trans (mem_cons_seen w)

/-- A receiver that stops the event ends the walk. -/
theorem stop {t : Desk W D (A × List Receipt)} (hhandles : handles conduct f v = true)
    (hstops : (e.amended answer).propagating = false) (ht : Undisturbed (v :: seen) f t.forest)
    (hlog : t.receipts = receipts ++ [⟨v, e, some answer⟩]) :
    Walks conduct f seen (v :: above) e receipts (.ok (e.amended answer, v :: seen) t) := by
  rw [Walks, filter_cons_seen hseen habove, List.filter_cons_of_pos hhandles]
  refine ⟨e.amended answer, v :: seen, t, _, rfl, hlog, ht, .stopped hstops, fun hgoes ↦ ?_⟩
  rw [hstops] at hgoes
  cases hgoes

end Walks

section

variable {conduct : HandlingConduct W D A} {f : Forest W} {steps : Nat}
variable (hcalm : Calm conduct) (hreach : Forest.empty.Reaches f)
include hcalm hreach

theorem upwards_recorded {start : Option View} {vs : List View} (hstart : f.Ascends start vs)
    (hsteps : vs.length ≤ steps) {e : Event} (hgoes : e.propagating = true) {seen : List View}
    {s : Desk W D (A × List Receipt)} (hs : Undisturbed seen f s.forest) :
    Walks conduct f seen vs e s.receipts (upwards conduct.recorded steps start e seen s) := by
  have hf : f.WellFormed := Forest.reachable_wellFormed hreach
  induction hstart generalizing steps e seen s with
  | done =>
    refine ⟨e, seen, s, [], ?_, by simp, hs, .done e, by simp⟩
    cases steps <;> rfl
  | @step v node above hnode habove ih =>
    obtain ⟨steps, rfl⟩ : ∃ n, steps = n + 1 := Nat.exists_eq_succ_of_ne_zero (by simp at hsteps; omega)
    have hsteps' : above.length ≤ steps := by simpa using hsteps
    have hfresh : v ∉ above := (List.nodup_cons.mp ((Forest.Ascends.step hnode habove).nodup hf)).1
    have hlive : s.forest.contains v = true :=
      (hs.contains v).trans (Forest.contains_iff.mpr ⟨node, hnode⟩)
    have hup {seen : List View} {t : Desk W D (A × List Receipt)} (ht : Undisturbed seen f t.forest) :
        t.forest.superview? v = node.superview :=
      (ht.superview v).trans (Forest.superview?_of_node? hnode)
    rw [upwards_succ _ _ _ hgoes hlive]
    by_cases hseen : v ∈ seen
    · rw [if_pos (List.contains_iff_mem.mpr hseen), hup hs]
      exact (ih hsteps' hgoes hs).skip hseen
    · rw [if_neg (by simpa using hseen)]
      obtain ⟨e₁, t, log, hdeliver, hlog, ht, hserved⟩ :=
        deliver_recorded hcalm (hreach.trans hs.reaches) hlive e
      have ht' : Undisturbed (v :: seen) f t.forest :=
        (hs.mono (List.subset_cons_self v seen)).trans (ht.mono (by simp))
      have hsame : handles conduct s.forest v = handles conduct f v := by
        rw [handles, hs.widget v hseen, handles]
      rw [hdeliver]
      dsimp only
      rw [hup ht']
      cases hhandles : handles conduct f v with
      | false =>
        rw [hsame, hhandles, if_neg Bool.false_ne_true] at hserved
        obtain ⟨rfl, rfl⟩ := hserved
        rw [List.append_nil] at hlog
        exact .pass hseen hfresh hhandles (hlog ▸ ih hsteps' hgoes ht')
      | true =>
        rw [hsame, hhandles, if_pos rfl] at hserved
        obtain ⟨answer, rfl, rfl⟩ := hserved
        cases hnext : (e.amended answer).propagating with
        | false =>
          rw [upwards_of_stopped habove hsteps' hnext (v :: seen) t]
          exact .stop hseen hfresh hhandles hnext ht' hlog
        | true => exact .serve hseen hfresh hhandles hnext (hlog ▸ ih hsteps' hnext ht')

/-- The leaves are served one chain after the other. -/
theorem broadcast_recorded (hsteps : f.slots.size ≤ steps) {leaves : List View}
    (hleaves : ∀ leaf ∈ leaves, f.contains leaf = true) {e : Event} (hgoes : e.propagating = true)
    {seen : List View} {s : Desk W D (A × List Receipt)} (hs : Undisturbed seen f s.forest) :
    ∃ e' t log, broadcast conduct.recorded steps leaves e seen s = .ok e' t ∧
      t.receipts = s.receipts ++ log ∧
      Served ((firsts seen (leaves.flatMap (chain f))).filter (handles conduct f)) e log e' := by
  have hf : f.WellFormed := Forest.reachable_wellFormed hreach
  induction leaves generalizing e seen s with
  | nil => exact ⟨e, s, [], rfl, by simp, .done e⟩
  | cons leaf leaves ih =>
    rw [List.forall_mem_cons] at hleaves
    have hchain := ascends_chain hf hleaves.1
    have hlength := (length_chain_le hf hleaves.1).trans hsteps
    obtain ⟨e₁, seen₁, t₁, log₁, hrun₁, hlog₁, ht₁, hserved₁, hmem₁⟩ :=
      upwards_recorded hcalm hreach hchain hlength hgoes hs
    rw [broadcast_cons, hrun₁, List.flatMap_cons, firsts_append (hchain.nodup hf), List.filter_append]
    dsimp only
    cases hnext : e₁.propagating with
    | false => exact ⟨e₁, t₁, log₁, rfl, hlog₁, hserved₁.append_of_stopped hgoes hnext _⟩
    | true =>
      obtain ⟨e', t, log, hrun, hlog, hserved⟩ := ih hleaves.2 hnext ht₁
      rw [firsts_congr (hmem₁ hnext)] at hserved
      refine ⟨e', t, log₁ ++ log, hrun, ?_, hserved₁.append hnext hserved⟩
      rw [hlog, hlog₁, List.append_assoc]

end

end Routing

end RetainedUi
