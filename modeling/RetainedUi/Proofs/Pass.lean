import Mathlib.Logic.Relation
import RetainedUi.Halt

/-!
# Computations that may halt

Plain operations answer in `Except Halt` and are taken apart bind by bind. Computations over a state
keep that state even when they halt, so what they do to it is said of the final state, halted or not. The
same goes for computations that end at a fault.

A computation carries a relation on a part of the state if the relation holds between that part at the
start and at the end of every run. A preorder is carried by a sequence of computations as soon as it is
carried by each of them, whatever the answers that are passed on between them.
-/

namespace RetainedUi

/-- A sequence of plain operations has an answer just if both parts of it have. -/
theorem bind_eq_ok {α β : Type} {first : Except Halt α} {next : α → Except Halt β} {b : β} :
    (first >>= next) = .ok b ↔ ∃ a, first = .ok a ∧ next a = .ok b := by
  cases first with
  | ok a => simp [bind, Except.bind]
  | error halt => simp [bind, Except.bind]

namespace Pass

variable {ε σ τ α β : Type}

/-- The state in which a run ends, halted or not. -/
def final : EStateM.Result ε σ α → σ
  | .ok _ s => s
  | .error _ s => s

@[simp]
theorem final_ok (a : α) (s : σ) : final (.ok a s : EStateM.Result ε σ α) = s := rfl

@[simp]
theorem final_error (e : ε) (s : σ) : final (.error e s : EStateM.Result ε σ α) = s := rfl

theorem final_modify (step : σ → σ) (s : σ) : final ((modify step : EStateM ε σ PUnit) s) = step s := rfl

theorem bind_of_ok {first : EStateM ε σ α} {next : α → EStateM ε σ β} {s t : σ} {a : α}
    (h : first s = .ok a t) : (first >>= next) s = next a t := by
  change EStateM.bind first next s = _
  rw [EStateM.bind, h]

/-- What follows depends on the outcome of the first part only. -/
theorem bind_congr {first first' : EStateM ε σ α} {s s' : σ} (h : first s = first' s') (next : α → EStateM ε σ β) :
    (first >>= next) s = (first' >>= next) s' := by
  change EStateM.bind first next s = EStateM.bind first' next s'
  rw [EStateM.bind, EStateM.bind, h]

theorem bind_get (next : σ → EStateM ε σ α) (s : σ) : (get >>= next) s = next s s := rfl

/-- A loop whose body does nothing does nothing. -/
theorem forM_eq_ok {body : α → EStateM ε σ PUnit} {s : σ} (as : List α)
    (hbody : ∀ a ∈ as, body a s = .ok ⟨⟩ s) : as.forM body s = .ok ⟨⟩ s := by
  induction as with
  | nil => rfl
  | cons a as ih =>
    rw [List.forall_mem_cons] at hbody
    exact (bind_of_ok hbody.1).trans (ih hbody.2)

theorem final_bind_pure (first : EStateM ε σ α) (answer : α → β) (s : σ) :
    final ((first >>= fun a ↦ pure (answer a)) s) = final (first s) := by
  change final (EStateM.bind first _ s) = _
  unfold EStateM.bind
  cases first s <;> rfl

theorem bind_of_error {first : EStateM ε σ α} {next : α → EStateM ε σ β} {s t : σ} {e : ε}
    (h : first s = .error e t) : (first >>= next) s = .error e t := by
  change EStateM.bind first next s = _
  rw [EStateM.bind, h]

/-- A sequence comes to an answer if both parts do. -/
theorem bind_eq_ok {first : EStateM ε σ α} {next : α → EStateM ε σ β} {s u : σ} {b : β} :
    (first >>= next) s = .ok b u ↔ ∃ a t, first s = .ok a t ∧ next a t = .ok b u := by
  constructor
  · intro h
    cases hrun : first s with
    | ok a t =>
      rw [bind_of_ok hrun] at h
      exact ⟨a, t, rfl, h⟩
    | error e t =>
      rw [bind_of_error hrun] at h
      cases h
  · rintro ⟨a, t, hfirst, hnext⟩
    rw [bind_of_ok hfirst, hnext]

/-- A sequence ends early in one of its parts. -/
theorem bind_eq_error {first : EStateM ε σ α} {next : α → EStateM ε σ β} {s u : σ} {e : ε} :
    (first >>= next) s = .error e u ↔ first s = .error e u ∨ ∃ a t, first s = .ok a t ∧ next a t = .error e u := by
  cases hrun : first s with
  | ok a t =>
    rw [bind_of_ok hrun]
    constructor
    · intro h
      exact .inr ⟨a, t, rfl, h⟩
    · rintro (hfirst | ⟨_, _, hfirst, h⟩)
      · cases hfirst
      · cases hfirst
        exact h
  | error e' t =>
    rw [bind_of_error hrun]
    simp

/-- The relation holds between a part of the first state and that part of the final state of every
run. -/
def Carries (part : σ → τ) (R : τ → τ → Prop) (pass : EStateM ε σ α) : Prop :=
  ∀ s, R (part s) (part (final (pass s)))

variable {part : σ → τ} {R : τ → τ → Prop} [IsPreorder τ R]

theorem carries_pure (a : α) : Carries part R (pure a : EStateM ε σ α) :=
  fun s ↦ refl_of R (part s)

theorem carries_throw (e : ε) : Carries part R (throw e : EStateM ε σ α) :=
  fun s ↦ refl_of R (part s)

theorem carries_get : Carries part R (get : EStateM ε σ σ) :=
  fun s ↦ refl_of R (part s)

theorem carries_lift (answer : Except Halt α) : Carries part R (lift answer : Pass σ α) := by
  cases answer with
  | ok a => exact carries_pure a
  | error halt => exact carries_throw halt

/-- Besides, every answer has a property. -/
def CarriesTo (part : σ → τ) (R : τ → τ → Prop) (Q : α → Prop) (pass : EStateM ε σ α) : Prop :=
  Carries part R pass ∧ ∀ s a t, pass s = .ok a t → Q a

section

variable {Q : α → Prop} {Q' : β → Prop}

theorem carriesTo_pure {a : α} (ha : Q a) : CarriesTo part R Q (pure a : EStateM ε σ α) := by
  refine ⟨carries_pure a, ?_⟩
  rintro s _ _ ⟨⟩
  exact ha

theorem carriesTo_throw (e : ε) : CarriesTo part R Q (throw e : EStateM ε σ α) := by
  refine ⟨carries_throw e, ?_⟩
  rintro s a t ⟨⟩

omit [IsPreorder τ R] in
theorem Carries.to {pass : EStateM ε σ α} (h : Carries part R pass) : CarriesTo part R (fun _ ↦ True) pass :=
  ⟨h, fun _ _ _ _ ↦ trivial⟩

/-- What follows may rely on the property of the answer that it is given. -/
theorem carriesTo_bind {first : EStateM ε σ α} {next : α → EStateM ε σ β} (hfirst : CarriesTo part R Q first)
    (hnext : ∀ a, Q a → CarriesTo part R Q' (next a)) : CarriesTo part R Q' (first >>= next) := by
  constructor
  · intro s
    have hs := hfirst.1 s
    cases hrun : first s with
    | ok a t =>
      rw [hrun] at hs
      rw [bind_of_ok hrun]
      exact trans_of R hs ((hnext a (hfirst.2 s a t hrun)).1 t)
    | error e t =>
      rw [hrun] at hs
      rw [bind_of_error hrun]
      exact hs
  · intro s b u hrun
    obtain ⟨a, t, hs, hrun⟩ := bind_eq_ok.mp hrun
    exact (hnext a (hfirst.2 s a t hs)).2 t b u hrun

theorem carries_bind {first : EStateM ε σ α} {next : α → EStateM ε σ β} (hfirst : Carries part R first)
    (hnext : ∀ a, Carries part R (next a)) : Carries part R (first >>= next) :=
  (carriesTo_bind hfirst.to fun a _ ↦ (hnext a).to).1

end

theorem carries_tryCatch {first : EStateM ε σ α} {handle : ε → EStateM ε σ α}
    (hfirst : Carries part R first) (hhandle : ∀ e, Carries part R (handle e)) :
    Carries part R (tryCatch first handle) := by
  intro s
  have hs := hfirst s
  change R (part s) (part (final (EStateM.tryCatch first handle s)))
  unfold EStateM.tryCatch
  cases hrun : first s with
  | ok a t =>
    rw [hrun] at hs
    exact hs
  | error e t =>
    rw [hrun] at hs
    exact trans_of R hs (hhandle e t)

/-- A loop carries what its body carries for each of the elements. -/
theorem carries_forM {body : α → EStateM ε σ PUnit} (hbody : ∀ a, Carries part R (body a)) (as : List α) :
    Carries part R (as.forM body) := by
  induction as with
  | nil => exact carries_pure _
  | cons a as ih => exact carries_bind (hbody a) fun _ ↦ ih

/-! ## Failures -/

/-- A run that ends early does so for a reason with a property. -/
def FailsOnly (Q : ε → Prop) (pass : EStateM ε σ α) : Prop := ∀ s e t, pass s = .error e t → Q e

variable {Q : ε → Prop}

theorem failsOnly_of_ok {pass : EStateM ε σ α} (h : ∀ s, ∃ a t, pass s = .ok a t) : FailsOnly Q pass := by
  intro s e t hrun
  obtain ⟨a, u, hok⟩ := h s
  rw [hok] at hrun
  cases hrun

theorem failsOnly_bind {first : EStateM ε σ α} {next : α → EStateM ε σ β} (hfirst : FailsOnly Q first)
    (hnext : ∀ a, FailsOnly Q (next a)) : FailsOnly Q (first >>= next) := by
  intro s e t hrun
  change EStateM.bind first next s = .error e t at hrun
  unfold EStateM.bind at hrun
  cases hs : first s with
  | ok a u =>
    rw [hs] at hrun
    exact hnext a u e t hrun
  | error e' u =>
    rw [hs] at hrun
    cases hrun
    exact hfirst s e t hs

/-! ## Forgetting a part of the state -/

/-- An outcome with another state. -/
def mapState (change : σ → τ) : EStateM.Result ε σ α → EStateM.Result ε τ α
  | .ok a s => .ok a (change s)
  | .error e s => .error e (change s)

/-- The second computation does what the first one does, to what is left of the state when some of it is forgotten. -/
def Forgets (forget : σ → τ) (full : EStateM ε σ α) (bare : EStateM ε τ α) : Prop :=
  ∀ s, mapState forget (full s) = bare (forget s)

section

variable {forget : σ → τ}

theorem Forgets.eq_ok {full : EStateM ε σ α} {bare : EStateM ε τ α} (h : Forgets forget full bare) {s t : σ} {a : α}
    (hrun : full s = .ok a t) : bare (forget s) = .ok a (forget t) := by
  rw [← h s, hrun]
  rfl

/-- What the second computation comes to is what the first one comes to, with more in the state. -/
theorem Forgets.exists_of_eq_ok {full : EStateM ε σ α} {bare : EStateM ε τ α} (h : Forgets forget full bare) {s : σ}
    {t : τ} {a : α} (hrun : bare (forget s) = .ok a t) : ∃ u, full s = .ok a u ∧ forget u = t := by
  rw [← h s] at hrun
  cases hfull : full s with
  | ok b u =>
    rw [hfull] at hrun
    cases hrun
    exact ⟨u, rfl, rfl⟩
  | error e u =>
    rw [hfull] at hrun
    cases hrun

theorem forgets_pure (a : α) : Forgets forget (pure a : EStateM ε σ α) (pure a) := fun _ ↦ rfl

theorem forgets_throw (e : ε) : Forgets forget (throw e : EStateM ε σ α) (throw e) := fun _ ↦ rfl

theorem forgets_bind {first : EStateM ε σ α} {first' : EStateM ε τ α} {next : α → EStateM ε σ β}
    {next' : α → EStateM ε τ β} (hfirst : Forgets forget first first')
    (hnext : ∀ a, Forgets forget (next a) (next' a)) : Forgets forget (first >>= next) (first' >>= next') := by
  intro s
  have hs := hfirst s
  change mapState forget (EStateM.bind first next s) = EStateM.bind first' next' (forget s)
  unfold EStateM.bind
  rw [← hs]
  cases first s with
  | ok a t => exact hnext a t
  | error e t => rfl

/-- What is read off the state does not depend on what is forgotten. -/
theorem forgets_bind_get {next : σ → EStateM ε σ α} {next' : τ → EStateM ε τ α}
    (hnext : ∀ s, Forgets forget (next s) (next' (forget s))) : Forgets forget (get >>= next) (get >>= next') :=
  fun s ↦ hnext s s

theorem forgets_modify {change : σ → σ} {change' : τ → τ} (hchange : ∀ s, forget (change s) = change' (forget s)) :
    Forgets forget (modify change : EStateM ε σ PUnit) (modify change') :=
  fun s ↦ congrArg (EStateM.Result.ok PUnit.unit) (hchange s)

theorem forgets_forM {body : α → EStateM ε σ PUnit} {body' : α → EStateM ε τ PUnit}
    (hbody : ∀ a, Forgets forget (body a) (body' a)) (as : List α) : Forgets forget (as.forM body) (as.forM body') := by
  induction as with
  | nil => exact forgets_pure _
  | cons a as ih => exact forgets_bind (hbody a) fun _ ↦ ih

end

end Pass

end RetainedUi
