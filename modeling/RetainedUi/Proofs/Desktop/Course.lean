import RetainedUi.Proofs.Desktop.Registry

/-!
# The course of a run

What happens to a desktop is told as a list of moments: windows are opened, worked on and taken off the list,
callbacks are posted, and phases begin and run tasks. A phase takes all tasks that are scheduled and runs them in
order. Callbacks and callers of ticks may do whatever the library offers, ticks included, so phases may lie within
other phases. They are told apart by their numbers, counted from zero in the order in which they begin.

Only what comes to an end is told. A halt ends a run.
-/

namespace RetainedUi

variable {W D A α β : Type}

/-- Something that happened in a run. -/
inductive Moment (W D : Type) where
  | opened (id : WindowId)
  /-- Input was handed to an open window, its events were dispatched, its views were laid out or drawn, or a
  callback did something with it. -/
  | worked (id : WindowId)
  /-- A window left the list, and its release was scheduled. -/
  | left (window : Window W)
  | posted (callback : D)
  /-- A phase took the scheduled tasks. -/
  | began
  /-- A phase started to run one of its tasks. -/
  | performed (phase : Nat) (task : Task W D)

namespace Moment

/-- The task that is scheduled. -/
def task? : Moment W D → Option (Task W D)
  | posted callback => some (.callback callback)
  | left window => some (.release window)
  | _ => none

def begins : Moment W D → Bool
  | began => true
  | _ => false

/-- The task that is run by a phase. -/
def performedBy? (phase : Nat) : Moment W D → Option (Task W D)
  | performed number task => if number = phase then some task else none
  | _ => none

def IsWork (moment : Moment W D) : Prop := ∃ id, moment = worked id

end Moment

/-! ## What a run tells -/

/-- How many phases have begun. -/
def phases (h : List (Moment W D)) : Nat := h.countP Moment.begins

/-- All tasks that were scheduled, in order. -/
def scheduled (h : List (Moment W D)) : List (Task W D) := h.filterMap Moment.task?

/-- The tasks that were run by a phase, in order. -/
def performedBy (phase : Nat) (h : List (Moment W D)) : List (Task W D) := h.filterMap (Moment.performedBy? phase)

/-- The tasks that wait for the next phase: what was scheduled since the last one has begun. The first list is
what waits at first. -/
def pending : List (Task W D) → List (Moment W D) → List (Task W D)
  | tasks, [] => tasks
  | tasks, moment :: h => pending (if moment.begins then [] else tasks ++ moment.task?.toList) h

@[simp]
theorem phases_append (h h' : List (Moment W D)) : phases (h ++ h') = phases h + phases h' := List.countP_append

@[simp]
theorem phases_began (h : List (Moment W D)) : phases (.began :: h) = phases h + 1 := List.countP_cons_of_pos rfl

@[simp]
theorem performedBy_append (phase : Nat) (h h' : List (Moment W D)) :
    performedBy phase (h ++ h') = performedBy phase h ++ performedBy phase h' :=
  List.filterMap_append

@[simp]
theorem pending_append (tasks : List (Task W D)) (h h' : List (Moment W D)) :
    pending tasks (h ++ h') = pending (pending tasks h) h' := by
  induction h generalizing tasks with
  | nil => rfl
  | cons moment h ih => exact ih _

theorem pending_cons_of_quiet {moment : Moment W D} (hbegins : moment.begins = false) (htask : moment.task? = none)
    (tasks : List (Task W D)) (h : List (Moment W D)) : pending tasks (moment :: h) = pending tasks h := by
  rw [pending, hbegins, htask]
  exact congrArg (pending · h) (List.append_nil tasks)

namespace Desktop

/-! ## Operations that come to an end -/

/-- The answer of a computation that has come to an end without a fault. -/
def answer? : EStateM.Result Halt (Desktop W D A) (Except Fault α) → Option α
  | .ok (.ok answer) _ => some answer
  | _ => none

theorem eq_ok_of_answer? {outcome : EStateM.Result Halt (Desktop W D A) (Except Fault α)} {answer : α}
    (h : answer? outcome = some answer) : outcome = .ok (.ok answer) (Pass.final outcome) := by
  obtain (_ | _) | _ := outcome
  · cases h
  · cases h
    rfl
  · cases h

section

variable {d e : Desktop W D A}

theorem onWindow_eq_ok {id : WindowId} {pass : Pass (Pane W A) α} {found : Option α}
    (h : onWindow id pass d = .ok found e) :
    (found = none ∧ e = d ∧ (d.window? id = none ∨ d.platform.screen? id = none)) ∨
      ∃ answer window screen pane, found = some answer ∧ d.window? id = some window ∧
        d.platform.screen? id = some screen ∧ pass ⟨window, screen, d.ambient⟩ = .ok answer pane ∧
          e = d.putPane id pane := by
  unfold onWindow at h
  cases hwindow : d.window? id with
  | none =>
    rw [hwindow] at h
    cases h
    exact .inl ⟨rfl, rfl, .inl rfl⟩
  | some window =>
    cases hscreen : d.platform.screen? id with
    | none =>
      rw [hwindow, hscreen] at h
      cases h
      exact .inl ⟨rfl, rfl, .inr rfl⟩
    | some screen =>
      rw [hwindow, hscreen] at h
      dsimp only at h
      cases hrun : pass ⟨window, screen, d.ambient⟩ with
      | error halt pane =>
        rw [hrun] at h
        cases h
      | ok answer pane =>
        rw [hrun] at h
        cases h
        exact .inr ⟨answer, window, screen, pane, rfl, rfl, rfl, hrun, rfl⟩

/-- A window is given back by telling its screen. -/
theorem releaseWindow_eq_ok {window : Window W} (h : releaseWindow window d = .ok () e) :
    (d.platform.screen? window.id = none ∧ e = d) ∨
      ∃ screen ambient, d.platform.screen? window.id = some screen ∧
        e = { d with platform := d.platform.setScreen window.id (window.release screen).1, ambient } := by
  cases h
  cases hscreen : d.platform.screen? window.id with
  | none => exact .inl ⟨rfl, by dsimp only; rw [hscreen]⟩
  | some screen =>
    refine .inr ⟨screen, d.ambient.noteAll (window.release screen).2, rfl, ?_⟩
    dsimp only
    rw [hscreen]

theorem Registered.of_released {window : Window W} (hd : d.Registered)
    (h : Desktop.releaseWindow window d = .ok () e) : e.Registered := by
  have hkept := hd.releaseWindow window
  rw [h] at hkept
  exact hkept

/-- The desktop whose tasks were taken by a phase. -/
theorem Registered.taken (hd : d.Registered) : ({ d with deferred := [] } : Desktop W D A).Registered :=
  hd.of_fewer (List.Sublist.refl _) rfl rfl

/-- The second desktop is the first one with one more window, which has the next number, and its screen. -/
structure Adds (d mid : Desktop W D A) (screen : Screen) : Prop where
  windows : ∃ window, mid.windows = d.windows ++ [window] ∧ window.id = d.nextId
  screens : mid.platform.screens = d.platform.screens ++ [(d.nextId, screen)]
  released : screen.released = false
  nextWindow : mid.nextWindow = d.nextWindow + 1
  deferred : mid.deferred = d.deferred

/-- A window is opened and then shown if that is wanted, unless the windowing system refuses it. -/
theorem openWindow_eq_ok {config : WindowConfig} {answer : Except Fault WindowId}
    (h : openWindow config d = .ok answer e) : (∃ fault, answer = .error fault ∧ e = d) ∨
      ∃ mid screen, answer = .ok d.nextId ∧ Adds d mid screen ∧
        (e = mid ∨ ∃ shown, onWindow d.nextId Pane.reveal mid = .ok shown e) := by
  unfold openWindow at h
  rw [Pass.bind_get] at h
  dsimp only at h
  cases hcreate : d.platform.createWindow ⟨d.nextWindow⟩ config with
  | error fault =>
    rw [hcreate] at h
    cases h
    exact .inl ⟨fault, rfl, rfl⟩
  | ok created =>
    obtain ⟨screen, platform⟩ := created
    rw [hcreate] at h
    refine .inr ?_
    have hscreens : platform.screens = d.platform.screens ++ [(d.nextId, screen)] ∧ screen.released = false := by
      unfold Headless.createWindow at hcreate
      cases hrefused : d.platform.outage.create with
      | some reason =>
        rw [hrefused] at hcreate
        cases hcreate
      | none =>
        rw [hrefused] at hcreate
        cases hcreate
        exact ⟨rfl, rfl⟩
    dsimp only at h
    cases hpainter : Painter.create d.painterConfig with
    | error halt =>
      rw [hpainter] at h
      change EStateM.Result.error halt _ = _ at h
      cases h
    | ok painter =>
      rw [hpainter] at h
      by_cases hvisible : config.visible = true
      · simp only [hvisible, if_true] at h
        change (onWindow d.nextId Pane.reveal >>= fun _ ↦ pure (.ok d.nextId) :
          Pass (Desktop W D A) (Except Fault WindowId)) _ = _ at h
        obtain ⟨shown, mid, hshown, hanswer⟩ := Pass.bind_eq_ok.mp h
        cases hanswer
        refine ⟨_, screen, rfl, ?_, .inr ⟨shown, hshown⟩⟩
        exact ⟨⟨_, rfl, rfl⟩, hscreens.1, hscreens.2, rfl, rfl⟩
      · simp only [hvisible] at h
        change EStateM.Result.ok (Except.ok d.nextId) _ = _ at h
        cases h
        refine ⟨_, screen, rfl, ?_, .inl rfl⟩
        exact ⟨⟨_, rfl, rfl⟩, hscreens.1, hscreens.2, rfl, rfl⟩

end

/-! ## Courses -/

/-- What the library offers, except for ticks. -/
inductive Act : Desktop W D A → List (Moment W D) → Desktop W D A → Prop where
  | post (d : Desktop W D A) (callback : D) :
      Act d [.posted callback] { d with deferred := d.deferred ++ [.callback callback] }
  | openWindow {d e : Desktop W D A} {config : WindowConfig} {id : WindowId}
      (h : openWindow config d = .ok (.ok id) e) : Act d [.opened id] e
  | closeWindow {d e : Desktop W D A} {id : WindowId} {window : Window W} (hwindow : d.window? id = some window)
      (h : closeWindow id d = .ok () e) : Act d [.left window.close.1] e
  /-- Work on an open window, whatever it does to the window and its screen. -/
  | work {α : Type} {d e : Desktop W D A} {id : WindowId} {pass : Pass (Pane W A) α} {answer : α}
      (hid : Pane.KeepsId pass) (hreleased : Pane.KeepsReleased pass)
      (h : onWindow id pass d = .ok (some answer) e) : Act d [.worked id] e
  /-- Everything else: input that comes and goes, requests, notes. -/
  | adjust {d e : Desktop W D A} (hwindows : e.windows = d.windows)
      (hscreens : e.platform.screens = d.platform.screens) (hnext : e.nextWindow = d.nextWindow)
      (hdeferred : e.deferred = d.deferred) : Act d [] e

/-- Where a course stands: outside of any phase that it tells, or in a phase with some tasks left. -/
inductive Scope (W D : Type) where
  | free
  | phase (number : Nat) (tasks : List (Task W D))

/-- The way from one desktop to another, and what it tells. The number is that of the next phase to begin. -/
inductive Course (program : Program W D A) :
    Scope W D → Nat → Desktop W D A → List (Moment W D) → Desktop W D A → Prop where
  | rest (n : Nat) (d : Desktop W D A) : Course program .free n d [] d
  | act {n : Nat} {d e f : Desktop W D A} {own rest : List (Moment W D)} (hact : Act d own e)
      (hrest : Course program .free n e rest f) : Course program .free n d (own ++ rest) f
  /-- A phase takes what is scheduled, and runs it. -/
  | phase {n : Nat} {d e f : Desktop W D A} {own rest : List (Moment W D)}
      (hphase : Course program (.phase n d.deferred) (n + 1) { d with deferred := [] } own e)
      (hrest : Course program .free (n + 1 + phases own) e rest f) :
      Course program .free n d (.began :: (own ++ rest)) f
  | finished (number n : Nat) (d : Desktop W D A) : Course program (.phase number []) n d [] d
  | callback {number n : Nat} {d e f : Desktop W D A} {callback : D} {tasks : List (Task W D)}
      {own rest : List (Moment W D)} (hrun : program.perform callback d = .ok () e)
      (hown : Course program .free n d own e)
      (hrest : Course program (.phase number tasks) (n + phases own) e rest f) :
      Course program (.phase number (.callback callback :: tasks)) n d
        (.performed number (.callback callback) :: (own ++ rest)) f
  | release {number n : Nat} {d e f : Desktop W D A} {window : Window W} {tasks : List (Task W D)}
      {rest : List (Moment W D)} (hrun : releaseWindow window d = .ok () e)
      (hrest : Course program (.phase number tasks) n e rest f) :
      Course program (.phase number (.release window :: tasks)) n d
        (.performed number (.release window) :: rest) f

theorem Act.steps {d e : Desktop W D A} {own : List (Moment W D)} (h : Act d own e) : Steps d e := by
  cases h with
  | post callback => exact .single (.adjust rfl rfl rfl)
  | @openWindow _ _ config _ h =>
    have hstep : Step d (Pass.final (Desktop.openWindow config d)) := .openWindow d config
    rw [h] at hstep
    exact .single hstep
  | @closeWindow _ _ id _ _ h =>
    have hstep : Step d (Pass.final (Desktop.closeWindow id d)) := .closeWindow d id
    rw [h] at hstep
    exact .single hstep
  | @work _ _ _ id pass _ hid _ h =>
    have hstep : Step d (Pass.final (onWindow id pass d)) := .onWindow d id hid
    rw [h] at hstep
    exact .single hstep
  | adjust hwindows hscreens hnext => exact .single (.adjust hwindows hscreens hnext)

theorem Act.phases_eq {d e : Desktop W D A} {own : List (Moment W D)} (h : Act d own e) : phases own = 0 := by
  cases h <;> rfl

namespace Course

variable {program : Program W D A} {scope : Scope W D} {n : Nat} {d e f : Desktop W D A}
variable {h h' : List (Moment W D)}

theorem steps (hcourse : Course program scope n d h e) : Steps d e := by
  induction hcourse with
  | rest => exact .refl
  | act hact _ ih => exact hact.steps.trans ih
  | phase _ _ ih ih' => exact (Relation.ReflTransGen.head (.adjust rfl rfl rfl) ih).trans ih'
  | finished => exact .refl
  | callback _ _ _ ih ih' => exact ih.trans ih'
  | @release _ _ d _ _ window _ _ hrun _ ih =>
    have hstep : Step d (Pass.final (releaseWindow window d)) := .releaseWindow d window
    rw [hrun] at hstep
    exact .head hstep ih

theorem registered (hcourse : Course program scope n d h e) (hd : d.Registered) : e.Registered :=
  hd.steps hcourse.steps

theorem trans (hcourse : Course program .free n d h e) (hcourse' : Course program .free (n + phases h) e h' f) :
    Course program .free n d (h ++ h') f := by
  generalize hscope : Scope.free = scope at hcourse
  induction hcourse with
  | rest => exact hcourse'
  | act hact _ ih =>
    rw [phases_append, hact.phases_eq, Nat.zero_add] at hcourse'
    rw [List.append_assoc]
    exact .act hact (ih hcourse' rfl)
  | @phase n _ _ _ own rest hphase _ _ ih =>
    rw [List.cons_append, List.append_assoc]
    refine .phase hphase (ih ?_ rfl)
    have hnumber : n + phases (.began :: (own ++ rest)) = n + 1 + phases own + phases rest := by
      rw [phases_began, phases_append]
      omega
    rw [← hnumber]
    exact hcourse'
  | finished | callback | release => cases hscope

/-- A course from the start, and what follows. -/
theorem followed (hpast : Course program .free 0 d h e) (hpresent : Course program .free (phases h) e h' f) :
    Course program .free 0 d (h ++ h') f :=
  hpast.trans ((Nat.zero_add (phases h)).symm ▸ hpresent)

theorem of_act (hact : Act d h e) : Course program .free n d h e := by
  have hcourse : Course program .free n d (h ++ []) e := .act hact (.rest n e)
  rwa [List.append_nil] at hcourse

end Course

/-! ## What can be told -/

section

variable (program : Program W D A) (P : Moment W D → Prop)

/-- A computation whose runs can be told by moments with a property, if they come to an answer. -/
def TellsOnly (pass : Pass (Desktop W D A) α) : Prop :=
  ∀ n d, d.Registered → ∀ answer e, pass d = .ok answer e →
    ∃ h, Course program .free n d h e ∧ ∀ moment ∈ h, P moment

/-- A computation whose runs can be told, if they come to an answer. -/
abbrev Tells (pass : Pass (Desktop W D A) α) : Prop := TellsOnly program (fun _ ↦ True) pass

end

section

variable {program : Program W D A} {P : Moment W D → Prop}

theorem tellsOnly_pure (a : α) : TellsOnly program P (pure a) := by
  rintro n d - _ _ ⟨⟩
  exact ⟨[], .rest n d, by simp⟩

theorem tellsOnly_get : TellsOnly program P (get : Pass (Desktop W D A) (Desktop W D A)) := by
  rintro n d - _ _ ⟨⟩
  exact ⟨[], .rest n d, by simp⟩

theorem tellsOnly_bind {first : Pass (Desktop W D A) α} {next : α → Pass (Desktop W D A) β}
    (hfirst : TellsOnly program P first) (hnext : ∀ a, TellsOnly program P (next a)) :
    TellsOnly program P (first >>= next) := by
  intro n d hd b f hrun
  obtain ⟨a, e, hrun, hrest⟩ := Pass.bind_eq_ok.mp hrun
  obtain ⟨h, hcourse, hh⟩ := hfirst n d hd a e hrun
  obtain ⟨h', hcourse', hh'⟩ := hnext a (n + phases h) e (hcourse.registered hd) b f hrest
  exact ⟨h ++ h', hcourse.trans hcourse', fun moment hmem ↦
    (List.mem_append.mp hmem).elim (hh moment) (hh' moment)⟩

theorem tellsOnly_forM {body : α → Pass (Desktop W D A) PUnit} (hbody : ∀ a, TellsOnly program P (body a))
    (as : List α) : TellsOnly program P (as.forM body) := by
  induction as with
  | nil => exact tellsOnly_pure _
  | cons a as ih => exact tellsOnly_bind (hbody a) fun _ ↦ ih

/-- Requests, notes and scripted input may come at any time. -/
theorem tells_adjust {change : Desktop W D A → Desktop W D A} (hwindows : ∀ d, (change d).windows = d.windows)
    (hscreens : ∀ d, (change d).platform.screens = d.platform.screens)
    (hnext : ∀ d, (change d).nextWindow = d.nextWindow) (hdeferred : ∀ d, (change d).deferred = d.deferred) :
    TellsOnly program P (modify change : Pass (Desktop W D A) PUnit) := by
  rintro n d - _ _ ⟨⟩
  exact ⟨[], .of_act (.adjust (hwindows d) (hscreens d) (hnext d) (hdeferred d)), by simp⟩

theorem tells_openWindow (config : WindowConfig) : Tells program (openWindow config) := by
  intro n d _ answer e hrun
  cases answer with
  | ok id => exact ⟨[.opened id], .of_act (.openWindow hrun), fun _ _ ↦ trivial⟩
  | error fault =>
    obtain ⟨_, -, rfl⟩ | ⟨_, _, hanswer, -⟩ := openWindow_eq_ok hrun
    · exact ⟨[], .rest n e, by simp⟩
    · cases hanswer

theorem tells_closeWindow (id : WindowId) : Tells program (closeWindow id) := by
  intro n d _ answer e hrun
  cases hwindow : d.window? id with
  | none =>
    rw [closeWindow, Pass.bind_get, hwindow] at hrun
    cases hrun
    exact ⟨[], .rest n d, by simp⟩
  | some window => exact ⟨[.left window.close.1], .of_act (.closeWindow hwindow hrun), fun _ _ ↦ trivial⟩

theorem tellsOnly_onWindow {id : WindowId} {pass : Pass (Pane W A) α} (hpass : Pane.KeepsIdentity pass)
    (hwork : P (.worked id)) : TellsOnly program P (onWindow id pass) := by
  intro n d _ answer e hrun
  cases answer with
  | some answer => exact ⟨[.worked id], .of_act (.work hpass.keepsId hpass.keepsReleased hrun), by simpa using hwork⟩
  | none =>
    obtain ⟨-, rfl, -⟩ | ⟨_, _, _, _, hanswer, -⟩ := onWindow_eq_ok hrun
    · exact ⟨[], .rest n e, by simp⟩
    · cases hanswer

end

end Desktop

end RetainedUi
