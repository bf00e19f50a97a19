import RetainedUi.Desktop.Basic

/-!
# The loop

A tick runs the callbacks that were scheduled before it, takes input, dispatches the events of every
window, calls back once, lays out and presents every window, and takes closed windows off the list. It
waits for input only if nothing else is left to be done.

A callback scheduled during a tick runs in the next one. A run is a sequence of ticks that ends when it
is asked to or when no window is left, followed by one more round of callbacks, so that the windows
closed by the last tick are given back too.
-/

namespace RetainedUi.Desktop

variable {W D A : Type}

/-- Runs one task. -/
def perform (program : Program W D A) : Task W D → Pass (Desktop W D A) Unit
  | .callback callback => program.perform callback
  | .release window => releaseWindow window

/-- What is left of the tasks when one of them halts: windows are given back nevertheless. -/
def abandon : Task W D → Pass (Desktop W D A) Unit
  | .callback _ => pure ()
  | .release window => releaseWindow window

/-- Runs tasks in order, up to the first that halts. -/
def performAll (program : Program W D A) : List (Task W D) → Pass (Desktop W D A) Unit
  | [] => pure ()
  | task :: rest => do
    tryCatch (perform program task) fun halt ↦ do
      rest.forM abandon
      throw halt
    performAll program rest

/-- Runs the tasks that are scheduled by now. What they schedule is left for later. -/
def runDeferred (program : Program W D A) : Pass (Desktop W D A) Unit := do
  let tasks := (← get).deferred
  modify fun s ↦ { s with deferred := [] }
  performAll program tasks

/-- Whether a window has events, a region to be painted or views to be laid out. -/
def windowHasWork (w : Window W) : Except Halt Bool := do
  if !w.queue.isEmpty then return true
  if ← w.needsRedraw then return true
  w.needsLayout

/-- Whether anything is left to be done. -/
def hasPendingWork (d : Desktop W D A) : Except Halt Bool := do
  if !d.deferred.isEmpty then return true
  d.windows.anyM windowHasWork

/-- Takes input: at once in realtime mode and if anything is left to be done, and else by waiting. -/
def takeInput : Pass (Desktop W D A) (List (WindowId × ScreenEvent)) := do
  let s ← get
  let busy ← if 0 < s.realtime then pure true else Pass.lift s.hasPendingWork
  let (events, platform) := if busy then s.platform.poll else s.platform.wait
  set { s with platform }
  return events

/-- Hands the input to the windows. Input for a window that is not open is dropped. -/
def handInput (events : List (WindowId × ScreenEvent)) : Pass (Desktop W D A) Unit :=
  events.forM fun event ↦ do let _ ← onWindow event.1 (Pane.receive event.2)

/-- Dispatches the events of one window. The callbacks it schedules are for the next tick. -/
def dispatchWindow (program : Program W D A) (steps : Nat) (id : WindowId) : Pass (Desktop W D A) Unit := do
  let callbacks := (← onWindow id (Pane.dispatch program.handling steps)).getD []
  modify fun s ↦ { s with deferred := s.deferred ++ callbacks.map .callback }

/-- Lays out and presents windows one after the other. A fault ends it. -/
def presentWindows (program : Program W D A) (steps : Nat) :
    List WindowId → Pass (Desktop W D A) (Except Fault Unit)
  | [] => return .ok ()
  | id :: rest => do
    let outage := (← get).platform.outage
    let answer ← onWindow id do
      Pane.layoutIfNeeded program.layout steps
      Pane.present program.drawing outage
    match answer with
    | some (.error fault) => return .error fault
    | _ => presentWindows program steps rest

/-- One tick, with a call back between dispatching and drawing. The number bounds the events that a
window dispatches, the walks upwards and the depth of layouts. -/
def tickWith (program : Program W D A) (steps : Nat) (perTick : Pass (Desktop W D A) Unit) :
    Pass (Desktop W D A) (Except Fault Unit) := do
  runDeferred program
  handInput (← takeInput)
  (← get).windows.forM fun window ↦ dispatchWindow program steps window.id
  perTick
  match ← presentWindows program steps ((← get).windows.map (·.id)) with
  | .error fault => return .error fault
  | .ok () =>
    sweep
    return .ok ()

def tick (program : Program W D A) (steps : Nat) : Pass (Desktop W D A) (Except Fault Unit) :=
  tickWith program steps (pure ())

/-- Ticks until a quit is requested or no window is left. The call back of a tick is given the number
of the tick, counted on from the last number. The answer tells that number as well. -/
def ticks (program : Program W D A) (steps : Nat) (perTick : Nat → Pass (Desktop W D A) Unit) :
    Nat → Nat → Pass (Desktop W D A) (Except Fault Unit × Nat)
  | 0, done => do
    let s ← get
    if s.quitRequested || s.windows.isEmpty then return (.ok (), done) else throw .exhausted
  | left + 1, done => do
    let s ← get
    if s.quitRequested || s.windows.isEmpty then return (.ok (), done)
    match ← tickWith program steps (perTick (done + 1)) with
    | .error fault => return (.error fault, done + 1)
    | .ok () => ticks program steps perTick left (done + 1)

/-- A run with a call back in every tick. The answer tells the number of ticks too. -/
def runWith (program : Program W D A) (steps : Nat) (perTick : Nat → Pass (Desktop W D A) Unit) :
    Pass (Desktop W D A) (Except Fault Unit × Nat) := do
  modify fun s ↦ { s with quitRequested := false }
  match ← ticks program steps perTick steps 0 with
  | (.error fault, done) => return (.error fault, done)
  | (.ok (), done) =>
    modify fun s ↦ { s with quitRequested := false }
    runDeferred program
    return (.ok (), done)

/-- A run. -/
def run (program : Program W D A) (steps : Nat) : Pass (Desktop W D A) (Except Fault Unit) := do
  return (← runWith program steps fun _ ↦ pure ()).1

end RetainedUi.Desktop
