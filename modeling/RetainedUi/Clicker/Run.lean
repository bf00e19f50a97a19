import RetainedUi.Clicker.Widgets

/-!
# Running the clicker

The clicker runs on the headless windowing system with scripted input: a list of inputs for each tick,
and, once they have run out, a request to close the window in every further one. A run is recorded as
what reached the windowing system and the device in order, the lines of the journal, and what the
program ends with.
-/

namespace RetainedUi.Clicker

/-- What reached the windowing system. -/
inductive Reached where
  | opened (config : WindowConfig)
  | shown
  | polled
  | waited
  | called (call : DeviceCall)
  | released

/-- What the observer of a run keeps: the input that is left, what has reached the windowing system so
far, and how much of it was seen. -/
structure Watch where
  input : List (List ScreenEvent)
  reached : Array Reached
  calls : Nat
  polls : Nat

abbrev Run := Pass (Desktop Part ClickLine Watch)

/-- A bound that no run comes close to. -/
def bound : Nat := 1000000

def config : WindowConfig := ⟨"Hello views", .ofSides 100 100 400 300, true⟩

def watch (change : Watch → Watch) : Run Unit :=
  modify fun s ↦ { s with ambient := { s.ambient with shared := change s.ambient.shared } }

def reach (what : List Reached) : Run Unit :=
  watch fun w ↦ { w with reached := w.reached ++ what.toArray }

/-- Keeps the device calls that were not seen yet. -/
def seeCalls (id : WindowId) : Run Unit := do
  let s ← get
  match s.platform.screen? id with
  | none => return
  | some screen =>
    let log := screen.recorder.log
    reach ((log.extract s.ambient.shared.calls log.size).toList.map .called)
    watch fun w ↦ { w with calls := log.size }

/-- Scripts the input of the next tick. -/
def feed (id : WindowId) : Run Unit := do
  let input := (← get).ambient.shared.input
  let events := input.headD [.closeRequested]
  events.forM fun event ↦ modify fun s ↦ { s with platform := s.platform.push id event }
  watch fun w ↦ { w with input := input.tail }

/-- What the observer does in a tick, after the input was taken and before anything is drawn. -/
def observe (id : WindowId) : Run Unit := do
  seeCalls id
  let s ← get
  reach [if s.ambient.shared.polls < s.platform.polls then .polled else .waited]
  watch fun w ↦ { w with polls := s.platform.polls }
  feed id

/-- Puts the column into the window and the buttons and the bar into the column. -/
def furnish (root : View) : Pass (Grove Part Watch) (Except Fault Unit) := do
  Grove.change fun f ↦ f.setWidget root .column
  let bar ← Grove.changeAsk fun f ↦ .ok (f.create .zero)
  Grove.change fun f ↦ f.setWidget bar (.bar 0 .white)
  let attach (v : View) : Pass (Grove Part Watch) (Except Fault Unit) := do
    match ← Grove.ask fun f ↦ f.addView root v with
    | .error fault => return .error fault
    | .ok forest =>
      modify fun s ↦ { s with forest }
      return .ok ()
  let button (color : Color) : Pass (Grove Part Watch) (Except Fault Unit) := do
    let v ← Grove.changeAsk fun f ↦ .ok (f.create .zero)
    Grove.change fun f ↦ f.setWidget v (.button color false bar)
    attach v
  match ← button .pureRed with
  | .error fault => return .error fault
  | .ok () =>
    match ← button .pureBlue with
    | .error fault => return .error fault
    | .ok () => attach bar

/-- Opens the window, fills it, and runs until it is closed. -/
def play : Run (Except Fault Unit) := do
  match ← Desktop.openWindow config with
  | .error fault => return .error fault
  | .ok id =>
    reach [.opened config, .shown]
    let furnished ← Desktop.onWindow id do
      let root := (← get).window.root
      Pane.onGrove (furnish root)
    match furnished with
    | none => return .error (.platform "window was closed before it opened")
    | some (.error fault) => return .error fault
    | some (.ok ()) =>
      feed id
      let (answer, _) ← Desktop.runWith program bound fun _ ↦ observe id
      seeCalls id
      if ((← get).platform.screen? id).any (·.released) then reach [.released]
      return answer

/-- The record of a run. -/
structure Outcome where
  reached : List Reached
  notes : List Note
  /-- What the program ends with. -/
  answer : Except Fault Unit

/-- Runs the clicker with input, on a windowing system that keeps what was drawn or does not, and that
may refuse some requests. -/
def run (input : List (List ScreenEvent)) (preservesContents : Bool) (outage : Outage) :
    Except Halt Outcome :=
  let desktop : Desktop Part ClickLine Watch := Desktop.fresh .standard ⟨input, #[], 0, 0⟩
  let desktop := { desktop with platform := { desktop.platform with preservesContents, outage } }
  match play desktop with
  | .ok answer s => .ok ⟨s.ambient.shared.reached.toList, s.ambient.journal.toList, answer⟩
  | .error halt _ => .error halt

end RetainedUi.Clicker
