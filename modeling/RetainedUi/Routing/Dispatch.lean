import RetainedUi.Forest.Layout
import RetainedUi.Routing.Redirects

/-!
# Dispatching events

The events of a window are delivered in the order in which they were posted. An event whose kind is
redirected goes to the view of the redirect and from there upwards; it never reaches its target by
name. Any other event goes to its target and from there upwards. If nobody stopped it, it is then
offered to every leaf of the window, the deepest first, and from each leaf upwards. No view receives
the same event twice.

A receiver may do to the forest what it likes, destroy views included, may post events, which are
dispatched in the same pass, and may schedule callbacks for later. Therefore nothing bounds the length
of a pass, nor of a walk upwards, and the bound is given by the caller.
-/

namespace RetainedUi

/-- What the receiver of an event works on. The callbacks it schedules are collected in order. -/
structure Desk (W D A : Type) where
  forest : Forest W
  queue : List Event
  redirects : Redirects
  deferred : List D
  ambient : Ambient A

namespace Desk

variable {W D A α : Type}

def note (level : Level) (text : String) : Pass (Desk W D A) Unit :=
  modify fun s ↦ { s with ambient := s.ambient.note level .routing text }

/-- A computation on the forest alone. -/
def onGrove (pass : Pass (Grove W A) α) : Pass (Desk W D A) α := fun s ↦
  match pass ⟨s.forest, s.ambient⟩ with
  | .ok answer grove => .ok answer { s with forest := grove.forest, ambient := grove.ambient }
  | .error halt grove => .error halt { s with forest := grove.forest, ambient := grove.ambient }

/-- Puts an event at the end of the queue. -/
def post (e : Event) : Pass (Desk W D A) Unit := modify fun s ↦ { s with queue := s.queue ++ [e] }

/-- Schedules a callback. -/
def defer (callback : D) : Pass (Desk W D A) Unit :=
  modify fun s ↦ { s with deferred := s.deferred ++ [callback] }

/-- Sets or removes a redirect. -/
def redirect (kind : EventKind) (receiver : Option View) : Pass (Desk W D A) Unit :=
  modify fun s ↦
    let (redirects, notes) := s.redirects.set s.forest kind receiver
    { s with redirects, ambient := s.ambient.noteAll notes }

end Desk

/-- How a widget receives an event for its view, if it receives any. It answers with the widget and
the event as they are afterwards. -/
abbrev HandlingConduct (W D A : Type) := W → Option (View → Event → Pass (Desk W D A) (W × Event))

namespace Routing

variable {W D A : Type}

/-- Lets the widget of a view receive an event. The widget is taken out meanwhile, and is put back
unless the view is gone or has got another widget by then. -/
def deliver (conduct : HandlingConduct W D A) (v : View) (e : Event) : Pass (Desk W D A) Event := do
  let node ← Desk.onGrove (Grove.ask fun f ↦ f.read v)
  match node.widget with
  | none => return e
  | some widget =>
    Desk.onGrove (Grove.change fun f ↦ f.update v fun node ↦ { node with widget := none })
    let (widget, answer) ← match conduct widget with
      | some handle => handle v e
      | none => pure (widget, e)
    Desk.onGrove (Grove.change fun f ↦ .ok (f.modify v fun node ↦
      { node with widget := some (node.widget.getD widget) }))
    return e.amended answer

/-- Delivers to a view and then to each of its superviews, except those that have seen the event. The
walk ends when the event is stopped and at a dead view. It answers with the event and with all views
that have seen it. -/
def upwards (conduct : HandlingConduct W D A) : Nat → Option View → Event → List View →
    Pass (Desk W D A) (Event × List View)
  | _, none, e, seen => return (e, seen)
  | 0, some _, _, _ => throw .exhausted
  | steps + 1, some v, e, seen => do
    if !e.propagating || !(← get).forest.contains v then return (e, seen)
    let (e, seen) ←
      if seen.contains v then pure (e, seen) else do pure (← deliver conduct v e, v :: seen)
    let above := ((← get).forest.node? v).bind (·.superview)
    upwards conduct steps above e seen

/-- Offers an event to the leaves, one after the other, until it is stopped. -/
def broadcast (conduct : HandlingConduct W D A) (steps : Nat) : List View → Event → List View →
    Pass (Desk W D A) Event
  | [], e, _ => return e
  | leaf :: rest, e, seen => do
    let (e, seen) ← upwards conduct steps (some leaf) e seen
    if e.propagating then broadcast conduct steps rest e seen else return e

/-- Delivers to the target by name. A dead target is noted and skipped. -/
def toTarget (conduct : HandlingConduct W D A) (steps : Nat) (e : Event) :
    Pass (Desk W D A) (Event × List View) := do
  match e.target with
  | none => return (e, [])
  | some target =>
    if (← get).forest.contains target then upwards conduct steps (some target) e []
    else
      Desk.note .warning ("Event target " ++ target.valueText ++ " is not a live view, skipping it")
      return (e, [])

/-- The first phase of one event: to the view of a live redirect, or else to the target. The target of
a redirected event counts as having seen it. -/
def direct (conduct : HandlingConduct W D A) (steps : Nat) (e : Event) :
    Pass (Desk W D A) (Event × List View) := do
  match (← get).redirects.find? e.kind with
  | none => toTarget conduct steps e
  | some redirect =>
    if redirect.isLive (← get).forest then
      upwards conduct steps (some redirect.view) e e.target.toList
    else
      Desk.note .warning (Redirects.droppedText e.kind redirect)
      modify fun s ↦ { s with redirects := s.redirects.erase e.kind }
      toTarget conduct steps e

/-- Dispatches one event and answers with what became of it. -/
def dispatchEvent (conduct : HandlingConduct W D A) (steps : Nat) (root : View) (e : Event) :
    Pass (Desk W D A) Event := do
  let (e, seen) ← direct conduct steps e
  if !e.propagating then return e
  let leaves ← Desk.onGrove (Grove.changeAsk fun f ↦ f.leafViews root)
  broadcast conduct steps (leaves.map (·.view)) e seen

/-- Dispatches events until the queue is empty, and answers with them in the order of the pass. -/
def drain (conduct : HandlingConduct W D A) (steps : Nat) (root : View) : Nat → Pass (Desk W D A) (List Event)
  | 0 => do if (← get).queue.isEmpty then return [] else throw .exhausted
  | events + 1 => do
    match (← get).queue with
    | [] => return []
    | e :: rest =>
      modify fun s ↦ { s with queue := rest }
      let done ← dispatchEvent conduct steps root e
      return done :: (← drain conduct steps root events)

/-- Gives up the redirects to destroyed views, then dispatches every event that is queued and every
event that is posted meanwhile. The number bounds the events of the pass and the length of each walk
upwards. -/
def dispatch (conduct : HandlingConduct W D A) (steps : Nat) (root : View) :
    Pass (Desk W D A) (List Event) := do
  modify fun s ↦
    let (redirects, notes) := s.redirects.prune s.forest
    { s with redirects, ambient := s.ambient.noteAll notes }
  drain conduct steps root steps

end Routing

end RetainedUi
