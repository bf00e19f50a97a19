import RetainedUi.Script.Paint
import RetainedUi.Script.Tree

/-!
# Scripted widgets

When a capability of a scripted widget is called, it logs an entry, looks which of its rules fire,
counts them, and performs their acts in order. All conditions are looked at before the first act, and
the counts stay with the widget.

A layout may lay out other views in its turn, whose widgets are scripted as well. Each widget is taken
out while it lays out, so such calls nest only so deep, and a number bounds their depth.
-/

namespace RetainedUi.Script

/-- Counts the rules that fire, and collects their acts. -/
def fireRules {Condition Step : Type} (holds : Condition → Bool) (rules : List (Rule Condition Step)) :
    List (Rule Condition Step) × List (Act Step) :=
  let fires (rule : Rule Condition Step) : Bool :=
    rule.limit.all (rule.fired < ·) && holds rule.condition
  (rules.map fun rule ↦ if fires rule then { rule with fired := rule.fired + 1 } else rule,
    (rules.filter fires).flatMap (·.acts))

/-! ## Laying out -/

/-- A step of a widget that lays out a view. -/
def LayoutStep.run (conduct : LayoutConduct Widget Notebook) (depth : Nat) (v : View) (step : LayoutStep) :
    TreePass Widget Reply := do
  let node ← Grove.ask fun f ↦ f.read v
  match step with
  | fill =>
    node.subviews.forM fun sub ↦ Grove.change fun f ↦ f.setFrame sub node.bounds
    return .ok
  | stack offset size =>
    node.subviews.zipIdx.forM fun (sub, position) ↦
      let origin := offset.scale (UInt64.ofNat position).toFloat32
      Grove.change fun f ↦ f.setFrame sub ⟨origin, size.getD node.bounds.size⟩
    return .ok
  | ownSubviews => return .many .view node.subviews
  | tree step => step.run conduct depth

/-- How scripted widgets lay out. The first number bounds how deep such calls nest, the second one the
depth of each layout. -/
def layoutConduct : Nat → Nat → LayoutConduct Widget Notebook
  | 0, _ => fun widget ↦ widget.layout.map fun _ ↦ fun _ ↦ throw .exhausted
  | nesting + 1, depth => fun widget ↦ widget.layout.map fun rules ↦ fun v ↦ do
    let bounds := (← Grove.ask fun f ↦ f.read v).bounds
    HasNotebook.enter (.list [.text "layout", .view v, .rect bounds])
    let (rules, acts) := fireRules (fun _ ↦ true) rules
    HasNotebook.perform (fun step ↦ step.run (layoutConduct nesting depth) depth v) acts
    return { widget with layout := some rules }

/-! ## Drawing -/

/-- A step of a widget that draws a view with the given frame. The flag says whether it asks to be drawn
again, and the answer is the flag from then on. -/
def DrawStep.run (frame : Rect) (step : DrawStep) (again : Bool) : Pass (Canvas Notebook) (Reply × Bool) := do
  let texture? := (← HasNotebook.notebook).texture?
  let bounds := frame.withOrigin .zero
  match step with
  | requestRedraw => return (.ok, true)
  | .bounds => return (.rect bounds, again)
  | .frame => return (.rect frame, again)
  | quadBounds texture color =>
    let reply ← modifyGet fun s ↦
      let (answer, painter) := s.painter.drawQuad (texture? texture) { Quad.ofRect bounds with color }
      (Reply.done answer, { s with painter })
    return (reply, again)
  | paint step =>
    let reply ← modifyGet fun s ↦
      let (reply, painter) := step.run texture? s.painter
      (reply, { s with painter })
    return (reply, again)

/-- Performs the acts of a widget that draws. -/
def performDrawing (frame : Rect) : List (Act DrawStep) → Bool → Pass (Canvas Notebook) Bool
  | [], again => return again
  | act :: rest, again => do
    let (reply, again) ← act.step.run frame again
    HasNotebook.enter (.list [.text "act", .text act.word, reply])
    performDrawing frame rest again

/-- How scripted widgets draw. -/
def drawingConduct : DrawingConduct Widget Notebook := fun widget ↦
  widget.draw.map fun rules ↦ fun v frame ↦ do
    HasNotebook.enter (.list [.text "draw", .view v, .vec (← get).painter.pen.origin])
    let (rules, acts) := fireRules (fun _ ↦ true) rules
    let again ← performDrawing frame acts false
    return ({ widget with draw := some rules }, again)

/-! ## Receiving events -/

/-- The computations of receivers. -/
abbrev HandlePass := Pass (Desk Widget Callback Notebook)

def askForest {α : Type} (question : Forest Widget → Except Halt α) : HandlePass α :=
  Desk.onGrove (Grove.ask question)

/-- The live view that receives the events of a kind. -/
def redirectTarget (kind : EventKind) : HandlePass (Option View) := do
  let s ← get
  return s.redirects.target? s.forest kind

/-- Whether the position of an event, which has to have one, lies in the bounds of a view. -/
def isInside (v : View) (e : Event) (wanted : Bool) : HandlePass Bool := do
  match e.position? with
  | none => return false
  | some position =>
    let bounds := (← askForest fun f ↦ f.read v).bounds
    let point ← askForest fun f ↦ f.convertFromRoot v position
    return bounds.contains point == wanted

/-- The state of the button of an event. -/
def buttonState? (e : Event) : Option ButtonState :=
  match e.info with
  | .mouseButton _ state _ _ => some state
  | _ => none

/-- Whether an event is as a condition wants it. -/
def EventCondition.holds (condition : EventCondition) (v : View) (e : Event) : HandlePass Bool := do
  if !condition.kind.all (e.kind == ·) then return false
  if !condition.state.all (buttonState? e == some ·) then return false
  match condition.inside with
  | some wanted => if !(← isInside v e wanted) then return false
  | none => pure ()
  match condition.captured with
  | some wanted => return ((← redirectTarget e.kind) == some v) == wanted
  | none => return true

/-- Counts the rules that fire for an event, and collects their acts. -/
def fireForEvent (v : View) (e : Event) : List (Rule EventCondition HandleStep) →
    HandlePass (List (Rule EventCondition HandleStep) × List (Act HandleStep))
  | [] => return ([], [])
  | rule :: rest => do
    let fires ← if rule.limit.all (rule.fired < ·) then rule.condition.holds v e else pure false
    let (rules, acts) ← fireForEvent v e rest
    if fires then return ({ rule with fired := rule.fired + 1 } :: rules, rule.acts ++ acts)
    else return (rule :: rules, acts)

/-- A step on an event. -/
inductive EventStep where
  | stop
  | cancel
  | setTarget (target : Option View)
  | info

/-- What a step on an event is told, and the event afterwards. -/
def EventStep.run (e : Event) : EventStep → Reply × Event
  | stop => (.ok, e.stop)
  | cancel =>
    match e.cancel with
    | .ok e => (.ok, e)
    | .error fault => (.fault fault, e)
  | setTarget target => (.ok, { e with target })
  | info => (.event e, e)

/-- A step of a widget that receives an event for its view. -/
def HandleStep.run (conduct : LayoutConduct Widget Notebook) (depth : Nat) (v : View) (e : Event)
    (step : HandleStep) : HandlePass (Reply × Event) := do
  let notebook ← HasNotebook.notebook
  match step with
  | stop => return EventStep.stop.run e
  | cancel => return EventStep.cancel.run e
  | setTarget target => return (EventStep.setTarget (target.map notebook.view)).run e
  | eventInfo => return EventStep.info.run e
  | post draft =>
    Desk.post (notebook.event draft)
    return (.ok, e)
  | redirect kind receiver =>
    Desk.redirect kind (match receiver with
      | .nowhere => none
      | .toSelf => some v
      | .toView label => some (notebook.view label))
    return (.ok, e)
  | redirectTarget kind => return (.option .view (← Script.redirectTarget kind), e)
  | defer acts =>
    Desk.defer acts
    return (.ok, e)
  | invalidateSelf =>
    Desk.onGrove (Grove.change fun f ↦ f.invalidate v none)
    return (.ok, e)
  | bounds => return (.rect (← askForest fun f ↦ f.read v).bounds, e)
  | localPosition point =>
    match point.orElse (fun _ ↦ e.position?) with
    | none => return (.nothing, e)
    | some point => return (.vec (← askForest fun f ↦ f.convertFromRoot v point), e)
  | tree step => return (← Desk.onGrove (step.run conduct depth), e)

/-- Performs the acts of a widget that receives an event. -/
def performHandling (conduct : LayoutConduct Widget Notebook) (depth : Nat) (v : View) :
    List (Act HandleStep) → Event → HandlePass Event
  | [], e => return e
  | act :: rest, e => do
    let (reply, e) ← act.step.run conduct depth v e
    HasNotebook.enter (.list [.text "act", .text act.word, reply])
    performHandling conduct depth v rest e

/-- How scripted widgets receive events. -/
def handlingConduct (conduct : LayoutConduct Widget Notebook) (depth : Nat) :
    HandlingConduct Widget Callback Notebook := fun widget ↦
  widget.handle.map fun rules ↦ fun v e ↦ do
    HasNotebook.enter (.list [.text "handle", .view v, .text e.text])
    let (rules, acts) ← fireForEvent v e rules
    let e ← performHandling conduct depth v acts e
    return ({ widget with handle := some rules }, e)

end RetainedUi.Script
