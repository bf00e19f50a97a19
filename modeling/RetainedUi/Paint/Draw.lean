import RetainedUi.Forest.Layout
import RetainedUi.Paint.Painter

/-!
# Drawing views

Drawing a view makes it clean, lets its widget draw, and draws the subviews on top, each with the
origin moved to its corner. Whatever a subview does to the pen and leaves saved is undone behind it, as
far as the origin goes. A widget that asks for another drawing has its view invalidated at the end.

A widget's drawing works on the painter alone, so the forest stays as it is meanwhile, and its depth
bounds the walk.
-/

namespace RetainedUi

/-- What a widget draws on. -/
structure Canvas (A : Type) where
  painter : Painter
  ambient : Ambient A

/-- What the walk works on: the forest, the painter and what surrounds them. -/
structure Studio (W A : Type) where
  forest : Forest W
  painter : Painter
  ambient : Ambient A

/-- How a widget draws its view with the given frame, if it draws at all. It answers with the widget as
it is afterwards, and whether it asks to be drawn again. -/
abbrev DrawingConduct (W A : Type) := W → Option (View → Rect → Pass (Canvas A) (W × Bool))

namespace Studio

variable {W A α : Type}

/-- A computation on the painter alone. -/
def onCanvas (pass : Pass (Canvas A) α) : Pass (Studio W A) α := fun s ↦
  let forest := s.forest
  match pass ⟨s.painter, s.ambient⟩ with
  | .ok answer canvas => .ok answer ⟨forest, canvas.painter, canvas.ambient⟩
  | .error halt canvas => .error halt ⟨forest, canvas.painter, canvas.ambient⟩

/-- A computation on the forest alone. -/
def onGrove (pass : Pass (Grove W A) α) : Pass (Studio W A) α := fun s ↦
  let painter := s.painter
  match pass ⟨s.forest, s.ambient⟩ with
  | .ok answer grove => .ok answer ⟨grove.forest, painter, grove.ambient⟩
  | .error halt grove => .error halt ⟨grove.forest, painter, grove.ambient⟩

def change (step : Forest W → Except Halt (Forest W)) : Pass (Studio W A) Unit :=
  onGrove (Grove.change step)

def read (v : View) : Pass (Studio W A) (Node W) := onGrove (Grove.ask fun f ↦ f.read v)

def onPainter (step : Painter → Painter) : Pass (Studio W A) Unit :=
  modify fun s ↦ { s with painter := step s.painter }

/-- Makes a view clean and lets its widget draw. The answer says whether the widget asks to be drawn
again. -/
def drawSelf (conduct : DrawingConduct W A) (v : View) : Pass (Studio W A) Bool := do
  change fun f ↦ f.update v fun node ↦ { node with invalidated := none }
  let node ← read v
  match node.widget with
  | none => return false
  | some widget =>
    change fun f ↦ f.update v fun node ↦ { node with widget := none }
    let (widget, again) ← match conduct widget with
      | some draw => onCanvas (draw v node.frame)
      | none => pure (widget, false)
    change fun f ↦ f.update v fun node ↦ { node with widget := some widget }
    return again

/-- Draws a subview with the origin moved to its corner, and brings the origin back. -/
def shifted (draw : View → Pass (Studio W A) Unit) (sub : View) : Pass (Studio W A) Unit := do
  let offset := (← read sub).frame.origin
  let depth := (← get).painter.saved.length
  onPainter fun p ↦ (p.save .originOnly).setOrigin (p.pen.origin + offset)
  draw sub
  onPainter fun p ↦ p.unwind depth

/-- Draws a view and everything below it. The first number bounds the depth. -/
def drawTree (conduct : DrawingConduct W A) : Nat → View → Pass (Studio W A) Unit
  | 0, _ => throw .exhausted
  | depth + 1, v => do
    let again ← drawSelf conduct v
    let node ← read v
    node.subviews.forM (shifted (drawTree conduct depth))
    if again then change fun f ↦ f.invalidate v none

/-- Draws a view and everything below it. -/
def draw (conduct : DrawingConduct W A) (v : View) : Pass (Studio W A) Unit := do
  drawTree conduct (← get).forest.slots.size v

/-- Draws everything below a view. -/
def drawSubviews (conduct : DrawingConduct W A) (v : View) : Pass (Studio W A) Unit := do
  let depth := (← get).forest.slots.size
  let node ← read v
  node.subviews.forM (shifted (drawTree conduct depth))

end Studio

end RetainedUi
