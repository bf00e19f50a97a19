import RetainedUi.Desktop.Tick

/-!
# Buttons and a bar

The clicker is a small program on the desktop: two buttons in a column, and a bar below them that grows
each time one of them is clicked and takes its color.

Pressing a button captures the mouse until it is released. Only a release inside the button is a click,
which the button tells the bar by an event of its own. The bar schedules a line about the number of
clicks.
-/

namespace RetainedUi.Clicker

/-- The widgets of the clicker. -/
inductive Part where
  | column
  | button (color : Color) (pressed : Bool) (bar : View)
  | bar (clicks : Nat) (color : Color)

/-- The line to be written about so many clicks. -/
structure ClickLine where
  clicks : Nat

variable {A : Type}

/-! ## The column -/

/-- The space around and between the parts of the column. -/
def padding : Float32 := 16

def ofCount (n : Nat) : Float32 := (UInt64.ofNat n).toFloat32

/-- The frames of a column of parts of equal height. -/
def columnFrames (bounds : Rect) (parts : Nat) : List Rect :=
  let n := ofCount parts
  let height := (bounds.size.y - padding * (n + 1)) / n
  let width := bounds.size.x - 2 * padding
  (List.range parts).map fun i ↦
    .ofSides padding (padding + ofCount i * (height + padding)) width (Single.larger height 0)

def layoutColumn (v : View) : Pass (Grove Part A) Unit := do
  let node ← Grove.ask fun f ↦ f.read v
  (node.subviews.zip (columnFrames node.bounds node.subviews.length)).forM fun (sub, frame) ↦
    Grove.change fun f ↦ f.setFrame sub frame

def layout : LayoutConduct Part A
  | .column => some fun v ↦ do
    layoutColumn v
    return .column
  | _ => none

/-! ## Receiving events -/

abbrev Handle (A : Type) := Pass (Desk Part ClickLine A)

def repaint (v : View) : Handle A Unit := Desk.onGrove (Grove.change fun f ↦ f.invalidate v none)

/-- Whether a position of the window lies in a view. -/
def isInside (v : View) (position : Vec) : Handle A Bool := Desk.onGrove do
  let bounds := (← Grove.ask fun f ↦ f.read v).bounds
  return bounds.contains (← Grove.ask fun f ↦ f.convertFromRoot v position)

/-- A button at an event: it is pressed from a press inside until the next release. -/
def handleButton (color : Color) (pressed : Bool) (bar v : View) (e : Event) : Handle A (Part × Event) := do
  match e.info with
  | .mouseButton .left state _ position =>
    let inside ← isInside v position
    match state with
    | .pressed =>
      if inside then
        Desk.redirect .mouseButton (some v)
        repaint v
        return (.button color true bar, e.stop)
      else return (.button color pressed bar, e)
    | .released =>
      if pressed then
        Desk.redirect .mouseButton none
        repaint v
        if inside then Desk.post ((Event.custom (some v) "clicked" (.color color)).withTarget bar)
        return (.button color false bar, e.stop)
      else return (.button color pressed bar, e)
  | _ => return (.button color pressed bar, e)

/-- The bar at an event: a click makes it longer. -/
def handleBar (clicks : Nat) (color : Color) (v : View) (e : Event) : Handle A (Part × Event) := do
  match e.payload? with
  | some (.color clicked) =>
    repaint v
    Desk.defer ⟨clicks + 1⟩
    return (.bar (clicks + 1) clicked, e)
  | _ => return (.bar clicks color, e)

def handling : HandlingConduct Part ClickLine A
  | .column => none
  | .button color pressed bar => some (handleButton color pressed bar)
  | .bar clicks color => some (handleBar clicks color)

/-! ## Drawing -/

/-- Draws a quad without texture. It has its geometry, so it cannot fail. -/
def drawRect (rect : Rect) (color : Color) : Pass (Canvas A) Unit := modify fun s ↦
  { s with painter := (s.painter.drawQuad none ((Quad.ofRect rect).withColor color)).2 }

def drawing : DrawingConduct Part A
  | .column => none
  | .button color pressed bar => some fun _ frame ↦ do
    drawRect (frame.withOrigin .zero) (if pressed then color.blend .black 0.3 else color)
    return (.button color pressed bar, false)
  | .bar clicks color => some fun _ frame ↦ do
    let bounds := frame.withOrigin .zero
    let filled := Single.smaller (ofCount clicks * 20) bounds.size.x
    drawRect bounds .lightGrey
    drawRect (bounds.withSize ⟨filled, bounds.size.y⟩) color
    return (.bar clicks color, false)

def program : Program Part ClickLine A :=
  { layout
    handling
    drawing
    perform := fun line ↦ modify fun s ↦
      { s with ambient := s.ambient.note .info .program (toString line.clicks ++ " clicks so far") } }

end RetainedUi.Clicker
