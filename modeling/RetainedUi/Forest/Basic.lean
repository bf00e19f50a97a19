import RetainedUi.Forest.Node

/-!
# The forest of views

All views live in the slots of one store and point at each other by handle. A freed slot is used
again, the one freed last before the others, and only when no slot is vacant the store grows. Every
creation gets a new serial, so a view can be told from an earlier one in the same slot.

The first slot holds a node that stands for no view and is linked to nothing. It is occupied from the
start and never freed, so no creation can hand out index zero.

Whether the links form a forest is not part of the type. The operations keep it that way; the walks
below carry a bound on their length, which a forest never reaches.
-/

namespace RetainedUi

/-- The views and the links between them. -/
structure Forest (W : Type) where
  slots : Array (Option (Node W))
  /-- The freed slots, the last one freed in front. -/
  vacant : List Nat
  lastSerial : Nat
  /-- The physical pixels in one logical pixel. -/
  scaleFactor : Float32

namespace Forest

variable {W : Type}

/-- The forest without views. -/
def empty : Forest W :=
  { slots := #[some (.detached .zero .plain)], vacant := [], lastSerial := 0, scaleFactor := 1 }

/-- The node of a view, if the handle names one. -/
def node? (f : Forest W) (v : View) : Option (Node W) :=
  if v.index = 0 then none else (f.slots[v.index]?).join

def contains (f : Forest W) (v : View) : Bool := (f.node? v).isSome

/-- The serial of a view, which no other view of the same forest has or had. -/
def serial? (f : Forest W) (v : View) : Option Nat := (f.node? v).map (·.serial)

/-- The number of views. -/
def size (f : Forest W) : Nat := f.slots.countP Option.isSome - 1

/-- The node of a view. A dead handle halts. -/
def read (f : Forest W) (v : View) : Except Halt (Node W) :=
  match f.node? v with
  | some node => .ok node
  | none => .error (.deadView v)

/-- Changes the node of a view, if the handle names one. -/
def modify (f : Forest W) (v : View) (change : Node W → Node W) : Forest W :=
  if v.index = 0 then f else { f with slots := f.slots.modify v.index (Option.map change) }

/-- Changes the node of a view. A dead handle halts. -/
def update (f : Forest W) (v : View) (change : Node W → Node W) : Except Halt (Forest W) :=
  if f.contains v then .ok (f.modify v change) else .error (.deadView v)

/-- Puts a node into the slot freed last, or into a new one, and gives it the next serial. -/
def insert (f : Forest W) (node : Node W) : View × Forest W :=
  let serial := f.lastSerial + 1
  let node := { node with serial }
  match f.vacant with
  | slot :: rest =>
    (⟨slot⟩, { f with slots := f.slots.setIfInBounds slot (some node), vacant := rest, lastSerial := serial })
  | [] => (⟨f.slots.size⟩, { f with slots := f.slots.push (some node), lastSerial := serial })

/-- Takes a node out of its slot. -/
def free (f : Forest W) (v : View) : Except Halt (Node W × Forest W) := do
  let node ← f.read v
  return (node, { f with slots := f.slots.setIfInBounds v.index none, vacant := v.index :: f.vacant })

/-- Creates a detached view. -/
def create (f : Forest W) (frame : Rect) : View × Forest W := f.insert (.detached frame .plain)

/-- Creates a detached view that stands for a window. -/
def createWindow (f : Forest W) (frame : Rect) : View × Forest W := f.insert (.detached frame .window)

def setTag (f : Forest W) (v : View) (tag : Option String) : Except Halt (Forest W) :=
  f.update v fun node ↦ { node with tag }

def setWidget (f : Forest W) (v : View) (widget : W) : Except Halt (Forest W) :=
  f.update v fun node ↦ { node with widget := some widget }

end Forest

end RetainedUi
