import RetainedUi.Script.Reply
import RetainedUi.Script.Step

/-!
# The notebook of a session

While a script runs, a notebook keeps what the labels stand for and what the widgets logged. A label
that is given again stands for the new thing. A label that was never given stands for a handle that
names nothing.
-/

namespace RetainedUi.Script

/-- A window opened by a script, and how many of its device calls were reported. -/
structure OpenedWindow where
  label : Label
  id : WindowId
  reported : Nat

structure Notebook where
  views : List (Label × View)
  textures : List (Label × Texture)
  windows : List (Label × WindowId)
  /-- In the order of opening. -/
  opened : List OpenedWindow
  log : Array Reply

namespace Notebook

def blank : Notebook := { views := [], textures := [], windows := [], opened := [], log := #[] }

def view (n : Notebook) (label : Label) : View := (n.views.lookup label).getD ⟨0⟩
def texture (n : Notebook) (label : Label) : Option Texture := n.textures.lookup label
def window (n : Notebook) (label : Label) : WindowId := (n.windows.lookup label).getD ⟨0⟩

/-- The texture of an optional label. -/
def texture? (n : Notebook) (label : Option Label) : Option Texture := label.bind n.texture

def bindView (n : Notebook) (label : Label) (v : View) : Notebook := { n with views := (label, v) :: n.views }

/-- Binds the label of a request that succeeded, if one was given. -/
def bindTexture (n : Notebook) (label : Option Label) (answer : Except Fault Texture) : Notebook :=
  match label, answer with
  | some label, .ok texture => { n with textures := (label, texture) :: n.textures }
  | _, _ => n

def bindWindow (n : Notebook) (label : Label) (id : WindowId) : Notebook :=
  { n with windows := (label, id) :: n.windows }

def enter (n : Notebook) (entry : Reply) : Notebook := { n with log := n.log.push entry }

/-- The event of a draft. -/
def event (n : Notebook) (draft : EventDraft) : Event :=
  let e := Event.new (draft.sender.map n.view) draft.kind draft.info
  let e := match draft.target with
    | some label => e.withTarget (n.view label)
    | none => e
  if draft.cancellable then e else e.notCancellable

/-- The slots that some label was ever bound to, in ascending order. -/
def slots (n : Notebook) : List Nat :=
  (n.views.map (·.2.index)).eraseDups.mergeSort (· ≤ ·)

end Notebook

/-- Computations that can use the notebook. -/
class HasNotebook (σ : Type) where
  read : σ → Notebook
  write : σ → (Notebook → Notebook) → σ

namespace HasNotebook

variable {σ : Type} [HasNotebook σ]

def notebook : Pass σ Notebook := do return read (← get)

def edit (change : Notebook → Notebook) : Pass σ Unit := modify fun s ↦ write s change

/-- Adds an entry to the log. -/
def enter (entry : Reply) : Pass σ Unit := edit fun n ↦ n.enter entry

/-- Performs acts in order and logs what each of them was told. -/
def perform {Step : Type} (run : Step → Pass σ Reply) (acts : List (Act Step)) : Pass σ Unit :=
  acts.forM fun act ↦ do
    let reply ← run act.step
    enter (.list [.text "act", .text act.word, reply])

end HasNotebook

/-- The notebook inside what surrounds a computation. -/
def inAmbient (a : Ambient Notebook) (change : Notebook → Notebook) : Ambient Notebook :=
  { a with shared := change a.shared }

instance {W : Type} : HasNotebook (Grove W Notebook) where
  read s := s.ambient.shared
  write s change := { s with ambient := inAmbient s.ambient change }

instance : HasNotebook (Canvas Notebook) where
  read s := s.ambient.shared
  write s change := { s with ambient := inAmbient s.ambient change }

instance {W D : Type} : HasNotebook (Desk W D Notebook) where
  read s := s.ambient.shared
  write s change := { s with ambient := inAmbient s.ambient change }

instance {W : Type} : HasNotebook (Pane W Notebook) where
  read s := s.ambient.shared
  write s change := { s with ambient := inAmbient s.ambient change }

instance {W D : Type} : HasNotebook (Desktop W D Notebook) where
  read s := s.ambient.shared
  write s change := { s with ambient := inAmbient s.ambient change }

end RetainedUi.Script
