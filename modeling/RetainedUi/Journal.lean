/-!
# The journal

The library notes what it does on behalf of its user: windows that open and close, textures that are
released, and requests that it cannot follow. The notes are kept in order in a journal, which travels
through every computation together with whatever state the user's own widgets share.
-/

namespace RetainedUi

/-- How much a note matters. -/
inductive Level where
  | debug
  | info
  | warning
  deriving DecidableEq, Repr

/-- The part of the program that made a note. -/
inductive Subsystem where
  | painting
  | device
  | routing
  | textures
  | windows
  | loop
  | program
  deriving DecidableEq, Repr

/-- One line of the journal. -/
structure Note where
  level : Level
  subsystem : Subsystem
  text : String
  deriving DecidableEq, Repr

/-- What surrounds every computation: the journal, and the state that the user's widgets share. -/
structure Ambient (A : Type) where
  journal : Array Note
  shared : A
  deriving Repr

namespace Ambient

variable {A : Type}

/-- Adds notes at the end of the journal. -/
def noteAll (a : Ambient A) (notes : List Note) : Ambient A :=
  { a with journal := a.journal ++ notes.toArray }

def note (a : Ambient A) (level : Level) (subsystem : Subsystem) (text : String) : Ambient A :=
  { a with journal := a.journal.push ⟨level, subsystem, text⟩ }

end Ambient

end RetainedUi
