/-!
# Views and halts

A view is named by a handle, the number of a slot. Slot zero is never handed out, so zero names no
view. A handle outlives its view: once the view is destroyed the handle is dead, until a new view
takes the slot.

An operation that is given a dead handle where it needs a view cannot go on. Neither can one that would
need more bytes than memory can have, nor a walk that does not come to its end. Each of these is a halt:
no answer of the operation, but the end of the run. Errors that an operation answers with are a different
thing, see the module on faults.
-/

namespace RetainedUi

/-- The handle of a view: the number of its slot, counted from one. -/
structure View where
  index : Nat
  deriving DecidableEq, Hashable, Repr, Inhabited

/-- The text of a handle as a value. -/
def View.valueText (v : View) : String := "ViewI(" ++ toString v.index ++ ")"

/-- Why an operation has no answer. -/
inductive Halt where
  /-- A handle was used that names no view. -/
  | deadView (view : View)
  /-- More bytes were asked for than memory can have. -/
  | oversized (bytes : Nat)
  /-- A walk took more steps than it was allowed. -/
  | exhausted
  deriving DecidableEq, Repr

/-- A computation over a state that may halt. The state of a halted computation is kept, since what
was recorded before the halt is still to be read. -/
abbrev Pass (σ : Type) := EStateM Halt σ

namespace Pass

/-- Ends the computation at a halt of a plain operation. -/
def lift {σ α : Type} (answer : Except Halt α) : Pass σ α :=
  match answer with
  | .ok a => pure a
  | .error halt => throw halt

end Pass

end RetainedUi
