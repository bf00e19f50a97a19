import RetainedUi.Halt
import RetainedUi.Text.Quoted

/-!
# Faults

A fault is an error that an operation answers with. Most of them say that the caller broke the rules
of the operation, so that the same call fails the same way again.
-/

namespace RetainedUi

/-- The reasons for which an operation is refused. -/
inductive Fault where
  /-- The view has a superview already. -/
  | alreadyAttached (view : View)
  /-- The view would become its own ancestor. -/
  | wouldCycle (view : View)
  /-- A quad lacks a part of its geometry. -/
  | missingGeometry (part : String)
  /-- No drawing state is saved. -/
  | stateUnderflow
  /-- The event cannot be cancelled. -/
  | notCancellable
  /-- Realtime mode was left more often than it was entered. -/
  | realtimeUnderflow
  /-- The handle names no view. -/
  | invalidTarget (view : View)
  /-- The windowing system refused. -/
  | platform (reason : String)
  /-- The device refused. -/
  | gpu (reason : String)
  /-- The data is no image that can be read. -/
  | image
  deriving DecidableEq, Repr

namespace Fault

/-- The name of the reason. -/
def name : Fault → String
  | alreadyAttached _ => "AlreadyAttached"
  | wouldCycle _ => "WouldCycle"
  | missingGeometry _ => "MissingGeometry"
  | stateUnderflow => "StateUnderflow"
  | notCancellable => "NotCancellable"
  | realtimeUnderflow => "RealtimeUnderflow"
  | invalidTarget _ => "InvalidTarget"
  | platform _ => "Platform"
  | gpu _ => "Gpu"
  | image => "Image"

/-- The text for people. Of an image the decoder alone could tell what is wrong with it. -/
def message? : Fault → Option String
  | alreadyAttached view => some ("view " ++ view.valueText ++ " already has a superview")
  | wouldCycle view => some ("adding " ++ view.valueText ++ " would create a cycle")
  | missingGeometry part => some (part ++ " is missing")
  | stateUnderflow => some "driver state stack underflow"
  | notCancellable => some "unable to cancel event"
  | realtimeUnderflow => some "underflow on realtime counter"
  | invalidTarget view => some ("invalid target: " ++ view.valueText ++ " is not a live view")
  | platform reason => some ("platform error: " ++ reason)
  | gpu reason => some ("gpu error: " ++ reason)
  | image => none

/-- The text of a fault as a value. -/
def valueText (fault : Fault) : String :=
  let argument? : Option String := match fault with
    | alreadyAttached view => some view.valueText
    | wouldCycle view => some view.valueText
    | invalidTarget view => some view.valueText
    | missingGeometry part => some (Quoted.quote part)
    | platform reason => some (Quoted.quote reason)
    | gpu reason => some (Quoted.quote reason)
    | _ => none
  match argument? with
  | some argument => fault.name ++ "(" ++ argument ++ ")"
  | none => fault.name

end Fault

end RetainedUi
