import RetainedUi.Event.Basic
import RetainedUi.Forest.Basic
import RetainedUi.Journal

/-!
# Redirects

A redirect sends every event of a kind to one view. It remembers the serial of that view, so it dies
with the view and does not follow the slot to the next view in it.
-/

namespace RetainedUi

/-- The view that receives the events of some kind. -/
structure Redirect where
  view : View
  serial : Nat
  deriving DecidableEq, Repr

/-- Whether the view of a redirect is still the one that it was set for. -/
def Redirect.isLive {W : Type} (r : Redirect) (f : Forest W) : Bool := f.serial? r.view == some r.serial

/-- The redirects of a window, at most one for each kind. -/
structure Redirects where
  entries : List (EventKind × Redirect)
  deriving DecidableEq, Repr

namespace Redirects

variable {W : Type}

def empty : Redirects := ⟨[]⟩

/-- The redirect of a kind, dead or alive. -/
def find? (r : Redirects) (kind : EventKind) : Option Redirect := r.entries.lookup kind

def erase (r : Redirects) (kind : EventKind) : Redirects :=
  ⟨r.entries.filter fun entry ↦ entry.1 != kind⟩

def insert (r : Redirects) (kind : EventKind) (redirect : Redirect) : Redirects :=
  ⟨(kind, redirect) :: (r.erase kind).entries⟩

/-- The live view that receives the events of a kind. -/
def target? (r : Redirects) (f : Forest W) (kind : EventKind) : Option View :=
  match r.find? kind with
  | some redirect => if redirect.isLive f then some redirect.view else none
  | none => none

/-- Sets the redirect of a kind, or removes it if no view is given. A dead view removes it too, and
that is noted. -/
def set (r : Redirects) (f : Forest W) (kind : EventKind) (receiver : Option View) :
    Redirects × List Note :=
  match receiver with
  | none => (r.erase kind, [])
  | some view =>
    match f.serial? view with
    | some serial => (r.insert kind ⟨view, serial⟩, [])
    | none =>
      (r.erase kind, [⟨.warning, .routing,
        "Not redirecting " ++ kind.text ++ " to " ++ view.valueText ++ ", it's not a live view"⟩])

/-- The note that a redirect is given up. -/
def droppedText (kind : EventKind) (redirect : Redirect) : String :=
  "Dropping redirect for " ++ kind.text ++ " to destroyed view " ++ redirect.view.valueText

/-- Keeps the live redirects and notes the others. -/
def prune (r : Redirects) (f : Forest W) : Redirects × List Note :=
  let dead := r.entries.filter fun entry ↦ !entry.2.isLive f
  (⟨r.entries.filter fun entry ↦ entry.2.isLive f⟩,
    dead.map fun entry ↦ ⟨.debug, .routing, droppedText entry.1 entry.2⟩)

end Redirects

end RetainedUi
