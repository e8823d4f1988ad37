/-
  Conform/Effect.lean
  ===================
  **Effects.**  Running a schema may call callables and look references up.
  What has been called, and what has been found, is kept in a `World`.

  An `Effect` may end in a fault.  A `Run` is an effect that carries a dataset
  along: when it ends in a fault it still says what had become of the dataset
  (`Halt`).
-/
import Conform.Dataset
import Conform.Schema.Basic

namespace Conform

/-- What a callable is called with. -/
inductive Argument where
  | value (v : Value)
  | issue (i : Issue)

/-- A call that has been made. -/
inductive Call where
  /-- A reference asked for the schema defined under a name. -/
  | getter (name : String)
  | callable (c : Callable) (arguments : List Argument)

/-- What has happened so far. -/
structure World where
  /-- The calls, the latest first. -/
  calls : List Call
  /-- The schemas found for references, by their numbers. -/
  resolved : List (Nat × Schema)

/-- Nothing has happened. -/
def World.empty : World := ⟨[], []⟩

/-- A computation that may call callables, and may end in a fault. -/
abbrev Effect := ExceptT Fault (StateM World)

/-- A fault, and the dataset as it was left. -/
structure Halt where
  fault : Fault
  dataset : Dataset

/-- A computation on a dataset. -/
abbrev Run := ExceptT Halt (StateM World)

/-- A result without effects. -/
def Effect.ofExcept {α : Type} (r : Except Fault α) : Effect α :=
  ExceptT.mk (pure r)

/-- An effect in the course of a run, while the dataset is in some state. -/
def within {α : Type} (d : Dataset) (e : Effect α) : Run α :=
  ExceptT.mk fun w =>
    match e w with
    | (.ok a, w) => (.ok a, w)
    | (.error f, w) => (.error ⟨f, d⟩, w)

/-- A result without effects in the course of a run. -/
def withinExcept {α : Type} (d : Dataset) (r : Except Fault α) : Run α :=
  within d (.ofExcept r)

/-- A run as an effect: of a dataset that is left behind, nothing is known. -/
def Run.toEffect {α : Type} (r : Run α) : Effect α :=
  ExceptT.mk fun w =>
    match r w with
    | (.ok a, w) => (.ok a, w)
    | (.error h, w) => (.error h.fault, w)

end Conform
