/-
  Conform/Validator/Gathering.lean
  ================================
  **Gathering the parts of a container.**  A container validates its parts one
  after another and gathers their issues, under the keys of the parts, and
  their values.  It stops at the first issue if the configuration says so.

  The outcome is decided at the end: nothing wrong, all parts typed, or some
  part not typed.
-/
import Conform.Validator.Basic

namespace Conform

/-- What has been gathered so far. -/
structure Gathering (α : Type) where
  dataset : Dataset
  output : α
  /-- All parts so far are typed. -/
  typed : Bool

/-- Whether gathering goes on. -/
inductive Progress (α : Type) where
  | going (g : Gathering α)
  | stopped (d : Dataset)

namespace Gathering

variable {α σ : Type}

/-- Nothing has been gathered. -/
def start (d : Dataset) (output : α) : Gathering α := ⟨d, output, true⟩

/-- One more issue, for which a part counts as not typed. -/
def addIssue (g : Gathering α) (ctx : Context) (i : Issue) : Progress α :=
  if ctx.config.abortEarly then .stopped (g.dataset.add i)
  else .going { g with dataset := g.dataset.add i, typed := false }

/-- Takes a validated part in: its issues, and its value if it is typed. -/
def take (g : Gathering α) (ctx : Context) (key : Value) (part : Dataset) (put : Value → α → α) :
    Progress α :=
  let d := g.dataset.absorb key part.issues
  if !part.issues.isEmpty && ctx.config.abortEarly then .stopped d
  else if part.isTyped then .going { g with dataset := d, output := put part.value g.output }
  else .going { g with dataset := d, typed := false }

/-- Takes steps until one stops. -/
def steps (step : σ → Gathering α → Run (Progress α)) : List σ → Gathering α → Run (Progress α)
  | [], g => return .going g
  | s :: rest, g => do
    match ← step s g with
    | .going g => steps step rest g
    | .stopped d => return .stopped d

/-- Steps in two parts: the second part is taken unless the first has stopped. -/
theorem steps_append (step : σ → Gathering α → Run (Progress α)) (xs ys : List σ)
    (g : Gathering α) :
    steps step (xs ++ ys) g = do
      match ← steps step xs g with
      | .going g => steps step ys g
      | .stopped d => return .stopped d := by
  induction xs generalizing g with
  | nil => simp [steps]
  | cons x rest ih =>
    simp only [List.cons_append, steps, bind_assoc]
    congr 1
    funext p
    cases p with
    | going g => exact ih g
    | stopped d => simp

end Gathering

/-- The dataset of a container: with an output made of what was gathered, or failed. -/
def Progress.finish {α : Type} (make : α → Except Fault Value) : Progress α → Run Dataset
  | .stopped d => Validator.giveUp d
  | .going g => do
    let output ← withinExcept g.dataset (make g.output)
    withinExcept g.dataset (g.dataset.finish output g.typed)

end Conform
