/-
  Conform/Dataset.lean
  ====================
  **Datasets**: a value on its way through a schema, with a status and the
  issues found so far.  A value that is typed has the expected shape; it is
  partly valid when a constraint has failed.
-/
import Conform.Issue

namespace Conform

/-- How far the validation of a value has come. -/
inductive Status where
  | unknown
  | success
  /-- The shape is right, and some constraint has failed. -/
  | partly
  | failure
deriving DecidableEq, Repr, Inhabited

/-- The word for a status. -/
def Status.text : Status → String
  | .unknown => "unknown"
  | .success => "success"
  | .partly => "partial"
  | .failure => "failure"

/-- The value has the expected shape. -/
def Status.isTyped : Status → Bool
  | .success | .partly => true
  | _ => false

/-- A value under validation. -/
structure Dataset where
  status : Status
  value : Value
  issues : List Issue
deriving Repr, Inhabited

namespace Dataset

/-- A value that is not validated yet. -/
def fresh (v : Value) : Dataset := ⟨.unknown, v, []⟩

/-- A valid value. -/
def valid (v : Value) : Dataset := ⟨.success, v, []⟩

/-- An invalid value, with its issues. -/
def invalid (v : Value) (first : Issue) (rest : List Issue) : Dataset := ⟨.failure, v, first :: rest⟩

def isTyped (d : Dataset) : Bool := d.status.isTyped

/-- The dataset is valid, with a value. -/
def succeed (d : Dataset) (v : Value) : Dataset :=
  { d with status := .success, value := v }

/-- One more issue; the status stays. -/
def add (d : Dataset) (i : Issue) : Dataset :=
  { d with issues := d.issues ++ [i] }

/-- More issues; the status stays. -/
def addAll (d : Dataset) (is : List Issue) : Dataset :=
  { d with issues := d.issues ++ is }

/-- The dataset is partly valid, with a value. -/
def succeedPartly (d : Dataset) (v : Value) : Dataset :=
  { d with status := .partly, value := v }

/-- The dataset has failed, for an issue. -/
def failWith (d : Dataset) (i : Issue) : Dataset :=
  { d.add i with status := .failure }

/-- The dataset has failed, for the issues that it has. -/
def fail (d : Dataset) : Except Fault Dataset :=
  if d.issues.isEmpty then .error .failedWithoutIssues else .ok { d with status := .failure }

/-- Takes over the issues of a part, under its key. -/
def absorb (d : Dataset) (key : Value) (issues : List Issue) : Dataset :=
  d.addAll (issues.map (·.under key))

/-- The end of a container: valid when nothing is wrong, partly valid when all parts are typed,
and failed otherwise. -/
def finish (d : Dataset) (output : Value) (typed : Bool) : Except Fault Dataset :=
  if d.issues.isEmpty then .ok (d.succeed output)
  else if typed then .ok (d.succeedPartly output)
  else d.fail

/-! ### What becomes of the issues -/

@[simp] theorem isTyped_succeed (d : Dataset) (v : Value) : (d.succeed v).isTyped = true := rfl

@[simp] theorem issues_succeed (d : Dataset) (v : Value) : (d.succeed v).issues = d.issues := rfl

@[simp] theorem issues_add (d : Dataset) (i : Issue) : (d.add i).issues = d.issues ++ [i] := rfl

@[simp] theorem issues_failWith (d : Dataset) (i : Issue) :
    (d.failWith i).issues = d.issues ++ [i] := rfl

@[simp] theorem issues_absorb (d : Dataset) (key : Value) (is : List Issue) :
    (d.absorb key is).issues = d.issues ++ is.map (·.under key) := rfl

/-- A dataset can be marked as failed exactly when it has issues. -/
theorem fail_eq_ok_iff {d e : Dataset} :
    d.fail = .ok e ↔ d.issues ≠ [] ∧ e = { d with status := .failure } := by
  unfold fail
  split
  · next h => simp [List.isEmpty_iff.mp h]
  · next h =>
    rw [List.isEmpty_iff] at h
    simp only [Except.ok.injEq, ne_eq, h, not_false_eq_true, true_and]
    exact eq_comm

/-- The end of a container is never a fault. -/
theorem exists_finish (d : Dataset) (output : Value) (typed : Bool) :
    ∃ e, d.finish output typed = .ok e := by
  unfold finish
  split
  · exact ⟨_, rfl⟩
  · split
    · exact ⟨_, rfl⟩
    · next h _ => exact ⟨_, fail_eq_ok_iff.mpr ⟨by simpa using h, rfl⟩⟩

/-- The quoted text of a dataset. -/
def quoted (d : Dataset) : Except Fault String := do
  let value ← d.value.quoted
  let parts ← Issue.quotedAll d.issues
  let issues := if parts.isEmpty then "None" else "[" ++ Value.commas parts ++ "]"
  .ok ("Dataset(" ++ d.status.text ++ ", " ++ value ++ ", issues=" ++ issues ++ ")")

end Dataset

end Conform
