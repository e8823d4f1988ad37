/-
  Conform/Result.lean
  ===================
  **Results**: what a caller is given.  Either the validated value, or a report
  of all issues.
-/
import Conform.Dataset

namespace Conform

/-- The result of a validation. -/
inductive Result where
  | success (data : Value)
  | failure (report : Report)

namespace Result

/-- The result of a validated dataset: a value that is partly valid is not valid. -/
def ofDataset (d : Dataset) : Except Fault Result :=
  match d.status with
  | .success => .ok (.success d.value)
  | _ => (Report.ofIssues d.issues).map .failure

/-- The validated value, or nothing. -/
def data : Result → Value
  | .success v => v
  | .failure _ => .null

/-- The validated value, or else the report. -/
def unwrap : Result → Except Report Value
  | .success v => .ok v
  | .failure r => .error r

/-- The issues; none on success. -/
def issues : Result → List Issue
  | .success _ => []
  | .failure r => r.issues

/-- Equality of results: equal data, or equal reports. -/
def eq : Result → Result → Except Fault Bool
  | .success a, .success b => a.matches? b
  | .failure a, .failure b => a.eq b
  | _, _ => .ok false

/-- The quoted text of a result. -/
def quoted : Result → Except Fault String
  | .success v => v.quoted.map fun s => "Result(success=True, data=" ++ s ++ ")"
  | .failure r => r.quoted.map fun s => "Result(success=False, error=" ++ s ++ ")"

end Result

end Conform
