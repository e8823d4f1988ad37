/-
  Conform/Issue.lean
  ==================
  **Issues**: what is wrong with a value, one thing at a time.  An issue carries
  a path from the validated value to the offending one; a container that
  reports an issue of one of its parts puts the key of the part in front
  (`Issue.under`).

  A report is a non-empty list of issues with a text, one line for each.
-/
import Conform.Value.Text

namespace Conform

/-- Something that is wrong with a value. -/
structure Issue where
  /-- Whether the shape is wrong, or a constraint has failed. -/
  kind : String
  /-- Of the schema or constraint that reports it. -/
  type : String
  input : Value
  /-- What was expected, if that can be said. -/
  expects : Option String
  /-- What was found, if that can be said. -/
  received : Option String
  message : Value
  path : List Value
  /-- The parameter of the constraint. -/
  requirement : Value
  /-- The issues of every alternative that has failed. -/
  reasons : Option (List Issue)
deriving Repr, Inhabited

namespace Issue

/-- The issue as one of a part of a container. -/
def under (key : Value) (i : Issue) : Issue :=
  { i with path := key :: i.path }

/-- A text that may be missing, as a value. -/
def optionalText : Option String → Value
  | some s => .str s
  | none => .null

/-! ### Texts -/

/-- The path of an issue: every key quoted, in brackets. -/
def pathText : List Value → Except Fault String
  | [] => .ok ""
  | key :: rest => do
    let s ← key.quoted
    let more ← pathText rest
    .ok ("[" ++ s ++ "]" ++ more)

/-- The text of an issue: its message, where it is, what was expected and what was found. -/
def text (i : Issue) : Except Fault String := do
  let path ← pathText i.path
  let message ← i.message.text
  let place := if i.path.isEmpty then message else message ++ " @ " ++ path
  .ok (place ++ ": expected " ++ i.expects.getD "None" ++ ", got " ++ i.received.getD "None")

/-- A text that may be missing, quoted. -/
def optionalQuoted : Option String → String
  | some s => quoteText s
  | none => "None"

mutual

/-- The quoted text of an issue. -/
def quoted : Issue → Except Fault String
  | ⟨kind, type, input, expects, received, message, path, requirement, reasons⟩ => do
    let input ← input.quoted
    let message ← message.quoted
    let path ← Value.quotedItems path
    let requirement ← requirement.quoted
    let reasons ← match reasons with
      | none => .ok "None"
      | some list => (quotedAll list).map Value.tupleText
    .ok ("Issue(kind=" ++ quoteText kind ++ ", type=" ++ quoteText type ++ ", input=" ++ input ++
      ", expects=" ++ optionalQuoted expects ++ ", received=" ++ optionalQuoted received ++
      ", message=" ++ message ++ ", path=" ++ Value.tupleText path ++
      ", requirement=" ++ requirement ++ ", issues=" ++ reasons ++ ")")
termination_by structural i => i

/-- The quoted texts of issues. -/
def quotedAll : List Issue → Except Fault (List String)
  | [] => .ok []
  | i :: rest => do
    let s ← i.quoted
    let more ← quotedAll rest
    .ok (s :: more)
termination_by structural is => is

end

/-! ### Equality -/

mutual

/-- Equality of issues: all their parts are equal, an object being equal to itself. -/
def eq : Issue → Issue → Except Fault Bool
  | ⟨kind, type, input, expects, received, message, path, requirement, reasons⟩, other => do
    if kind != other.kind || type != other.type then .ok false
    else if !(← input.matches? other.input) then .ok false
    else if expects != other.expects || received != other.received then .ok false
    else if !(← message.matches? other.message) then .ok false
    else if !(← Value.eqItems path other.path) then .ok false
    else if !(← requirement.matches? other.requirement) then .ok false
    else match reasons, other.reasons with
      | none, none => .ok true
      | some xs, some ys => eqAll xs ys
      | _, _ => .ok false
termination_by structural i => i

/-- Equality of lists of issues. -/
def eqAll : List Issue → List Issue → Except Fault Bool
  | [], ys => .ok ys.isEmpty
  | x :: xs, ys =>
    match ys with
    | [] => .ok false
    | y :: ys => do
      if ← x.eq y then eqAll xs ys else .ok false
termination_by structural xs => xs

end

/-! ### As a value -/

mutual

/-- The issue as a tuple of its parts. -/
def toValue : Issue → Value
  | ⟨kind, type, input, expects, received, message, path, requirement, reasons⟩ =>
    .ofTuple [.str kind, .str type, input, optionalText expects, optionalText received, message,
      .ofTuple path, requirement, match reasons with
        | none => .null
        | some list => .ofTuple (toValues list)]
termination_by structural i => i

/-- Issues as tuples. -/
def toValues : List Issue → List Value
  | [] => []
  | i :: rest => i.toValue :: toValues rest
termination_by structural is => is

end

end Issue

/-- A non-empty list of issues, and its text. -/
structure Report where
  issues : List Issue
  message : String
  nonempty : issues ≠ []

namespace Report

/-- The texts of issues. -/
def lines : List Issue → Except Fault (List String)
  | [] => .ok []
  | i :: rest => do
    let s ← i.text
    let more ← lines rest
    .ok (s :: more)

/-- The report of some issues. -/
def ofIssues (issues : List Issue) : Except Fault Report :=
  if h : issues = [] then .error .noIssues
  else (lines issues).map fun texts => ⟨issues, "\n".intercalate texts, h⟩

/-- Equality of reports: their issues are equal. -/
def eq (a b : Report) : Except Fault Bool :=
  Issue.eqAll a.issues b.issues

/-- The quoted text of a report. -/
def quoted (r : Report) : Except Fault String := do
  let parts ← Issue.quotedAll r.issues
  .ok ("ValidationError([" ++ Value.commas parts ++ "])")

end Report

end Conform
