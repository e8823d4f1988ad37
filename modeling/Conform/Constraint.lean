/-
  Conform/Constraint.lean
  =======================
  **Constraints**: the tests behind them, and how a failed test is reported.
  A constraint is only tested on values that have the right shape; on values of
  a type that it knows nothing about it fails.
-/
import Conform.Context
import Conform.Schema.Text
import Conform.Text.Url
import Conform.Text.Address
import Conform.Text.Case

namespace Conform

/-- What a sized value counts as in messages. -/
def Value.collectionName : Value → String
  | .scalar _ (.str ..) | .scalar _ (.bytes _) => "string"
  | .set .. => "set"
  | .mapping .. => "map"
  | _ => "array"

/-- The size is within the bound. -/
def SizeBound.holds (b : SizeBound) (size limit : Nat) : Bool :=
  match b with
  | .atLeast => limit ≤ size
  | .atMost => size ≤ limit
  | .exactly => size = limit

/-- A text is somewhere among others in order. -/
def occurs (part : List Char) : List Char → Bool
  | [] => part.isEmpty
  | c :: rest => part.isPrefixOf (c :: rest) || occurs part rest

/-- A text occurs in another when the other is something, the text, and something. -/
theorem occurs_iff_infix {part text : List Char} : occurs part text = true ↔ part <:+: text := by
  induction text with
  | nil => simp [occurs]
  | cons c rest ih => simp [occurs, List.infix_cons_iff, ih]

/-- The part is at its place. -/
def Place.holds (p : Place) (part text : List Char) : Bool :=
  match p with
  | .anywhere => occurs part text
  | .atStart => part.isPrefixOf text
  | .atEnd => part.isSuffixOf text

/-- The address is absolute, with one of the schemes if any are given. -/
def isUrl (schemes : Option (List (List Char))) (s : List Char) : Bool :=
  match Text.Url.absoluteScheme? s with
  | none => false
  | some scheme =>
    match schemes with
    | none => true
    | some allowed => allowed.contains (Text.toLower scheme)

/-- A finite number, exactly. -/
def Value.toRat? (v : Value) : Option Rat :=
  match v.toInt? with
  | some n => some n
  | none => v.toFloat?.bind (·.toRat?)

/-- By how much a multiple may be missed: the double nearest to `10 ^ (-9)`, exactly. -/
def tolerance : Rat :=
  (Binary64.ofRat (mkRat 1 1000000000)).toRat?.getD 0

/-- A finite number is a multiple of another: exactly for two integers, within the tolerance
otherwise. -/
def isMultiple (v divisor : Value) : Bool :=
  match v.toInt?, divisor.toInt? with
  | some n, some d => n % d = 0
  | _, _ =>
    match v.toRat?, divisor.toRat? with
    | some p, some q =>
      let rest := p - Number.roundRat (p / q) * q
      rest ≤ tolerance ∧ -tolerance ≤ rest
    | _, _ => false

/-- The sign of a number that is not "not a number". -/
def Value.sign? (v : Value) : Option Ordering :=
  if v.isNumber then
    match v with
    | .scalar _ s => s.quantity?.bind fun q => q.compare? (.finite 0)
    | _ => none
  else none

/-- A comparison that does not apply does not hold. -/
def ifComparable (r : Except Fault Bool) : Except Fault Bool :=
  match r with
  | .error f => if f.kind == .type then .ok false else .error f
  | r => r

namespace Check

/-- A test of texts, which fails on all else. -/
def onText (v : Value) (test : List Char → Bool) : Effect Bool :=
  return match v.toStr? with
    | some s => test s.toList
    | none => false

/-- Tests a value. -/
def test (ctx : Context) (c : Check) (v : Value) : Effect Bool :=
  match c with
  | .size bound limit _ =>
    return match v.size? with
      | some n => bound.holds n limit
      | none => false
  | .pattern regex program =>
    match v.toStr? with
    | some s => if regex.bytes.isSome then throw .arguments else return program.occursIn s.toList
    | none => return false
  | .substring place part _ => onText v fun s => place.holds part.toList s
  | .lowercase => onText v fun s => s == Text.toLower s
  | .uppercase => onText v fun s => s == Text.toUpper s
  | .email => onText v Text.isMailAddress
  | .uuid => onText v Text.isIdentifier
  | .url schemes => onText v (isUrl schemes)
  | .order relation limit => .ofExcept (ifComparable (v.relate relation limit))
  | .multipleOf divisor => return v.isNumber && isMultiple v divisor
  | .positive => return v.sign? == some .gt
  | .negative => return v.sign? == some .lt
  | .refine predicate => do
    let answer ← ctx.invoke predicate [.value v]
    .ofExcept answer.isTrue

/-- What is said to have been found: the size of a sized value, the moment or the value compared,
or the type. -/
def received (names : TypeNames) (c : Check) (v : Value) : Except Fault String :=
  match c with
  | .size .. =>
    match v.size? with
    | some n => .ok (toString n)
    | none => .ok (names.received v)
  | .order .. =>
    match v.toDateTime? with
    | some d => .ok (asText (d.text 'T'))
    | none => v.quoted
  | .multipleOf _ | .positive | .negative | .refine _ => v.quoted
  | _ => .ok (names.received v)

/-- The key of the message for a value that fails. -/
def messageKey (c : Check) (v : Value) : String :=
  match c with
  | .size .. =>
    if v.size?.isSome then v.collectionName ++ "_" ++ c.type else "unsized_length"
  | .order relation _ =>
    if v.toDateTime?.isSome then "date_" ++ c.type
    else match relation with
      | .ge | .le => "number_" ++ c.type
      | .gt | .lt => c.type
  | c => c.type

/-- What is wrong with a value that fails. -/
def finding (names : TypeNames) (c : Check) (name : String) (v : Value) : Except Fault Finding := do
  let received ← c.received names v
  .ok { kind := "validation", type := c.type, input := v, expects := name, received,
        requirement := c.requirement, messageKey := c.messageKey v, reasons := none }

end Check

end Conform
