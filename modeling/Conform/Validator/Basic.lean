/-
  Conform/Validator/Basic.lean
  ============================
  **Validators**: what a schema does to a dataset.  A validator takes a dataset
  through one step: it succeeds with a value, or adds issues and fails, or
  leaves the value partly valid.

  The validators here are those of schemas without parts, and of schemas that
  wrap one other; a wrapper is given the validator of the wrapped schema.
-/
import Conform.Coercion
import Conform.Constraint

namespace Conform

/-- What a schema does to a dataset. -/
abbrev Validator := Context → Dataset → Run Dataset

namespace Validator

/-- The dataset that becomes of a value. -/
def apply (v : Validator) (ctx : Context) (x : Value) : Effect Dataset :=
  Run.toEffect (v ctx (.fresh x))

/-- The dataset fails for a finding. -/
def reject (ctx : Context) (d : Dataset) (message : Value) (f : Finding) : Run Dataset := do
  let i ← within d (ctx.report message f)
  return d.failWith i

/-- The dataset fails because its value does not have the expected shape. -/
def mismatch (l : Label) (ctx : Context) (d : Dataset) : Run Dataset :=
  reject ctx d l.message (l.finding ctx.typeNames d.value)

/-- The dataset fails for the issues that it has. -/
def giveUp (d : Dataset) : Run Dataset :=
  withinExcept d d.fail

/-! ### Schemas without parts -/

def primitive (l : Label) (p : Primitive) : Validator := fun ctx d =>
  if p.accepts d.value then return d.succeed d.value else mismatch l ctx d

def anything : Validator := fun _ d =>
  return d.succeed d.value

def never (l : Label) : Validator := mismatch l

def coerce (l : Label) (t : Target) : Validator := fun ctx d => do
  match ← withinExcept d (t.coerce? d.value) with
  | some v => return d.succeed v
  | none =>
    reject ctx d l.message
      { l.finding ctx.typeNames d.value with messageKey := t.messageKey d.value }

def literal (l : Label) (expected : Value) : Validator := fun ctx d => do
  if ← withinExcept d (d.value.strictEq expected) then return d.succeed d.value
  else
    reject ctx d l.message { l.finding ctx.typeNames d.value with requirement := expected }

/-- A value is strictly equal to one of some others, tried in order. -/
def amongStrictly (v : Value) : List Value → Except Fault Bool
  | [] => .ok false
  | x :: rest => do
    if ← v.strictEq x then .ok true else amongStrictly v rest

def enum (l : Label) (values : List Value) : Validator := fun ctx d => do
  if ← withinExcept d (amongStrictly d.value values) then return d.succeed d.value
  else
    reject ctx d l.message
      { l.finding ctx.typeNames d.value with requirement := .ofTuple values }

/-- A member of the enumeration, or a value behind one. -/
def belongs (e : Enumeration) (v : Value) : Except Fault Bool :=
  match v with
  | .scalar _ (.member m) =>
    if m.enumeration == e then .ok true
    else amongStrictly v (e.memberList.map (·.value.toValue))
  | v => amongStrictly v (e.memberList.map (·.value.toValue))

def nativeEnum (l : Label) (e : Enumeration) : Validator := fun ctx d => do
  if ← withinExcept d (belongs e d.value) then return d.succeed d.value
  else
    reject ctx d l.message
      { l.finding ctx.typeNames d.value with
        requirement := .scalar .shared (.type (.enumeration e)) }

/-! ### Schemas that wrap one other -/

/-- Tests a value of the right shape.  A failed test leaves it partly valid, unless it is to end
the validation. -/
def constraint (message : Value) (check : Check) (name : String) (abort : Bool)
    (inner : Validator) : Validator := fun ctx d => do
  let d ← inner ctx d
  if !d.isTyped then return d
  else if ← within d (check.test ctx d.value) then return d
  else
    let f ← withinExcept d (check.finding ctx.typeNames name d.value)
    let i ← within d (ctx.report message f)
    if abort || ctx.config.abortEarly then return d.failWith i
    else return { d.add i with status := .partly }

/-- A value for where there is none; a callable is called for it. -/
def supply (ctx : Context) (v : Value) : Effect Value :=
  if v.isCallable then ctx.invoke v [] else return v

def wrapper (w : Wrapping) (inner : Validator) : Validator := fun ctx d =>
  match w with
  | .optional => if d.value.isUndefined then return d.succeed d.value else inner ctx d
  | .nullable => if d.value.isNull then return d.succeed .null else inner ctx d
  | .nullish =>
    if d.value.isNull || d.value.isUndefined then return d.succeed d.value else inner ctx d
  | .readonly => inner ctx d
  | .default v =>
    if d.value.isUndefined then do
      let x ← within d (supply ctx v)
      inner ctx { d with value := x }
    else inner ctx d

/-- Transforms a valid value. -/
def overwrite (transform : Value) (inner : Validator) : Validator := fun ctx d => do
  let d ← inner ctx d
  if d.status == .success then
    let x ← within d (ctx.invoke transform [.value d.value])
    return { d with value := x }
  else return d

/-! ### Signals -/

/-- The plain answer of a validator to one value. -/
inductive Signal where
  /-- The value is valid as it is. -/
  | asIs
  /-- The value is valid, and another has to take its place. -/
  | replaced (v : Value)
  /-- The value is not valid, for a reason given by a message. -/
  | failed (message : Value)

/-- The signal that a message is read as.  The truth value true is the signal of a valid value. -/
def Signal.ofMessage (message : Value) : Signal :=
  if message.same (.bool true) then .asIs else .failed message

/-- The value that is written for a valid value. -/
def Signal.accepted? (s : Signal) (v : Value) : Option Value :=
  match s with
  | .asIs => some v
  | .replaced w => some w
  | .failed _ => none

/-- Something has to be written in place of the value. -/
def Signal.isReplaced : Signal → Bool
  | .replaced _ => true
  | _ => false

/-- The signal of a validator for a value. -/
def check (v : Validator) (ctx : Context) (x : Value) : Effect Signal := do
  let d ← v.apply ctx x
  match d.status, d.issues with
  | .success, _ => return if d.value.same x then .asIs else .replaced d.value
  | _, i :: _ => return .ofMessage i.message
  | _, [] => throw .arguments

end Validator

end Conform
