/-
  Conform/Run.lean
  ================
  **Running schemas.**  The validator of a schema is built from the validators
  of its parts (`Schema.validator`); only a reference leads out of the tree, to
  the schema that is found for it.

  How many references may lie on one path through schemas and values is limited
  by what the input gives (`Context.bound`): on one value no reference is met
  twice, unless it leads nowhere, and a step into the value or to a default
  makes room for all of them again.  Past the limit references lead nowhere,
  which is a fault.
-/
import Conform.Validator.Object
import Conform.Validator.Container
import Conform.Validator.Operator

namespace Conform

/-! ### References -/

/-- A reference has led to a value that is no schema. -/
def notGotten (v : Value) : Fault :=
  .malformed (.notSchema "Lazy getter result" v.typeOf.name)

/-- The schema behind a reference.  It is looked up once, and then kept. -/
def Context.force (ctx : Context) (id : Nat) (getter : Getter) : Effect Schema := do
  let w ← get
  match w.resolved.lookup id with
  | some s => return s
  | none =>
    match getter with
    | .definition name =>
      set { w with calls := .getter name :: w.calls }
      match ctx.definitions.lookup name with
      | none => throw (.undefinedSchema name)
      | some (.value v) => throw (notGotten v)
      | some (.schema s) =>
        modify fun w => { w with resolved := (id, s) :: w.resolved }
        return s
    | .callable callee =>
      let v ← ctx.invoke callee []
      throw (notGotten v)

namespace Validator

/-- Runs the schema behind a reference. -/
def lazy (resolve : Schema → Validator) (id : Nat) (getter : Getter) : Validator := fun ctx d => do
  let s ← within d (ctx.force id getter)
  resolve s ctx d

/-- References lead nowhere. -/
def endless : Validator := fun _ d => throw ⟨.endless, d⟩

end Validator

namespace Schema

/-! ### Validators of schemas -/

/-- What the schema brings to the issues that it reports. -/
def label (s : Schema) : Label := ⟨s.type, s.expects, s.message⟩

mutual

/-- The validator of a schema, given those of the schemas behind references. -/
def validator (resolve : Schema → Validator) : Schema → Validator
  | .primitive m p => .primitive (label (.primitive m p)) p
  | .anything _ _ => .anything
  | .never m => .never (label (.never m))
  | .coerce m t => .coerce (label (.coerce m t)) t
  | .literal m v expects => .literal (label (.literal m v expects)) v
  | .enum m keys values expects => .enum (label (.enum m keys values expects)) values
  | .nativeEnum m e => .nativeEnum (label (.nativeEnum m e)) e
  | .constraint m check name abort inner =>
    .constraint m check name abort (inner.validator resolve)
  | .wrapper _ w inner => .wrapper w (inner.validator resolve)
  | .overwrite _ transform inner => .overwrite transform (inner.validator resolve)
  | .lazy _ id getter => .lazy resolve id getter
  | .object m id kind extra absent entries =>
    .object (label (.object m id kind extra absent entries)) kind extra absent
      (entryValidators resolve entries)
  | .array m limits item =>
    .array (label (.array m limits item)) limits (item.validator resolve)
  | .set m limits item => .set (label (.set m limits item)) limits (item.validator resolve)
  | .tuple m items rest =>
    .tuple (label (.tuple m items rest)) (validators resolve items)
      (match rest with
        | some r => some (r.validator resolve)
        | none => none)
  | .map m limits key value =>
    .map (label (.map m limits key value)) limits ⟨key.expects, key.validator resolve⟩
      ⟨value.expects, value.validator resolve⟩
  | .record m key value =>
    .record (label (.record m key value)) ⟨key.expects, key.validator resolve⟩
      (value.validator resolve)
  | .union m members => .union (label (.union m members)) (validators resolve members)
  | .intersection m members =>
    .intersection (label (.intersection m members)) (validators resolve members)
termination_by structural s => s

/-- The validators of schemas. -/
def validators (resolve : Schema → Validator) : List Schema → List Validator
  | [] => []
  | s :: rest => s.validator resolve :: validators resolve rest
termination_by structural ss => ss

/-- The validators of declared keys. -/
def entryValidators (resolve : Schema → Validator) : List (Value × Schema) → List Validator.Entry
  | [] => []
  | (key, s) :: rest => ⟨key, s.expects, s.validator resolve⟩ :: entryValidators resolve rest
termination_by structural es => es

end

/-- The validator of a schema when at most so many references lie on one path. -/
def validatorUpTo : Nat → Schema → Validator
  | 0, s => s.validator fun _ => .endless
  | n + 1, s => s.validator (validatorUpTo n)

/-! ### How many references may lie on one path -/

mutual

/-- The number of references in a schema. -/
def lazyCount : Schema → Nat
  | .lazy .. => 1
  | .constraint _ _ _ _ inner | .wrapper _ _ inner | .overwrite _ _ inner => inner.lazyCount
  | .object _ _ _ _ _ entries => lazyCountEntries entries
  | .array _ _ item | .set _ _ item => item.lazyCount
  | .tuple _ items rest =>
    lazyCountAll items + match rest with
      | some r => r.lazyCount
      | none => 0
  | .map _ _ key value | .record _ key value => key.lazyCount + value.lazyCount
  | .union _ members | .intersection _ members => lazyCountAll members
  | _ => 0
termination_by structural s => s

/-- The number of references in schemas. -/
def lazyCountAll : List Schema → Nat
  | [] => 0
  | s :: rest => s.lazyCount + lazyCountAll rest
termination_by structural ss => ss

/-- The number of references behind declared keys. -/
def lazyCountEntries : List (Value × Schema) → Nat
  | [] => 0
  | (_, s) :: rest => s.lazyCount + lazyCountEntries rest
termination_by structural es => es

end

end Schema

mutual

/-- How deep a value is nested. -/
def Value.depth : Value → Nat
  | .scalar .. => 0
  | .list _ _ items | .tuple _ items | .set _ _ items => depthOfItems items + 1
  | .mapping _ _ entries => depthOfEntries entries + 1
termination_by structural v => v

/-- How deep items are nested. -/
def depthOfItems : List Value → Nat
  | [] => 0
  | x :: rest => max x.depth (depthOfItems rest)
termination_by structural xs => xs

/-- How deep keys and values are nested. -/
def depthOfEntries : List (Value × Value) → Nat
  | [] => 0
  | (k, v) :: rest => max (max k.depth v.depth) (depthOfEntries rest)
termination_by structural es => es

end

/-- How many steps into a value a default makes room for. -/
def Wrapping.room (callDepth : Nat) : Wrapping → Nat
  | .default v => if v.isCallable then callDepth + 1 else v.depth + 1
  | _ => 0

namespace Schema

mutual

/-- How many steps into values the defaults of a schema make room for. -/
def room (callDepth : Nat) : Schema → Nat
  | .wrapper _ w inner => w.room callDepth + inner.room callDepth
  | .constraint _ _ _ _ inner | .overwrite _ _ inner => inner.room callDepth
  | .object _ _ _ _ _ entries => roomOfEntries callDepth entries
  | .array _ _ item | .set _ _ item => item.room callDepth
  | .tuple _ items rest =>
    roomOfAll callDepth items + match rest with
      | some r => r.room callDepth
      | none => 0
  | .map _ _ key value | .record _ key value => key.room callDepth + value.room callDepth
  | .union _ members | .intersection _ members => roomOfAll callDepth members
  | _ => 0
termination_by structural s => s

/-- How many steps the defaults of schemas make room for. -/
def roomOfAll (callDepth : Nat) : List Schema → Nat
  | [] => 0
  | s :: rest => s.room callDepth + roomOfAll callDepth rest
termination_by structural ss => ss

/-- How many steps the defaults behind declared keys make room for. -/
def roomOfEntries (callDepth : Nat) : List (Value × Schema) → Nat
  | [] => 0
  | (_, s) :: rest => s.room callDepth + roomOfEntries callDepth rest
termination_by structural es => es

end

end Schema

/-- All schemas that a run of a schema can reach. -/
def Context.schemas (ctx : Context) (s : Schema) : List Schema :=
  s :: ctx.definitions.schemas

/-- How many references may lie on one path of a run. -/
def Context.bound (ctx : Context) (s : Schema) (v : Value) : Nat :=
  let all := ctx.schemas s
  (v.depth + Schema.roomOfAll ctx.host.depth all + 1) * (Schema.lazyCountAll all + 1)

/-- Runs a schema on a dataset. -/
def Schema.run (s : Schema) : Validator := fun ctx d =>
  s.validatorUpTo (ctx.bound s d.value) ctx d

/-- The schema inside all wrappers of a schema, at most so many references deep. -/
def Context.unwrapUpTo (ctx : Context) : Nat → Schema → Effect Schema
  | 0, _ => throw .endless
  | n + 1, s =>
    match s.innermost with
    | .lazy _ id getter => do
      let inner ← ctx.force id getter
      ctx.unwrapUpTo n inner
    | s => return s

/-- The schema inside all wrappers of a schema. -/
def Context.unwrap (ctx : Context) (s : Schema) : Effect Schema :=
  ctx.unwrapUpTo (Schema.lazyCountAll (ctx.schemas s) + 2) s

end Conform
