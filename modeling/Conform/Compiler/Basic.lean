/-
  Conform/Compiler/Basic.lean
  ===========================
  **The compiler** makes plans of object schemas and keeps them, by the number
  of the schema.  Objects nested in an object are compiled with it and kept as
  well, as far as they lie directly under its keys or behind transparent
  wrappers.

  Compiling never fails: an object that cannot be compiled is run as it is, and
  so is every schema that is not an object, which is never kept.
-/
import Conform.Compiler.Plan

namespace Conform

/-- What the compiler makes of a schema. -/
structure Compiled where
  /-- Which one it is. -/
  serial : Nat
  schema : Schema
  plan : Plan
  /-- The schema is run as it is. -/
  isFallback : Bool

/-- The quoted text of a compiled schema. -/
def Compiled.quoted (c : Compiled) : Except Fault String := do
  let s ← c.schema.quoted
  .ok ("CompiledValidator(" ++ s ++ (if c.isFallback then ", fallback" else "") ++ ")")

/-- Runs a compiled schema on a dataset. -/
def Compiled.run (c : Compiled) : Validator := fun ctx d =>
  c.plan.validatorUpTo (ctx.bound c.schema d.value) ctx d

/-- Compiled object schemas, by number. -/
abbrev Cache := List (Nat × Compiled)

/-- The state of a compiler at work: what it keeps, and the next serial number. -/
structure Workshop where
  cache : Cache
  next : Nat

/-- A computation of the compiler. -/
abbrev Compilation := StateM Workshop

namespace Compilation

/-- Takes the next serial number. -/
def serial : Compilation Nat := do
  let w ← get
  set { w with next := w.next + 1 }
  return w.next

/-- A schema that is run as it is. -/
def fallback (s : Schema) : Compilation Compiled := do
  return ⟨← serial, s, .interpret s, true⟩

/-- Keeps a compiled schema, unless one is kept already; the one that is kept. -/
def keep (id : Nat) (c : Compiled) : Compilation Compiled := do
  let w ← get
  match w.cache.lookup id with
  | some kept => return kept
  | none =>
    set { w with cache := w.cache ++ [(id, c)] }
    return c

/-- Puts an object together from the plans of its declared keys.  An object that is guarded cannot
be compiled. -/
def assemble (s : Schema) (entries : List (Value × String × Plan)) : Compilation Compiled :=
  match s with
  | .object _ _ .guarded _ _ _ => fallback s
  | .object _ _ _ extra absent _ =>
    return ⟨← serial, s, .object s.label extra absent entries, false⟩
  | s => fallback s

mutual

/-- The plan of a schema that is an object, or an object behind transparent wrappers. -/
def nested? : Schema → Compilation (Option Plan)
  | .object m id kind extra absent entries => do
    match (← get).cache.lookup id with
    | some c => return some c.plan
    | none =>
      let plans ← entryPlans entries
      let c ← assemble (.object m id kind extra absent entries) plans
      let c ← keep id c
      return some c.plan
  | .constraint m check name abort inner => do
    return (← nested? inner).map (.constraint m check name abort)
  | .wrapper _ w inner => do
    return (← nested? inner).map (.wrapper w)
  | _ => return none
termination_by structural s => s

/-- The plans of declared keys. -/
def entryPlans : List (Value × Schema) → Compilation (List (Value × String × Plan))
  | [] => return []
  | (key, s) :: rest => do
    let plan ← nested? s
    let more ← entryPlans rest
    return (key, s.expects, plan.getD (.interpret s)) :: more
termination_by structural es => es

end

/-- Compiles a schema without keeping it; what is nested in it is kept. -/
def compile (s : Schema) : Compilation Compiled :=
  match s with
  | .object _ _ _ _ _ entries => do
    let plans ← entryPlans entries
    assemble s plans
  | s => fallback s

/-- The compiled schema that is kept, compiled now if there is none. -/
def fetch (s : Schema) : Compilation Compiled :=
  match s with
  | .object _ id _ _ _ _ => do
    match (← get).cache.lookup id with
    | some c => return c
    | none =>
      let c ← compile s
      keep id c
  | s => fallback s

end Compilation

end Conform
