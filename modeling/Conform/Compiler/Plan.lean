/-
  Conform/Compiler/Plan.lean
  ==========================
  **Plans**: object schemas prepared for running.  A plan settles in advance how
  every declared key is dealt with when it is there and when it is missing;
  objects behind transparent wrappers are prepared with it.  All that cannot be
  prepared is left to the schema itself.

  A plan does to every dataset exactly what its schema does.
-/
import Conform.Run

namespace Conform

/-- A schema prepared for running. -/
inductive Plan where
  /-- The schema itself is run. -/
  | interpret (s : Schema)
  | constraint (message : Value) (check : Check) (name : String) (abort : Bool) (inner : Plan)
  | wrapper (wrapping : Wrapping) (inner : Plan)
  /-- An object; for every declared key, what its schema expects and its plan. -/
  | object (label : Label) (extra : Extra) (absent : Absent)
      (entries : List (Value × String × Plan))

instance : Inhabited Plan := ⟨.interpret default⟩

namespace Validator

/-- What has become of a declared key. -/
inductive Fate where
  | skipped
  | missing (i : Issue)
  | validated (part : Dataset)

/-- Deals with a declared key of a mapping. -/
abbrev Handler := Value.Entries → Context → Effect Fate

/-- The handler of a declared key: the policy for missing keys is looked at once, here. -/
def handler (l : Label) (absent : Absent) (e : Entry) : Handler :=
  match absent with
  | .skip => fun input ctx =>
    match input.get? e.key with
    | some v => return .validated (← e.validator.apply ctx v)
    | none => return .skipped
  | .reject => fun input ctx =>
    match input.get? e.key with
    | some v => return .validated (← e.validator.apply ctx v)
    | none => return .missing (← missingIssue l ctx e.key e.expects)
  | .validate => fun input ctx => do
    let v := (input.get? e.key).getD .undefined
    return .validated (← e.validator.apply ctx v)

/-- Takes in what has become of a declared key. -/
def handlerStep (input : Value.Entries) (ctx : Context) (h : Value × Handler)
    (g : Gathering Value.Entries) : Run (Progress Value.Entries) := do
  match ← within g.dataset (h.2 input ctx) with
  | .skipped => return .going g
  | .missing i => return g.addIssue ctx i
  | .validated part => return g.take ctx h.1 part (putEntry h.1)

/-- Goes through the keys that are not declared. -/
def extras (l : Label) (extra : Extra) (declared : List Value) (input : Value.Entries)
    (ctx : Context) (g : Gathering Value.Entries) : Run (Progress Value.Entries) :=
  if extra == .strip then return .going g
  else
    let others := input.filter fun e => !(declared.any (·.keyEq e.1))
    Gathering.steps (extraStep l .plain extra ctx) others g

/-- Runs a prepared object. -/
def prepared (l : Label) (extra : Extra) (absent : Absent) (entries : List Entry) : Validator :=
  let handlers := entries.map fun e => (e.key, handler l absent e)
  let declared := entries.map (·.key)
  fun ctx d =>
    match d.value.entries? with
    | none => mismatch l ctx d
    | some input => do
      let progress ← Gathering.steps (handlerStep input ctx) handlers (.start d [])
      let progress ← match progress with
        | .going g => extras l extra declared input ctx g
        | .stopped d => pure (.stopped d)
      progress.finish fun output => .ok (.ofMapping output)

end Validator

namespace Plan

mutual

/-- The validator of a plan, given those of the schemas behind references. -/
def validator (resolve : Schema → Validator) : Plan → Validator
  | .interpret s => s.validator resolve
  | .constraint m check name abort inner =>
    .constraint m check name abort (inner.validator resolve)
  | .wrapper w inner => .wrapper w (inner.validator resolve)
  | .object l extra absent entries =>
    .prepared l extra absent (entryValidators resolve entries)
termination_by structural p => p

/-- The validators of declared keys. -/
def entryValidators (resolve : Schema → Validator) :
    List (Value × String × Plan) → List Validator.Entry
  | [] => []
  | (key, expects, p) :: rest =>
    ⟨key, expects, p.validator resolve⟩ :: entryValidators resolve rest
termination_by structural es => es

end

/-- The validator of a plan when at most so many references lie on one path. -/
def validatorUpTo : Nat → Plan → Validator
  | 0, p => p.validator fun _ => .endless
  | n + 1, p => p.validator (Schema.validatorUpTo n)

end Plan

end Conform
