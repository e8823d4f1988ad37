/-
  Conform/Validator/Object.lean
  =============================
  **Objects**: mappings with declared keys.  The output lists the declared keys
  first, in order of declaration, and then, if they are kept, the others.
-/
import Conform.Validator.Gathering

namespace Conform.Validator

/-- A declared key: what its schema expects, and its validator. -/
structure Entry where
  key : Value
  expects : String
  validator : Validator

/-- Writes a value under a key, unless there is none. -/
def putEntry (key v : Value) (output : Value.Entries) : Value.Entries :=
  if v.isUndefined then output else output ++ [(key, v)]

/-- The issue of a declared key that is missing. -/
def missingIssue (l : Label) (ctx : Context) (key : Value) (expects : String) : Effect Issue := do
  let i ← ctx.report l.message
    { l.finding ctx.typeNames .undefined with
      type := "required", expects, requirement := key, messageKey := "required" }
  return i.under key

/-- The issue of a key that is not declared, with the value under it. -/
def extraIssue (l : Label) (kind : ObjectKind) (ctx : Context) (key v : Value) : Effect Issue := do
  if kind == .guarded then throw .guarded
  let i ← ctx.report l.message
    { l.finding ctx.typeNames v with
      type := "strict_object", expects := "never", requirement := key,
      messageKey := "strict_object" }
  return i.under key

/-- Validates a declared key. -/
def entryStep (l : Label) (absent : Absent) (input : Value.Entries) (ctx : Context) (e : Entry)
    (g : Gathering Value.Entries) : Run (Progress Value.Entries) :=
  let validate (v : Value) : Run (Progress Value.Entries) := do
    let part ← within g.dataset (e.validator.apply ctx v)
    return g.take ctx e.key part (putEntry e.key)
  match input.get? e.key with
  | some v => validate v
  | none =>
    match absent with
    | .validate => validate .undefined
    | .skip => return .going g
    | .reject => do
      let i ← within g.dataset (missingIssue l ctx e.key e.expects)
      return g.addIssue ctx i

/-- Deals with a key that is not declared. -/
def extraStep (l : Label) (kind : ObjectKind) (extra : Extra) (ctx : Context)
    (entry : Value × Value) (g : Gathering Value.Entries) : Run (Progress Value.Entries) :=
  match extra with
  | .strip => return .going g
  | .loose => return .going { g with output := g.output ++ [entry] }
  | .strict => do
    let i ← within g.dataset (extraIssue l kind ctx entry.1 entry.2)
    return g.addIssue ctx i

/-- The entries whose keys are not declared. -/
def undeclared (entries : List Entry) (input : Value.Entries) : Value.Entries :=
  input.filter fun e => !(entries.any fun d => d.key.keyEq e.1)

/-- Validates a mapping with declared keys. -/
def object (l : Label) (kind : ObjectKind) (extra : Extra) (absent : Absent)
    (entries : List Entry) : Validator := fun ctx d =>
  match d.value.entries? with
  | none => mismatch l ctx d
  | some input => do
    let progress ← Gathering.steps (entryStep l absent input ctx) entries (.start d [])
    let progress ← match progress with
      | .going g =>
        Gathering.steps (extraStep l kind extra ctx) (undeclared entries input) g
      | .stopped d => pure (.stopped d)
    progress.finish fun output => .ok (.ofMapping output)

end Conform.Validator
