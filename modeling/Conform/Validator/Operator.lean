/-
  Conform/Validator/Operator.lean
  ===============================
  **Operators**: a union tries its members in order and takes the first that
  succeeds; an intersection runs all its members on the value and merges their
  outputs, mappings key by key, with the last member winning, while all other
  outputs have to agree.
-/
import Conform.Validator.Gathering

namespace Conform.Validator

/-- Tries members in order: the value of the first that succeeds, or the issues of all. -/
def firstSuccess (ctx : Context) (v : Value) : List Validator → List Issue →
    Effect (Value ⊕ List Issue)
  | [], issues => return .inr issues
  | m :: rest, issues => do
    let d ← m.apply ctx v
    if d.status == .success then return .inl d.value
    else firstSuccess ctx v rest (issues ++ d.issues)

/-- Takes the first member that succeeds. -/
def union (l : Label) (members : List Validator) : Validator := fun ctx d => do
  match ← within d (firstSuccess ctx d.value members []) with
  | .inl v => return d.succeed v
  | .inr issues =>
    reject ctx d l.message { l.finding ctx.typeNames d.value with reasons := some issues }

/-- Merges two outputs: mappings with the second winning, equal values into the first. -/
def merge? (a b : Value) : Except Fault (Option Value) :=
  match a.entries?, b.entries? with
  | some xs, some ys => .ok (some (.ofMapping (Value.Entries.insertAll xs ys)))
  | _, _ => do
    let agree ← a.strictEq b
    .ok (if agree then some a else none)

/-- Merges outputs one after another into the first. -/
def mergeAll? (first : Value) : List Value → Except Fault (Option Value)
  | [] => .ok (some first)
  | b :: rest => do
    match ← merge? first b with
    | some merged => mergeAll? merged rest
    | none => .ok none

/-- Runs a member and takes its issues as they are. -/
def memberStep (v : Value) (ctx : Context) (m : Validator) (g : Gathering (List Value)) :
    Run (Progress (List Value)) := do
  let part ← within g.dataset (m.apply ctx v)
  let d := g.dataset.addAll part.issues
  if !part.issues.isEmpty && ctx.config.abortEarly then return .stopped d
  else if part.isTyped then
    return .going { g with dataset := d, output := g.output ++ [part.value] }
  else return .going { g with dataset := d, typed := false }

/-- Runs all members and merges their outputs. -/
def intersection (l : Label) (members : List Validator) : Validator := fun ctx d => do
  match ← Gathering.steps (memberStep d.value ctx) members (.start d []) with
  | .stopped d => giveUp d
  | .going g =>
    let d := g.dataset
    match g.typed, g.output with
    | true, first :: rest =>
      match ← withinExcept d (mergeAll? first rest) with
      | none => mismatch l ctx d
      | some output =>
        if d.issues.isEmpty then return d.succeed output else return d.succeedPartly output
    | _, _ => giveUp d

end Conform.Validator
