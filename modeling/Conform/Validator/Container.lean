/-
  Conform/Validator/Container.lean
  ================================
  **Containers**: lists, tuples and sets of parts, and mappings with an open set
  of keys.  Limits on the size are looked at before the parts.

  A map is returned as it is unless some key or value has to be replaced; then
  a copy is changed (`Borrowed`).
-/
import Conform.Validator.Gathering

namespace Conform

/-! ### Copying on the first write -/

/-- A mapping that is borrowed until the first write. -/
structure Borrowed where
  value : Value
  /-- The mapping is a copy, which may be changed. -/
  owned : Bool

namespace Borrowed

/-- The entries of the mapping. -/
def entries (b : Borrowed) : Value.Entries :=
  b.value.entries?.getD []

/-- The mapping as a copy. -/
def own (b : Borrowed) : Borrowed :=
  if b.owned then b else ⟨.ofMapping b.entries, true⟩

/-- The mapping with other entries. -/
def withEntries (b : Borrowed) (entries : Value.Entries) : Borrowed :=
  { b with value := .ofMapping entries }

/-- A key may be written over: it is equal to the other and of the same type. -/
def keeps (key newKey : Value) : Except Fault Bool :=
  if newKey.typeOf == key.typeOf then newKey.eq key else .ok false

/-- Removes the entry under a key. -/
def remove (b : Borrowed) (key : Value) : Except Fault Borrowed :=
  if !key.isHashable then .error .unhashable
  else if b.entries.contains key then .ok (b.withEntries (b.entries.erase key))
  else .error .missingKey

/-- Writes a value under a key. -/
def write (b : Borrowed) (key v : Value) : Except Fault Borrowed :=
  if key.isHashable then .ok (b.withEntries (b.entries.insert key v)) else .error .unhashable

/-- Replaces an entry, possibly under another key; an equal key of the same type keeps its place.
What has been done before a fault stays done. -/
def replace (b : Borrowed) (key newKey newValue : Value) : Borrowed × Option Fault :=
  let b := b.own
  let removed : Except Fault Borrowed := match keeps key newKey with
    | .ok true => .ok b
    | .ok false => b.remove key
    | .error f => .error f
  match removed with
  | .error f => (b, some f)
  | .ok b =>
    match b.write newKey newValue with
    | .ok b => (b, none)
    | .error f => (b, some f)

@[simp] theorem owned_own (b : Borrowed) : b.own.owned = true := by
  unfold own
  split <;> simp_all

/-- A copy has the entries of what it is a copy of. -/
@[simp] theorem entries_own (b : Borrowed) : b.own.entries = b.entries := by
  unfold own
  split <;> rfl

end Borrowed

namespace Validator

/-! ### Sizes -/

/-- A size that is out of a limit. -/
def sizeFinding (l : Label) (v : Value) (type : String) (limit : Limit) (size : Nat) :
    Except Fault Finding := do
  let s ← limit.requirement.text
  .ok { kind := "validation", type, input := v, expects := type ++ "(" ++ s ++ ")",
        received := toString size, requirement := limit.requirement,
        messageKey := l.type ++ "_" ++ type, reasons := none }

/-- The finding on the size of a container, if it is out of a limit. -/
def sizeFinding? (l : Label) (limits : Limits) (v : Value) (size : Nat) :
    Except Fault (Option Finding) :=
  let tooMany : Except Fault (Option Finding) :=
    match limits.most with
    | some limit =>
      if limit.count < size then (sizeFinding l v "max_length" limit size).map some else .ok none
    | none => .ok none
  match limits.least with
  | some limit =>
    if size < limit.count then (sizeFinding l v "min_length" limit size).map some else tooMany
  | none => tooMany

/-- Goes on if the size is within the limits. -/
def ifSized (l : Label) (limits : Limits) (size : Nat) (ctx : Context) (d : Dataset)
    (next : Run Dataset) : Run Dataset := do
  match ← withinExcept d (sizeFinding? l limits d.value size) with
  | some f => reject ctx d l.message f
  | none => next

/-! ### Lists, tuples and sets -/

/-- A part of a container: its key, its value, and its validator. -/
structure Part where
  key : Value
  value : Value
  validator : Validator

/-- Validates a part and appends its value. -/
def partStep (ctx : Context) (p : Part) (g : Gathering (List Value)) :
    Run (Progress (List Value)) := do
  let part ← within g.dataset (p.validator.apply ctx p.value)
  return g.take ctx p.key part fun v output => output ++ [v]

/-- Validates the parts one after another. -/
def parts (ctx : Context) (d : Dataset) (list : List Part) : Run (Progress (List Value)) :=
  Gathering.steps (partStep ctx) list (.start d [])

/-- The items as parts, under their indices. -/
def indexed (item : Validator) (items : List Value) : List Part :=
  items.mapIdx fun i v => ⟨.int i, v, item⟩

/-- Validates a list. -/
def array (l : Label) (limits : Limits) (item : Validator) : Validator := fun ctx d =>
  match d.value with
  | .list _ _ items =>
    ifSized l limits items.length ctx d do
      let progress ← parts ctx d (indexed item items)
      progress.finish fun output => .ok (.ofList output)
  | _ => mismatch l ctx d

/-- Validates a set; the key of a part is the part itself. -/
def set (l : Label) (limits : Limits) (item : Validator) : Validator := fun ctx d =>
  match d.value with
  | .set _ frozen items =>
    ifSized l limits items.length ctx d do
      let progress ← parts ctx d (items.map fun v => ⟨v, v, item⟩)
      progress.finish fun output => (Value.toMembers output).map (.ofSet frozen)
  | _ => mismatch l ctx d

/-- The items of a list or a tuple. -/
def sequence? : Value → Option (List Value)
  | .list _ _ items | .tuple _ items => some items
  | _ => none

/-- The validators of the items of a tuple, by position; past them, that of the rest. -/
def positional : List Validator → Option Validator → Nat → List Value → List Part
  | _, _, _, [] => []
  | v :: vs, rest, i, x :: xs => ⟨.int i, x, v⟩ :: positional vs rest (i + 1) xs
  | [], some r, i, x :: xs => ⟨.int i, x, r⟩ :: positional [] (some r) (i + 1) xs
  | [], none, _, _ :: _ => []

/-- A tuple of the wrong length. -/
def lengthFinding (l : Label) (names : TypeNames) (v : Value) (expected size : Nat)
    (messageKey : String) : Finding :=
  { l.finding names v with
    received := toString size, requirement := .int expected, messageKey }

/-- Validates a list or a tuple of parts with a schema each; a schema for the rest allows more. -/
def tuple (l : Label) (items : List Validator) (rest : Option Validator) : Validator := fun ctx d =>
  match sequence? d.value with
  | none => mismatch l ctx d
  | some values =>
    let refuse (key : String) : Run Dataset :=
      reject ctx d l.message
        (lengthFinding l ctx.typeNames d.value items.length values.length key)
    if rest.isNone && values.length != items.length then refuse "tuple_length"
    else if rest.isSome && values.length < items.length then refuse "tuple_min_length"
    else do
      let progress ← parts ctx d (positional items rest 0 values)
      progress.finish fun output => .ok (.ofTuple output)

/-! ### Maps and records -/

/-- The schema of the keys or values of a mapping. -/
structure Slot where
  expects : String
  validator : Validator

/-- The issue of an invalid key or value, under the key. -/
def entryIssue (l : Label) (ctx : Context) (messageKey : String) (key input : Value) (slot : Slot)
    (reason : Value) : Effect Issue := do
  let i ← ctx.report l.message
    { l.finding ctx.typeNames input with
      expects := slot.expects, requirement := reason, messageKey }
  return i.under key

/-- The issue of an invalid key or value; or the accepted value, and whether it was replaced. -/
def entryCheck (l : Label) (ctx : Context) (messageKey : String) (key input : Value)
    (slot : Slot) : Effect (Issue ⊕ (Value × Bool)) := do
  let signal ← slot.validator.check ctx input
  match signal with
  | .failed reason => return .inl (← entryIssue l ctx messageKey key input slot reason)
  | .replaced w => return .inr (w, true)
  | .asIs => return .inr (input, false)

/-- Validates an entry of a map, and writes it if something was replaced. -/
def mapStep (l : Label) (key value : Slot) (ctx : Context) (entry : Value × Value)
    (g : Gathering Borrowed) : Run (Progress Borrowed) := do
  match ← within g.dataset (entryCheck l ctx "map_key" entry.1 entry.1 key) with
  | .inl i => return g.addIssue ctx i
  | .inr (newKey, keyReplaced) =>
    match ← within g.dataset (entryCheck l ctx "map_value" entry.1 entry.2 value) with
    | .inl i => return g.addIssue ctx i
    | .inr (newValue, valueReplaced) =>
      if keyReplaced || valueReplaced then
        match g.output.replace entry.1 newKey newValue with
        | (output, none) => return .going { g with output }
        | (_, some f) => throw ⟨f, g.dataset⟩
      else return .going g

/-- Validates a mapping as pairs of keys and values. -/
def map (l : Label) (limits : Limits) (key value : Slot) : Validator := fun ctx d =>
  match d.value.entries? with
  | none => mismatch l ctx d
  | some entries =>
    ifSized l limits entries.length ctx d do
      match ← Gathering.steps (mapStep l key value ctx) entries (.start d ⟨d.value, false⟩) with
      | .stopped d => giveUp d
      | .going g =>
        if g.dataset.issues.isEmpty then return g.dataset.succeed g.output.value
        else giveUp g.dataset

/-- Validates an entry of a record. -/
def recordStep (l : Label) (key : Slot) (value : Validator) (ctx : Context)
    (entry : Value × Value) (g : Gathering Value.Entries) : Run (Progress Value.Entries) := do
  match ← within g.dataset (entryCheck l ctx "map_key" entry.1 entry.1 key) with
  | .inl i => return g.addIssue ctx i
  | .inr (newKey, _) =>
    let part ← within g.dataset (value.apply ctx entry.2)
    let progress := g.take ctx entry.1 part fun v output => output.insert newKey v
    match progress with
    | .going h =>
      -- only a typed value is written under its key
      if part.isTyped && !newKey.isHashable then throw ⟨.unhashable, h.dataset⟩
      else return progress
    | .stopped _ => return progress

/-- Validates a mapping with one schema for all keys and one for all values. -/
def record (l : Label) (key : Slot) (value : Validator) : Validator := fun ctx d =>
  match d.value.entries? with
  | none => mismatch l ctx d
  | some entries => do
    let progress ← Gathering.steps (recordStep l key value ctx) entries (.start d [])
    progress.finish fun output => .ok (.ofMapping output)

end Validator

end Conform
