/-
  Conform/Schema/Derive.lean
  ==========================
  **Deriving object schemas** from an object schema: all keys optional, all
  keys required, some of the keys, or the keys themselves.  The derived schema
  has the kind, the message and the behavior of its source, and a number of its
  own.
-/
import Conform.Schema.Build

namespace Conform.Schema

/-- An object schema, taken apart. -/
structure ObjectSchema where
  message : Value
  kind : ObjectKind
  extra : Extra
  absent : Absent
  entries : List (Value × Schema)

/-- The object schema that is given in a role. -/
def objectIn (role : String) (given : Given) : Except Fault ObjectSchema :=
  match given with
  | .schema (.object message _ kind extra absent entries) =>
    .ok ⟨message, kind, extra, absent, entries⟩
  | given => do
    let s ← given.quoted
    .error (.malformed (.notObject role s))

/-- The schema with a number. -/
def ObjectSchema.toSchema (o : ObjectSchema) (id : Nat) : Schema :=
  .object o.message id o.kind o.extra o.absent o.entries

/-- Every key is optional: a missing key is skipped. -/
def partialOf (id : Nat) (given : Given) : Except Fault Schema := do
  let o ← objectIn "Partial" given
  .ok ({ o with absent := .skip }.toSchema id)

/-- Every key is required: a missing key is an issue, whatever its schema accepts. -/
def requiredOf (id : Nat) (given : Given) : Except Fault Schema := do
  let o ← objectIn "Required" given
  .ok ({ o with absent := .reject }.toSchema id)

/-- The keys, all of which have to be declared. -/
def declaredKeys (role : String) (o : ObjectSchema) (keys : List Value) :
    Except Fault (List Value) := do
  let keys ← Value.toMembers keys
  let unknown := keys.filter fun k => !(o.entries.any fun e => e.1.keyEq k)
  if unknown.isEmpty then .ok keys
  else
    let texts ← Value.quotedItems unknown
    .error (.malformed (.unknownKeys role (texts.mergeSort fun a b => a ≤ b)))

/-- The given keys alone. -/
def pickFrom (id : Nat) (given : Given) (keys : List Value) : Except Fault Schema := do
  let o ← objectIn "Pick" given
  let keys ← declaredKeys "Pick" o keys
  .ok ({ o with entries := o.entries.filter fun e => keys.any (·.keyEq e.1) }.toSchema id)

/-- All but the given keys. -/
def omitFrom (id : Nat) (given : Given) (keys : List Value) : Except Fault Schema := do
  let o ← objectIn "Omit" given
  let keys ← declaredKeys "Omit" o keys
  .ok ({ o with entries := o.entries.filter fun e => !keys.any (·.keyEq e.1) }.toSchema id)

/-- One of the keys. -/
def keysOf (message : Value) (given : Given) : Except Fault Schema := do
  let o ← objectIn "KeyOf" given
  buildEnum message true (o.entries.map (·.1))

end Conform.Schema
