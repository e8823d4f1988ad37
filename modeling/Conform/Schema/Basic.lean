/-
  Conform/Schema/Basic.lean
  =========================
  **Schemas**: descriptions of expected values.  A schema is a tree; a
  reference (`Schema.lazy`) names a schema that is looked up when it is first
  needed, which is how a schema comes to contain itself.

  Every schema may have a message of its own, a text or a callable, for the
  issues that it reports itself; a null message stands for none.

  Objects and references are numbered.  A number says which one it is: what is
  prepared for an object, or found for a reference, is kept under its number.
-/
import Conform.Value.Order

namespace Conform

/-- A type that values are checked for. -/
inductive Primitive where
  | string
  | number
  | integer
  | boolean
  | bigInt
  | date
  | symbol
  | null
  | undefined
  | void
deriving DecidableEq, Repr

/-- A type that values are converted to. -/
inductive Target where
  | string
  | number
  | boolean
  | bigInt
  /-- Texts are read in one of the formats, or in the standard one. -/
  | date (formats : List String)
deriving DecidableEq, Repr

/-- In which direction a size is limited. -/
inductive SizeBound where
  | atLeast
  | atMost
  | exactly
deriving DecidableEq, Repr

/-- Where a part of a text is looked for. -/
inductive Place where
  | anywhere
  | atStart
  | atEnd
deriving DecidableEq, Repr

/-- What a constraint demands of a value that has the right shape. -/
inductive Check where
  | size (bound : SizeBound) (limit : Nat) (requirement : Value)
  | pattern (regex : Regex) (program : Pattern.Program)
  | substring (place : Place) (part : String) (requirement : Value)
  | lowercase
  | uppercase
  | email
  | uuid
  /-- An absolute address; if schemes are given, with one of them. -/
  | url (schemes : Option (List (List Char)))
  | order (relation : Relation) (limit : Value)
  | multipleOf (divisor : Value)
  | positive
  | negative
  | refine (predicate : Value)

/-- How keys that are not declared are treated. -/
inductive Extra where
  /-- They are dropped. -/
  | strip
  /-- They are kept as they are. -/
  | loose
  /-- Every one is an issue. -/
  | strict
deriving DecidableEq, Repr

/-- How declared keys that are missing are treated. -/
inductive Absent where
  /-- The schema of the key decides, given that there is no value. -/
  | validate
  /-- They are skipped. -/
  | skip
  /-- Every one is an issue. -/
  | reject
deriving DecidableEq, Repr

/-- The kinds of object schemas. -/
inductive ObjectKind where
  | plain
  | strict
  | loose
  /-- Its reports on keys that are not declared must not be looked at. -/
  | guarded
deriving DecidableEq, Repr

/-- How a wrapper changes what its schema accepts. -/
inductive Wrapping where
  | optional
  | nullable
  | nullish
  | readonly
  | default (value : Value)

/-- A limit on a size, as a number and as it was given. -/
structure Limit where
  count : Nat
  requirement : Value

/-- Limits on a size. -/
structure Limits where
  least : Option Limit
  most : Option Limit

/-- No limits. -/
def Limits.none : Limits := ⟨Option.none, Option.none⟩

/-- How the schema behind a reference is found. -/
inductive Getter where
  /-- It is the one defined under a name. -/
  | definition (name : String)
  /-- A callable is asked, which has no schema to give. -/
  | callable (callee : Value)

/-- A description of an expected value. -/
inductive Schema where
  | primitive (message : Value) (type : Primitive)
  /-- Accepts everything; what is unknown has still to be narrowed down. -/
  | anything (message : Value) (unknown : Bool)
  | never (message : Value)
  | coerce (message : Value) (target : Target)
  | literal (message : Value) (value : Value) (expects : String)
  /-- One of some values, which may be the keys of an object. -/
  | enum (message : Value) (keys : Bool) (values : List Value) (expects : String)
  | nativeEnum (message : Value) (enumeration : Enumeration)
  | constraint (message : Value) (check : Check) (name : String) (abort : Bool) (inner : Schema)
  | wrapper (message : Value) (wrapping : Wrapping) (inner : Schema)
  | overwrite (message : Value) (transform : Value) (inner : Schema)
  | lazy (message : Value) (id : Nat) (getter : Getter)
  | object (message : Value) (id : Nat) (kind : ObjectKind) (extra : Extra) (absent : Absent)
      (entries : List (Value × Schema))
  | array (message : Value) (limits : Limits) (item : Schema)
  | set (message : Value) (limits : Limits) (item : Schema)
  | tuple (message : Value) (items : List Schema) (rest : Option Schema)
  | map (message : Value) (limits : Limits) (key value : Schema)
  | record (message : Value) (key value : Schema)
  | union (message : Value) (members : List Schema)
  | intersection (message : Value) (members : List Schema)

instance : Inhabited Schema := ⟨.never .null⟩

/-- What is given where a schema is expected. -/
inductive Given where
  | schema (s : Schema)
  | value (v : Value)
deriving Inhabited

namespace Schema

/-- The message of a schema. -/
def message : Schema → Value
  | .primitive m _ | .anything m _ | .never m | .coerce m _ | .literal m _ _ | .enum m _ _ _
  | .nativeEnum m _ | .constraint m _ _ _ _ | .wrapper m _ _ | .overwrite m _ _ | .lazy m _ _
  | .object m _ _ _ _ _ | .array m _ _ | .set m _ _ | .tuple m _ _ | .map m _ _ _ | .record m _ _
  | .union m _ | .intersection m _ => m

/-- The schema wraps exactly one other. -/
def isWrapper : Schema → Bool
  | .constraint .. | .wrapper .. | .overwrite .. | .lazy .. => true
  | _ => false

/-- What is prepared for the wrapped schema may stand in its place. -/
def isTransparent : Schema → Bool
  | .constraint .. | .wrapper .. => true
  | _ => false

/-- The schema inside the wrappers of a schema, as far as there are no references between them. -/
def innermost : Schema → Schema
  | .constraint _ _ _ _ inner | .wrapper _ _ inner | .overwrite _ _ inner => inner.innermost
  | s => s

/-- The schema describes an object. -/
def isObject : Schema → Bool
  | .object .. => true
  | _ => false

end Schema

end Conform
