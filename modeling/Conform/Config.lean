/-
  Conform/Config.lean
  ===================
  **The configuration of a call**: the language of the default messages,
  whether to stop at the first issue, and a message for all issues of schemas
  that have none of their own.
-/
import Conform.Value.Text

namespace Conform

/-- The configuration of a call. -/
structure Config where
  language : Value
  /-- Stop at the first issue. -/
  abortEarly : Bool
  message : Value
deriving Repr, Inhabited

namespace Config

/-- The configuration of a call that gives none. -/
def default : Config := ⟨.str "en", false, .null⟩

/-- The configuration with one of its fields set. -/
def set (c : Config) (field : String × Value) : Except Fault Config :=
  match field.1 with
  | "lang" => .ok { c with language := field.2 }
  | "abort_early" => do
    let b ← field.2.isTrue
    .ok { c with abortEarly := b }
  | "message" => .ok { c with message := field.2 }
  | _ => .error .arguments

/-- The names of the fields. -/
def fieldNames : List String := ["lang", "abort_early", "message"]

/-- The configuration with some fields set. -/
def ofFields (fields : List (String × Value)) : Except Fault Config :=
  if fields.all fun f => fieldNames.contains f.1 then fields.foldlM set default
  else .error .arguments

/-- The quoted text of a configuration. -/
def quoted (c : Config) : Except Fault String := do
  let language ← c.language.quoted
  let message ← c.message.quoted
  .ok ("Config(lang=" ++ language ++ ", abort_early=" ++ (if c.abortEarly then "True" else "False") ++
    ", message=" ++ message ++ ")")

end Config

end Conform
