/-
  Conform/Context.lean
  ====================
  **The context of a run**: the configuration, the registered translations and
  names, the defined schemas, and how callables behave.  In a context callables
  can be called, and findings become issues.

  The message of an issue is the default message, in the language of the call,
  unless the reporting schema has a message of its own or the configuration
  has one; a message that is callable is given the issue with its default
  message (`Context.report`).
-/
import Conform.Config
import Conform.Effect
import Conform.Message.Translation
import Conform.TypeName
import Conform.Value.Construct

namespace Conform

/-- How callables behave. -/
structure Host where
  /-- The result of a call, given the calls before it. -/
  call : Callable → List Argument → List Call → Except Fault Value
  /-- How deep the values are nested that callables make of nothing. -/
  depth : Nat

/-- What is defined by name, the latest first; it should be a schema. -/
abbrev Definitions := List (String × Given)

/-- The schemas among what is defined. -/
def Definitions.schemas (ds : Definitions) : List Schema :=
  ds.filterMap fun
    | (_, .schema s) => some s
    | (_, .value _) => none

/-- What a run depends on besides schema and value. -/
structure Context where
  config : Config
  translations : Translations
  typeNames : TypeNames
  definitions : Definitions
  host : Host

/-- An argument as a value; an issue is the tuple of its parts. -/
def Argument.toValue : Argument → Value
  | .value v => v
  | .issue i => i.toValue

/-- Calls a value.  A type makes a value; calls of other callables are kept. -/
def Context.invoke (ctx : Context) (callee : Value) (arguments : List Argument) : Effect Value :=
  match callee with
  | .scalar _ (.callable c) => do
    let w ← get
    set { w with calls := .callable c arguments :: w.calls }
    .ofExcept (ctx.host.call c arguments w.calls)
  | .scalar _ (.type t) => .ofExcept (t.construct (arguments.map Argument.toValue))
  | _ => throw .notCallable

/-- What a schema brings to the issues that it reports. -/
structure Label where
  type : String
  expects : String
  message : Value

/-- What a schema has found wrong, before it is put into words. -/
structure Finding where
  kind : String
  type : String
  input : Value
  expects : String
  received : String
  requirement : Value
  /-- The key of the default message. -/
  messageKey : String
  reasons : Option (List Issue)

/-- A value that does not have the expected shape. -/
def Label.finding (l : Label) (names : TypeNames) (v : Value) : Finding :=
  { kind := "schema", type := l.type, input := v, expects := l.expects,
    received := names.received v, requirement := .null, messageKey := l.type, reasons := none }

/-- The issue of a finding with a message. -/
def Finding.toIssue (f : Finding) (message : Value) : Issue :=
  { kind := f.kind, type := f.type, input := f.input, expects := some f.expects,
    received := some f.received, message, path := [], requirement := f.requirement,
    reasons := f.reasons }

/-- Puts a finding into words. -/
def Context.report (ctx : Context) (own : Value) (f : Finding) : Effect Issue := do
  let text ← Effect.ofExcept (Message.default ctx.translations ctx.config.language f.messageKey
    ⟨.str f.expects, .str f.received, f.requirement⟩)
  let issue := f.toIssue (.str text)
  let hasOwn ← Effect.ofExcept own.isTrue
  let custom := if hasOwn then own else ctx.config.message
  if custom.isNull then return issue
  else if custom.isCallable then
    let message ← ctx.invoke custom [.issue issue]
    return { issue with message }
  else return { issue with message := custom }

end Conform
