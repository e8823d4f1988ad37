/-
  Conform/Session.lean
  ====================
  **Sessions**: the state that a sequence of operations shares.  A session has
  named schemas, named engines, registered translations and type names, and the
  state of its engines.  Engines come into being when they are first named.
-/
import Conform.Engine
import Conform.Stock.Callable
import Conform.Schema.Derive

namespace Conform

/-- What a sequence of operations shares. -/
structure Session where
  definitions : Definitions
  translations : Translations
  typeNames : TypeNames
  engines : List (String × Engine)
  state : State
  /-- The next number of a schema. -/
  nextSchema : Nat
  /-- The next number of a compiler. -/
  nextCompiler : Nat
  /-- Names under which compiled schemas have been noted, with their serial numbers. -/
  noted : List (String × Nat)

namespace Session

/-- A session in which nothing has happened. -/
def empty : Session := ⟨[], [], [], [], .empty, 0, 0, []⟩

/-- The context of a call. -/
def context (s : Session) (config : Config) : Context :=
  ⟨config, s.translations, s.typeNames, s.definitions, Stock.host⟩

/-- Takes the next number of a schema. -/
def takeNumber (s : Session) : Nat × Session :=
  (s.nextSchema, { s with nextSchema := s.nextSchema + 1 })

/-- Defines a schema under a name. -/
def define (s : Session) (name : String) (given : Given) : Session :=
  { s with definitions := (name, given) :: s.definitions }

/-- What is defined under a name. -/
def defined (s : Session) (name : String) : Except Fault Given :=
  match s.definitions.lookup name with
  | some given => .ok given
  | none => .error (.undefinedSchema name)

/-! ### Engines -/

/-- The name of the engine that is used when none is named. -/
def fastName : String := "fast"

/-- The name of the engine without a fast path. -/
def slowName : String := "slow"

/-- The name of the engine behind plain calls. -/
def defaultName : String := "default"

/-- Makes an engine under a name, with a compiler of its own. -/
def makeEngine (s : Session) (name : String) (fastPath : Bool) : Engine × Session :=
  let e : Engine := ⟨fastPath, s.nextCompiler⟩
  (e, { s with engines := (name, e) :: s.engines, nextCompiler := s.nextCompiler + 1 })

/-- The engine with a name. -/
def engine (s : Session) (name : String) : Engine × Session :=
  match s.engines.lookup name with
  | some e => (e, s)
  | none => s.makeEngine name (name != slowName)

/-- Makes an engine under a name that shares the compiler of another. -/
def makeSharing (s : Session) (name : String) (fastPath : Bool) (other : String) :
    Engine × Session :=
  let (o, s) := s.engine other
  let e : Engine := ⟨fastPath, o.compiler⟩
  (e, { s with engines := (name, e) :: s.engines })

/-- How many schemas the compiler of an engine keeps. -/
def cached (s : Session) (e : Engine) : Nat :=
  (s.state.cache e.compiler).length

/-- The compiler of an engine keeps nothing any more. -/
def clear (s : Session) (e : Engine) : Session :=
  { s with state := s.state.withCache e.compiler [] }

/-! ### Running -/

/-- Has an effect. -/
def perform {α : Type} (s : Session) (e : Effect α) : Except Fault α × Session :=
  let (r, st) := s.state.perform e
  (r, { s with state := st })

/-- Validates a value: the final dataset. -/
def run (s : Session) (e : Engine) (config : Config) (schema : Schema) (v : Value) :
    Except Fault Dataset × Session :=
  let (r, st) := e.run (s.context config) schema v s.state
  (r, { s with state := st })

/-- Validates a value: the result. -/
def parse (s : Session) (e : Engine) (config : Config) (schema : Schema) (v : Value) :
    Except Fault Result × Session :=
  let (r, st) := e.parse (s.context config) schema v s.state
  (r, { s with state := st })

/-- Validates values one by one. -/
def parseBulk (s : Session) (e : Engine) (config : Config) (schema : Schema) (vs : List Value) :
    Except Fault (List Result) × Session :=
  let (r, st) := e.parseBulk (s.context config) schema vs s.state
  (r, { s with state := st })

/-- Runs a schema on a dataset that may have been changed already; what has become of it is known
even when there is a fault. -/
def runOn (s : Session) (config : Config) (schema : Schema) (d : Dataset) :
    Except Halt Dataset × Session :=
  let (r, w) := schema.run (s.context config) d s.state.world
  (r, { s with state := { s.state with world := w } })

/-- The plain answer of a schema to a value. -/
def check (s : Session) (config : Config) (schema : Schema) (v : Value) :
    Except Fault Validator.Signal × Session :=
  s.perform (Validator.check schema.run (s.context config) v)

/-- The schema inside all wrappers. -/
def unwrap (s : Session) (schema : Schema) : Except Fault Schema × Session :=
  s.perform ((s.context .default).unwrap schema)

/-! ### Compiling -/

/-- How a compiled schema is asked for. -/
inductive Request where
  /-- As it is kept. -/
  | kept
  /-- Made anew. -/
  | anew
  /-- Not compiled. -/
  | uncompiled
deriving DecidableEq, Repr

/-- A compiled schema from the compiler of an engine. -/
def compile (s : Session) (e : Engine) (request : Request) (schema : Schema) :
    Compiled × Session :=
  let (c, st) := s.state.compileWith e.compiler (match request with
    | .kept => Compilation.fetch schema
    | .anew => Compilation.compile schema
    | .uncompiled => Compilation.fallback schema)
  (c, { s with state := st })

/-- Runs a compiled schema on a value. -/
def runCompiled (s : Session) (config : Config) (c : Compiled) (v : Value) :
    Except Fault Dataset × Session :=
  s.perform (Validator.apply c.run (s.context config) v)

/-- Notes a compiled schema under a name. -/
def note (s : Session) (name : String) (c : Compiled) : Session :=
  { s with noted := (name, c.serial) :: s.noted.filter fun n => n.1 != name }

/-- The names under which a compiled schema has been noted, in order. -/
def notes (s : Session) (c : Compiled) : List String :=
  ((s.noted.filter fun n => n.2 == c.serial).map (·.1)).mergeSort fun a b => a ≤ b

end Session

end Conform
