/-
  Conform/Engine.lean
  ===================
  **Engines** validate values.  An engine with a fast path runs what its
  compiler makes of a schema; one without runs the schema itself.  Several
  engines may share a compiler.

  All that lasts from one call to the next is the `State`: what the compilers
  keep, and what has been called and found.
-/
import Conform.Compiler.Basic
import Conform.Result

namespace Conform

/-- An engine. -/
structure Engine where
  fastPath : Bool
  /-- The number of its compiler. -/
  compiler : Nat
deriving DecidableEq, Repr

/-- The quoted text of an engine. -/
def Engine.quoted (e : Engine) : String :=
  "Engine(fast_path=" ++ (if e.fastPath then "True" else "False") ++ ")"

/-- What lasts from one call to the next. -/
structure State where
  world : World
  /-- What every compiler keeps, by its number. -/
  caches : List (Nat × Cache)
  /-- The next serial number of a compiled schema. -/
  nextSerial : Nat

namespace State

/-- Nothing has happened. -/
def empty : State := ⟨.empty, [], 0⟩

/-- What a compiler keeps. -/
def cache (st : State) (compiler : Nat) : Cache :=
  (st.caches.lookup compiler).getD []

/-- A compiler keeps something else. -/
def withCache (st : State) (compiler : Nat) (cache : Cache) : State :=
  { st with caches := (compiler, cache) :: st.caches.filter fun c => c.1 != compiler }

/-- Lets a compiler work. -/
def compileWith {α : Type} (st : State) (compiler : Nat) (c : Compilation α) : α × State :=
  let (a, w) := c ⟨st.cache compiler, st.nextSerial⟩
  (a, { st.withCache compiler w.cache with nextSerial := w.next })

/-- Has an effect. -/
def perform {α : Type} (st : State) (e : Effect α) : Except Fault α × State :=
  let (r, w) := e st.world
  (r, { st with world := w })

end State

namespace Engine

/-- Validates a value: the final dataset. -/
def run (e : Engine) (ctx : Context) (s : Schema) (v : Value) (st : State) :
    Except Fault Dataset × State :=
  if e.fastPath then
    let (c, st) := st.compileWith e.compiler (Compilation.fetch s)
    st.perform (Validator.apply c.run ctx v)
  else st.perform (Validator.apply s.run ctx v)

/-- Validates a value: the result. -/
def parse (e : Engine) (ctx : Context) (s : Schema) (v : Value) (st : State) :
    Except Fault Result × State :=
  let (r, st) := e.run ctx s v st
  (r.bind Result.ofDataset, st)

/-- Validates values one by one; the issues of one do not affect the others. -/
def parseBulk (e : Engine) (ctx : Context) (s : Schema) : List Value → State →
    Except Fault (List Result) × State
  | [], st => (.ok [], st)
  | v :: rest, st =>
    match e.parse ctx s v st with
    | (.error f, st) => (.error f, st)
    | (.ok r, st) =>
      let (more, st) := parseBulk e ctx s rest st
      (more.map (r :: ·), st)

/-- Validates a value: the validated value, or else the report of its issues. -/
def validate (e : Engine) (ctx : Context) (s : Schema) (v : Value) (st : State) :
    Except Fault (Except Report Value) × State :=
  let (r, st) := e.parse ctx s v st
  (r.map Result.unwrap, st)

end Engine

/-! ### Operations -/

/-- What a caller can ask of engines and of their compilers. -/
inductive Operation where
  /-- A schema compiled and kept. -/
  | fetch (compiler : Nat) (s : Schema)
  /-- A schema compiled anew. -/
  | compile (compiler : Nat) (s : Schema)
  /-- A compiler keeps nothing any more. -/
  | clear (compiler : Nat)
  | parse (e : Engine) (ctx : Context) (s : Schema) (v : Value)
  | parseBulk (e : Engine) (ctx : Context) (s : Schema) (vs : List Value)
  | validate (e : Engine) (ctx : Context) (s : Schema) (v : Value)

/-- What a caller is given. -/
inductive Answer where
  | compiled (c : Compiled)
  | cleared
  | result (r : Except Fault Result)
  | results (r : Except Fault (List Result))
  | data (r : Except Fault (Except Report Value))

namespace Operation

/-- The schema that an operation is about, if any. -/
def schema? : Operation → Option Schema
  | .fetch _ s | .compile _ s | .parse _ _ s _ | .parseBulk _ _ s _ | .validate _ _ s _ => some s
  | .clear _ => none

/-- Carries an operation out. -/
def perform (op : Operation) (st : State) : Answer × State :=
  match op with
  | .fetch compiler s =>
    let (c, st) := st.compileWith compiler (Compilation.fetch s)
    (.compiled c, st)
  | .compile compiler s =>
    let (c, st) := st.compileWith compiler (Compilation.compile s)
    (.compiled c, st)
  | .clear compiler => (.cleared, st.withCache compiler [])
  | .parse e ctx s v =>
    let (r, st) := e.parse ctx s v st
    (.result r, st)
  | .parseBulk e ctx s vs =>
    let (r, st) := e.parseBulk ctx s vs st
    (.results r, st)
  | .validate e ctx s v =>
    let (r, st) := e.validate ctx s v st
    (.data r, st)

/-- Carries operations out one after another. -/
def performAll : List Operation → State → List Answer × State
  | [], st => ([], st)
  | op :: rest, st =>
    let (a, st) := op.perform st
    let (more, st) := performAll rest st
    (a :: more, st)

/-- The operation on an engine without a fast path. -/
def slow : Operation → Operation
  | .parse e ctx s v => .parse { e with fastPath := false } ctx s v
  | .parseBulk e ctx s vs => .parseBulk { e with fastPath := false } ctx s vs
  | .validate e ctx s v => .validate { e with fastPath := false } ctx s v
  | op => op

end Operation

end Conform
