/-
  Conform/Stock/Callable.lean
  ===========================
  **The stock of callables**: predicates for refinements, transforms, makers of
  defaults, and messages made from an issue.  Each has a key by which it is
  found, and a rule that says what it returns.

  Whether a transform returns the very object that it was given matters; those
  that leave a value as it is return that object.
-/
import Conform.Context
import Conform.Text.Case

namespace Conform.Stock

open Number

/-- What a callable does with its arguments, given the calls before. -/
abbrev Rule := List Argument → List Call → Except Fault Value

/-- A rule for one value. -/
def onValue (f : Value → Except Fault Value) : Rule
  | [a], _ => f a.toValue
  | _, _ => .error .arguments

/-- A rule for one text. -/
def onText (f : Value → String → Value) : Rule :=
  onValue fun v =>
    match v.toStr? with
    | some s => .ok (f v s)
    | none => .error .arguments

/-- A rule for one issue. -/
def onIssue (f : Issue → Except Fault String) : Rule
  | [.issue i], _ => (f i).map .str
  | [.value _], _ => .error .missingAttribute
  | _, _ => .error .arguments

/-- A rule that returns the same for all arguments. -/
def always (v : Value) : Rule
  | _, _ => .ok v

/-! ### Predicates -/

/-- Divisible by two. -/
def isEven (v : Value) : Except Fault Value :=
  match v.toInt?, v with
  | some n, _ => .ok (.bool (n % 2 = 0))
  | none, .scalar _ (.bool b) => .ok (.bool !b)
  | none, .scalar _ (.float _ x) =>
    .ok (.bool (match x.toInt? with
      | some n => n % 2 = 0
      | none => false))
  | none, .scalar _ (.decimal d) =>
    match d.even? with
    | some b => .ok (.bool b)
    | none => .error .decimal
  | none, _ => .error .arguments

/-- The first part of a value. -/
def firstOf (v : Value) : Except Fault Value :=
  match v with
  | .mapping _ _ entries =>
    match Value.Entries.get? entries (.int 0) with
    | some w => .ok w
    | none => .error .missingKey
  | .set .. => .error .arguments
  | .scalar _ (.type (.enumeration _)) => .error .missingKey
  | v =>
    match v.items? with
    | .ok (x :: _) => .ok x
    | .ok [] => .error .missingIndex
    | .error _ => .error .arguments

/-- The first part is a text in upper case. -/
def firstIsUpper (v : Value) : Except Fault Value := do
  match ← firstOf v with
  | .scalar _ (.str _ s) => .ok (.bool (Text.isUpper s.toList))
  | .scalar _ (.bytes b) | .scalar _ (.byteArray b) =>
    .ok (.bool (Text.isUpper ((Value.byteChars b).filter fun c => c.toNat < 128)))
  | _ => .error .missingAttribute

/-- The number of parts. -/
def sizeOf (v : Value) : Except Fault Nat :=
  match v.size? with
  | some n => .ok n
  | none => .error .arguments

/-- A value is among some others. -/
def among (v : Value) : List Value → Except Fault Bool
  | [] => .ok false
  | x :: rest => do
    if ← v.matches? x then .ok true else among v rest

/-- The number one is a part. -/
def hasOne (v : Value) : Except Fault Value :=
  match v with
  | .scalar _ (.str ..) | .scalar _ (.type _) => .error .arguments
  | v =>
    match v.items? with
    | .ok items => (among (.int 1) items).map .bool
    | .error _ => .error .arguments

/-! ### Transforms -/

/-- The parts in reverse order. -/
def reverse (v : Value) : Except Fault Value :=
  match v with
  | .list _ _ items => .ok (.ofList items.reverse)
  | .tuple _ items => .ok (.ofTuple items.reverse)
  | .scalar _ (.str _ s) => .ok (.str (asText s.toList.reverse))
  | .scalar _ (.bytes b) =>
    .ok (.scalar (if b.isEmpty then .shared else .fresh) (.bytes b.reverse))
  | .scalar _ (.byteArray b) => .ok (.scalar .fresh (.byteArray b.reverse))
  | _ => .error .arguments

/-- Twice the number, or the parts twice over. -/
def double (v : Value) : Except Fault Value :=
  match v.toInt?, v with
  | some n, _ => .ok (.int (2 * n))
  | none, .list _ _ items => .ok (.ofList (items ++ items))
  | none, .tuple _ items => .ok (.ofTuple (items ++ items))
  | none, .scalar _ s =>
    match s with
    | .bool b => .ok (.int (if b then 2 else 0))
    | .float _ x => .ok (.float (x.scale 2))
    | .complex re im => .ok (.scalar .fresh (.complex (re.scale 2) (im.scale 2)))
    | .decimal d =>
      match d.double? with
      | some d => .ok (.scalar .fresh (.decimal d))
      | none => .error .decimal
    | .str _ s => .ok (.str (s ++ s))
    | .bytes b => .ok (.scalar (if b.isEmpty then .shared else .fresh) (.bytes (b ++ b)))
    | .byteArray b => .ok (.scalar .fresh (.byteArray (b ++ b)))
    | .duration d =>
      match Calendar.Duration.ofMicroseconds? (2 * d.microseconds) with
      | some d => .ok (.scalar .fresh (.duration d))
      | none => .error .outOfRange
    | _ => .error .arguments
  | none, _ => .error .arguments

/-- One of two letters for the other; all else stays. -/
def swapLetters (v : Value) : Except Fault Value :=
  if !v.isHashable then .error .unhashable
  else match v.toStr? with
    | some "a" => .ok (.scalar .shared (.str .base "b"))
    | some "b" => .ok (.scalar .shared (.str .base "a"))
    | _ => .ok v

/-- A text without the white space around it; a text of the base type that has none stays. -/
def strip (v : Value) (s : String) : Value :=
  let t := asText (Text.trim s.toList)
  if t == s && v.typeOf == .str then v else .str t

/-- The magnitude of a number. -/
def magnitude (v : Value) : Except Fault Value :=
  match v.toInt?, v with
  | some n, _ => .ok (.int n.natAbs)
  | none, .scalar _ s =>
    match s with
    | .bool b => .ok (.int (if b then 1 else 0))
    | .float _ x => .ok (.float x.abs)
    | .decimal d =>
      match d.abs? with
      | some d => .ok (.scalar .fresh (.decimal d))
      | none => .error .decimal
    | .duration d => .ok (.scalar .fresh (.duration ⟨d.microseconds.natAbs⟩))
    | _ => .error .arguments
  | none, _ => .error .arguments

/-! ### Counting and messages -/

/-- The key of the callable that counts its calls. -/
def counterKey : String := "counter"

/-- How often a callable has been called. -/
def timesCalled (key : String) (history : List Call) : Nat :=
  history.countP fun
    | .callable c _ => c.key == key
    | .getter _ => false

/-- A text that an issue may lack. -/
def stated (s : Option String) : Except Fault String :=
  match s with
  | some s => .ok s
  | none => .error .arguments

/-- All that an issue says. -/
def summary (i : Issue) : Except Fault String := do
  let expects ← stated i.expects
  let received ← stated i.received
  match i.message.toStr? with
  | some message => .ok ("/".intercalate [i.kind, i.type, expects, received, message])
  | none => .error .arguments

/-! ### The stock -/

/-- A function under its own name. -/
def function (key : String) : Callable :=
  { key, displayName := none, functionName := some key, text := "<function " ++ key ++ ">",
    quoted := "<function " ++ key ++ ">", typeName := "function" }

/-- A function of another type under its own name. -/
def builtIn (key typeName : String) : Callable :=
  { function key with
    text := "<" ++ typeName ++ " " ++ key ++ ">",
    quoted := "<" ++ typeName ++ " " ++ key ++ ">", typeName }

/-- The callables with their rules. -/
def rules : List (Callable × Rule) :=
  [ (function "is_even", onValue isEven),
    ({ function "truthy" with functionName := some "<lambda>" }, onValue fun v => v.isTrue.map .bool),
    (builtIn "isdigit" "method_descriptor",
      onText fun _ s => .bool (!s.isEmpty && s.toList.all Text.isDigit)),
    (function "first_upper", onValue firstIsUpper),
    (function "nonempty", onValue fun v => (sizeOf v).map fun n => .bool (0 < n)),
    (function "zero", onValue fun _ => .ok (.int 0)),
    (function "one", onValue fun _ => .ok (.ofList [.int 0])),
    (function "has_one", onValue hasOne),
    (function "boom", fun _ _ => .error .callable),
    ({ key := "named", displayName := some "custom check", functionName := none, text := "Plain()",
       quoted := "Plain()", typeName := "Named" }, onValue fun _ => .ok (.bool false)),
    ({ key := "strcall", displayName := none, functionName := none, text := "StrCall!",
       quoted := "Plain()", typeName := "StrCall" }, onValue fun _ => .ok (.bool false)),
    (function "none", always .null),
    (function "undef", always .undefined),
    (function "reverse", onValue reverse),
    (function "wrap", onValue fun v => .ok (.ofList [v])),
    (function "double", onValue double),
    (function "first", onValue firstOf),
    (function "swap_ab", onValue swapLetters),
    (builtIn "strip" "method_descriptor", onText strip),
    (builtIn "upper" "method_descriptor", onText fun _ s => .str (asText (Text.toUpper s.toList))),
    (builtIn "abs" "builtin_function_or_method", onValue magnitude),
    (builtIn "len" "builtin_function_or_method", onValue fun v => (sizeOf v).map fun n => .int n),
    (function "seven", fun
      | [], _ => .ok (.int 7)
      | _, _ => .error .arguments),
    (function counterKey, fun _ history => .ok (.int (timesCalled counterKey history))),
    (function "log", onValue fun _ => .ok (.bool true)),
    (function "log_fail", onValue fun _ => .ok (.bool false)),
    (function "m_received", onIssue fun i => (stated i.received).map ("Got " ++ ·)),
    (function "m_expects", onIssue fun i => (stated i.expects).map ("Bad " ++ ·)),
    (function "m_path", onIssue fun i => (Value.ofTuple i.path).quoted.map ("at " ++ ·)),
    (function "m_input", onIssue fun i => i.input.quoted.map ("input " ++ ·)),
    (function "m_all", onIssue summary) ]

/-- The callable with a key. -/
def find? (key : String) : Option Callable :=
  (rules.find? fun r => r.1.key == key).map (·.1)

/-- The behavior of the stock. -/
def host : Host where
  call c arguments history :=
    match rules.find? fun r => r.1.key == c.key with
    | some (_, rule) => rule arguments history
    | none => .error .notCallable
  depth := 1

/-! ### What the calls tell -/

/-- How often references asked for their schemas, by name, and how often the counter was asked, in
order of the first call. -/
def callCounts (history : List Call) : List (String × Nat) :=
  let names := history.reverse.filterMap fun
    | .getter name => some name
    | .callable c _ => if c.key == counterKey then some counterKey else none
  names.eraseDups.map fun name => (name, names.count name)

/-- The values that were logged, in order. -/
def logged (history : List Call) : List Value :=
  history.reverse.filterMap fun
    | .callable c [a] => if c.key == "log" || c.key == "log_fail" then some a.toValue else none
    | _ => none

end Conform.Stock
