/-
  Conform/Schema/Build.lean
  =========================
  **Building schemas.**  A schema is checked when it is built, so that running
  it meets no malformed parts.  The checks come in a fixed order: a constraint
  looks at its own parameter before the schema that it wraps, a wrapper at its
  message and its schema first, a container at its limits before its parts.
-/
import Conform.Schema.Text
import Conform.Pattern.Parser
import Conform.Text.Case

namespace Conform

/-- The quoted text of what is given. -/
def Given.quoted : Given → Except Fault String
  | .schema s => s.quoted
  | .value v => v.quoted

/-- The schema that is given in a role. -/
def Given.toSchema (role : String) : Given → Except Fault Schema
  | .schema s => .ok s
  | .value v => .error (.malformed (.notSchema role v.typeOf.name))

/-- Refuses a value, which the malformation quotes. -/
def refuse {α : Type} (cause : String → Malformed) (v : Value) : Except Fault α := do
  let s ← v.quoted
  .error (.malformed (cause s))

/-- The source of a regular expression; bytes are seen as characters. -/
def Regex.toSource (r : Regex) : Pattern.Source :=
  match r.bytes with
  | none => ⟨r.source.toList.toArray, false⟩
  | some b => ⟨(b.map fun x => Char.ofNat x.toNat).toArray, true⟩

/-- The program of a regular expression. -/
def Regex.compile (r : Regex) : Except Pattern.Refusal Pattern.Program :=
  Pattern.compile r.toSource r.flags

/-- The regular expression of a pattern under flags, and those that the pattern sets itself. -/
def Regex.ofPattern (pattern : String) (flags : Pattern.Flags) : Except Fault Regex :=
  let r : Regex := ⟨pattern, none, flags⟩
  match r.compile with
  | .ok program => .ok { r with flags := program.flags }
  | .error .countTooLarge => .error .outOfRange
  | .error .conflictingFlags => .error .conflictingFlags
  | .error (.malformed ..) => .error .badPattern

namespace Schema

/-- A message is nothing, a text or a callable. -/
def checkMessage (message : Value) : Except Fault Unit :=
  if message.isNull || message.toStr?.isSome || message.isCallable then .ok ()
  else .error .messageType

/-- The parts that all wrappers check: the message and the wrapped schema. -/
def checkWrapped (message : Value) (inner : Given) : Except Fault Schema := do
  checkMessage message
  inner.toSchema "Wrapped schema"

/-! ### Leaves -/

def buildPrimitive (message : Value) (type : Primitive) : Except Fault Schema := do
  checkMessage message
  .ok (.primitive message type)

def buildAnything (message : Value) (unknown : Bool) : Except Fault Schema := do
  checkMessage message
  .ok (.anything message unknown)

def buildNever (message : Value) : Except Fault Schema := do
  checkMessage message
  .ok (.never message)

def buildCoerce (message : Value) (target : Target) : Except Fault Schema := do
  checkMessage message
  .ok (.coerce message target)

def buildLiteral (message value : Value) : Except Fault Schema := do
  checkMessage message
  let expects ← value.literalText
  .ok (.literal message value expects)

/-- One of some values, or of the keys of an object. -/
def buildEnum (message : Value) (keys : Bool) (values : List Value) : Except Fault Schema := do
  checkMessage message
  if values.isEmpty then .error (.malformed .noValues)
  else
    let texts ← values.mapM Value.literalText
    .ok (.enum message keys values (Value.commas texts))

def buildNativeEnum (message enumeration : Value) : Except Fault Schema := do
  checkMessage message
  match enumeration with
  | .scalar _ (.type (.enumeration e)) => .ok (.nativeEnum message e)
  | v => refuse .notEnumeration v

/-! ### Constraints -/

/-- A constraint whose parameter has been checked. -/
def buildConstraint (message : Value) (check : Check) (abort : Bool) (inner : Given) :
    Except Fault Schema := do
  let s ← checkWrapped message inner
  let name ← check.name
  .ok (.constraint message check name abort s)

/-- A limit on a size: a number that is not negative. -/
def sizeCheck (bound : SizeBound) (limit : Value) : Except Fault Check :=
  match limit.toInt? with
  | some (.ofNat n) => .ok (.size bound n limit)
  | _ => refuse (.notLength (Check.size bound 0 limit).className) limit

/-- A part of a text. -/
def substringCheck (place : Place) (part : Value) : Except Fault Check :=
  match part.toStr? with
  | some s => .ok (.substring place s part)
  | none => refuse (.notText (Check.substring place "" part).className) part

/-- The words for a value that cannot be a key, naming the type that is in the way. -/
def unhashableText (name : String) : String :=
  "unhashable type: '" ++ name ++ "'"

mutual

/-- Why a value cannot be a key. -/
def unhashableReason? : Value → Option String
  | .scalar _ (.byteArray _) => some (unhashableText "bytearray")
  | .scalar _ (.decimal d) => if d.isSignaling then some "Cannot hash a signaling NaN value" else none
  | .scalar .. => none
  | .list _ .base _ => some (unhashableText "list")
  | .list _ .derived _ => some (unhashableText "MyList")
  | .tuple _ items => unhashableAmong? items
  | .set _ frozen _ => if frozen then none else some (unhashableText "set")
  | .mapping _ .plain _ => some (unhashableText "dict")
  | .mapping _ .ordered _ => some (unhashableText "collections.OrderedDict")
  | .mapping _ .view _ => some (unhashableText "mappingproxy")
termination_by structural v => v

/-- Why the first of some values that cannot be a key cannot. -/
def unhashableAmong? : List Value → Option String
  | [] => none
  | x :: rest =>
    match unhashableReason? x with
    | some reason => some reason
    | none => unhashableAmong? rest
termination_by structural xs => xs

end

/-- A regular expression that is a value, as its pattern and its flags. -/
def patternOf? : Value → Option Regex
  | .scalar _ (.str _ s) => some ⟨s, none, .none⟩
  | .scalar _ (.bytes b) => some ⟨"", some b, .none⟩
  | .scalar _ (.regex r) => some r
  | _ => none

/-- A pattern, as a text or compiled already. -/
def patternCheck (v : Value) : Except Fault Check :=
  match patternOf? v with
  | some regex =>
    match regex.compile with
    | .ok program => .ok (.pattern { regex with flags := program.flags } program)
    | .error .countTooLarge => .error .outOfRange
    | .error .conflictingFlags => .error .conflictingFlags
    | .error reason => refuse (.pattern · (reason.message regex.toSource)) v
  | none =>
    let reason := (unhashableReason? v).getD "first argument must be string or compiled pattern"
    refuse (.pattern · reason) v

/-- A pattern compiled under flags.  Flags do not go with a pattern that is compiled already. -/
def underFlags (pattern : Value) (flags : Pattern.Flags) : Except Fault Regex :=
  match pattern with
  | .scalar _ (.str _ s) => Regex.ofPattern s flags
  | .scalar _ (.regex r) => if flags == .none then .ok r else .error .badValue
  | v => .error (if v.isHashable then .arguments else .unhashable)

/-- A bound, which may be anything but nothing. -/
def orderCheck (relation : Relation) (limit : Value) : Except Fault Check :=
  if limit.isNull then .error (.malformed (.noBound (Check.order relation limit).className))
  else .ok (.order relation limit)

/-- A value that numbers can be multiples of: finite and not zero. -/
def isDivisor (v : Value) : Bool :=
  match v.toInt?, v.toFloat? with
  | some n, _ => n != 0
  | none, some x => x.toRat?.isSome && !x.isZero
  | none, none => false

def multipleOfCheck (divisor : Value) : Except Fault Check :=
  if isDivisor divisor then .ok (.multipleOf divisor) else refuse .notDivisor divisor

def refineCheck (predicate : Value) : Except Fault Check :=
  if predicate.isCallable then .ok (.refine predicate)
  else refuse (.notCallable "Refine" "predicate") predicate

/-- The schemes of addresses, in lower case; strings of bytes name no scheme. -/
def schemes : List Value → Except Fault (List (List Char))
  | [] => .ok []
  | v :: rest =>
    match v with
    | .scalar _ (.str _ s) => (schemes rest).map (Text.toLower s.toList :: ·)
    | .scalar _ (.bytes _) | .scalar _ (.byteArray _) => schemes rest
    | _ => .error .missingAttribute

/-- An address, with one of the given schemes. -/
def buildUrl (message protocols : Value) (abort : Bool) (inner : Given) : Except Fault Schema := do
  let s ← buildConstraint message (.url none) abort inner
  match s, protocols with
  | .constraint m _ name abort inner, protocols => do
    if protocols.isNull then .ok s
    else
      let listed ← match protocols.toStr? with
        | some _ => .ok [protocols]
        | none => protocols.items?
      let allowed ← schemes listed
      .ok (.constraint m (.url (some allowed)) name abort inner)
  | s, _ => .ok s

/-! ### Wrappers -/

def buildWrapper (message : Value) (wrapping : Wrapping) (inner : Given) : Except Fault Schema := do
  let s ← checkWrapped message inner
  .ok (.wrapper message wrapping s)

def buildOverwrite (message transform : Value) (inner : Given) : Except Fault Schema := do
  let s ← checkWrapped message inner
  if transform.isCallable then .ok (.overwrite message transform s)
  else refuse (.notCallable "Overwrite" "transform") transform

def buildLazy (message : Value) (id : Nat) (getter : Getter) : Except Fault Schema := do
  checkMessage message
  match getter with
  | .definition _ => .ok (.lazy message id getter)
  | .callable v =>
    if v.isCallable then .ok (.lazy message id getter)
    else refuse (.notCallable "Lazy" "getter") v

/-! ### Objects -/

/-- The behavior that a value names. -/
def extra? (v : Value) : Option Extra :=
  [Extra.strip, .loose, .strict].find? fun e => v.toStr? == some e.text

/-- The behavior that a value names. -/
def absent? (v : Value) : Option Absent :=
  [Absent.validate, .skip, .reject].find? fun a => v.toStr? == some a.text

/-- The declared keys with their schemas. -/
def checkEntries : List (Value × Given) → Except Fault (List (Value × Schema))
  | [] => .ok []
  | (key, given) :: rest => do
    let name ← key.quoted
    let s ← given.toSchema ("Schema for key " ++ name)
    let more ← checkEntries rest
    .ok ((key, s) :: more)

/-- What is given as the declared keys of an object. -/
inductive GivenEntries where
  | entries (entries : List (Value × Given))
  | value (v : Value)
deriving Inhabited

/-- Writes a schema under a key; a key that is there already keeps its place. -/
def putGiven : List (Value × Given) → Value → Given → List (Value × Given)
  | [], key, given => [(key, given)]
  | (k, g) :: rest, key, given =>
    if k.keyEq key then (k, given) :: rest else (k, g) :: putGiven rest key given

/-- The declared keys, written one after another. -/
def GivenEntries.ofList (entries : List (Value × Given)) : Except Fault GivenEntries :=
  if Value.allHashable (entries.map (·.1)) then
    .ok (.entries (entries.foldl (fun acc e => putGiven acc e.1 e.2) []))
  else .error .unhashable

/-- The declared keys, if a mapping is given. -/
def GivenEntries.toEntries : GivenEntries → Except Fault (List (Value × Given))
  | .entries es => .ok es
  | .value v =>
    match v.entries? with
    | some es => .ok (es.map fun (k, v) => (k, .value v))
    | none => .error (.malformed (.notMapping v.typeOf.name))

/-- An object; a null behavior for keys that are not declared leaves it to the kind. -/
def buildObject (message : Value) (id : Nat) (kind : ObjectKind) (extra absent : Value)
    (given : GivenEntries) : Except Fault Schema := do
  checkMessage message
  let entries ← given.toEntries
  let extra ←
    if extra.isNull then .ok kind.extra
    else match extra? extra with
      | some e => .ok e
      | none => refuse .extraBehavior extra
  let absent ← match absent? absent with
    | some a => .ok a
    | none => refuse .absentBehavior absent
  let entries ← checkEntries entries
  .ok (.object message id kind extra absent entries)

/-! ### Containers -/

/-- A limit on a size, or none. -/
def limit (role : String) (v : Value) : Except Fault (Option Limit) :=
  if v.isNull then .ok none
  else match v.toInt? with
    | some (.ofNat n) => .ok (some ⟨n, v⟩)
    | _ => refuse (.notSize role) v

/-- Limits on a size. -/
def limits (least most : Value) : Except Fault Limits := do
  let least ← limit "Minimal size" least
  let most ← limit "Maximal size" most
  .ok ⟨least, most⟩

def buildArray (message least most : Value) (item : Given) : Except Fault Schema := do
  checkMessage message
  let bounds ← limits least most
  let s ← item.toSchema "Array item schema"
  .ok (.array message bounds s)

def buildSet (message least most : Value) (item : Given) : Except Fault Schema := do
  checkMessage message
  let bounds ← limits least most
  let s ← item.toSchema "Set item schema"
  .ok (.set message bounds s)

def buildTuple (message : Value) (items : List Given) (rest : Option Given) :
    Except Fault Schema := do
  checkMessage message
  let schemas ← items.mapM (Given.toSchema "Tuple item schema")
  let rest ← match rest with
    | none => .ok none
    | some given => (given.toSchema "Tuple rest schema").map some
  .ok (.tuple message schemas rest)

def buildMap (message least most : Value) (key value : Given) : Except Fault Schema := do
  checkMessage message
  let bounds ← limits least most
  let k ← key.toSchema "Key schema"
  let v ← value.toSchema "Value schema"
  .ok (.map message bounds k v)

/-- A record; without a schema for the keys, all keys are accepted. -/
def buildRecord (message : Value) (key : Option Given) (value : Given) : Except Fault Schema := do
  checkMessage message
  let k ← (key.getD (.schema (.anything .null false))).toSchema "Key schema"
  let v ← value.toSchema "Value schema"
  .ok (.record message k v)

/-! ### Operators -/

/-- The members of a union inside a union, if it has no message of its own; else the schema alone. -/
def unionMembers : Given → List Given
  | .schema (.union m members) =>
    if m.isNull then members.map .schema else [.schema (.union m members)]
  | given => [given]

/-- The members of an intersection inside an intersection, likewise. -/
def intersectionMembers : Given → List Given
  | .schema (.intersection m members) =>
    if m.isNull then members.map .schema else [.schema (.intersection m members)]
  | given => [given]

def buildUnion (message : Value) (members : List Given) : Except Fault Schema := do
  checkMessage message
  if members.length < 2 then .error (.malformed (.tooFewMembers "Union" members.length))
  else
    let schemas ← (members.flatMap unionMembers).mapM (Given.toSchema "Union member")
    .ok (.union message schemas)

def buildIntersection (message : Value) (members : List Given) : Except Fault Schema := do
  checkMessage message
  if members.length < 2 then .error (.malformed (.tooFewMembers "Intersection" members.length))
  else
    let schemas ←
      (members.flatMap intersectionMembers).mapM (Given.toSchema "Intersection member")
    .ok (.intersection message schemas)

end Schema

end Conform
