/-
  Conform/Value/Text.lean
  =======================
  **The texts of values.**  The quoted text (`Value.quoted`) shows what a value
  is, in the way it would be written; the plain text (`Value.text`) is what a
  reader is shown.  They differ for texts, moments, members of enumerations and
  the like at the top only: inside containers all is quoted.

  A text exists unless an integer has too many digits or an object refuses.
-/
import Conform.Value.Mapping
import Conform.Calendar.Iso
import Conform.Text.Quoted

namespace Conform

open Number

/-- A list of characters as a text. -/
abbrev asText (s : List Char) : String := String.ofList s

/-- A text between quotation marks. -/
def quoteText (s : String) : String := asText (Text.quote s.toList)

/-! ### Types -/

/-- The name of a type. -/
def ValueType.name : ValueType → String
  | .null => "NoneType"
  | .undefined => "Undefined"
  | .bool => "bool"
  | .int => "int"
  | .float => "float"
  | .complex => "complex"
  | .decimal => "Decimal"
  | .str => "str"
  | .bytes => "bytes"
  | .byteArray => "bytearray"
  | .tuple => "tuple"
  | .list => "list"
  | .set => "set"
  | .frozenSet => "frozenset"
  | .dict => "dict"
  | .orderedDict => "OrderedDict"
  | .mappingView => "mappingproxy"
  | .date => "date"
  | .time => "time"
  | .dateTime => "datetime"
  | .duration => "timedelta"
  | .sentinel => "Sentinel"
  | .regex => "Pattern"
  | .type => "type"
  | .enumType => "EnumType"
  | .base => "object"
  | .derivedInt => "MyInt"
  | .derivedFloat => "MyFloat"
  | .derivedStr => "MyStr"
  | .derivedList => "MyList"
  | .enumeration e => e.name
  | .object c => c.name
  | .callable name => name

/-- The place that a type is from, for types that have one. -/
def ValueType.home : ValueType → String
  | .decimal => "decimal."
  | .orderedDict => "collections."
  | .date | .time | .dateTime | .duration => "datetime."
  | .regex => "re."
  | .enumType => "enum."
  | _ => ""

/-- The text of a type. -/
def ValueType.text : ValueType → String
  | .enumeration e => "<enum '" ++ e.name ++ "'>"
  | t => "<class '" ++ t.home ++ t.name ++ "'>"

/-! ### Scalars -/

/-- Fields of a constructor, from the first that must be shown up to the last that is not zero. -/
def clockFields (c : Calendar.Clock) : List Nat :=
  [c.hour, c.minute] ++
    if c.microsecond ≠ 0 then [c.second, c.microsecond]
    else if c.second ≠ 0 then [c.second] else []

/-- Numbers separated by commas. -/
def commaNumbers (ns : List Nat) : String :=
  ", ".intercalate (ns.map toString)

/-- The quoted text of a length of time. -/
def durationQuoted (d : Calendar.Duration) : String :=
  let parts :=
    (if d.days ≠ 0 then ["days=" ++ toString d.days] else []) ++
    (if d.seconds ≠ 0 then ["seconds=" ++ toString d.seconds] else []) ++
    (if d.fraction ≠ 0 then ["microseconds=" ++ toString d.fraction] else [])
  "datetime.timedelta(" ++ (if parts.isEmpty then "0" else ", ".intercalate parts) ++ ")"

/-- The quoted text of an offset as the last field of a constructor. -/
def offsetQuoted : Option Calendar.Offset → String
  | none => ""
  | some o =>
    ", tzinfo=" ++ if o.microseconds = 0 then "datetime.timezone.utc"
      else "datetime.timezone(" ++ durationQuoted o ++ ")"

/-- The text of an integer, unless it has too many digits. -/
def integerText (n : Int) : Except Fault String :=
  match intText? n with
  | some s => .ok (asText s)
  | none => .error .digitLimit

/-- The text of a complex number: the imaginary part alone when the real part is a positive zero. -/
def complexText (re im : Binary64) : String :=
  let part (x : Binary64) : List Char := FloatLayout.bare.text x
  if re.isZero && !re.isNegative then asText (part im ++ ['j'])
  else
    let sign := if im.isNegative then [] else ['+']
    asText ('(' :: part re ++ sign ++ part im ++ ['j', ')'])

/-- The most characters of a quoted pattern that are shown. -/
def patternWidth : Nat := 200

/-- The quoted text of the pattern of a regular expression. -/
def Regex.quotedSource (r : Regex) : String :=
  match r.bytes with
  | some b => asText (Text.quoteBytes b)
  | none => quoteText r.source

/-- The quoted text of a regular expression. -/
def Regex.quoted (r : Regex) : String :=
  let flags :=
    (if r.flags.ignoreCase then ["re.IGNORECASE"] else []) ++
    (if r.flags.multiline then ["re.MULTILINE"] else []) ++
    (if r.flags.dotAll then ["re.DOTALL"] else []) ++
    (if r.flags.verbose then ["re.VERBOSE"] else []) ++
    (if r.flags.ascii then ["re.ASCII"] else [])
  "re.compile(" ++ asText (r.quotedSource.toList.take patternWidth) ++
    (if flags.isEmpty then "" else ", " ++ "|".intercalate flags) ++ ")"

/-- The quoted text behind a member of an enumeration. -/
def EnumValue.quoted : EnumValue → Except Fault String
  | .null => .ok "None"
  | .int n => integerText n
  | .float x => .ok (asText (floatText x))
  | .text s => .ok (quoteText s)

/-- The quoted text of a scalar. -/
def Scalar.quoted : Scalar → Except Fault String
  | .null => .ok "None"
  | .undefined => .ok "<Undefined>"
  | .bool b => .ok (if b then "True" else "False")
  | .int _ n => integerText n
  | .float _ x => .ok (asText (floatText x))
  | .complex re im => .ok (complexText re im)
  | .decimal d => .ok ("Decimal('" ++ asText d.text ++ "')")
  | .str _ s => .ok (quoteText s)
  | .bytes b => .ok (asText (Text.quoteBytes b))
  | .byteArray b => .ok ("bytearray(" ++ asText (Text.quoteBytes b) ++ ")")
  | .date d => .ok ("datetime.date(" ++ commaNumbers [d.year, d.month, d.day] ++ ")")
  | .time t =>
    .ok ("datetime.time(" ++ commaNumbers (clockFields t.clock) ++ offsetQuoted t.offset ++ ")")
  | .dateTime d =>
    .ok ("datetime.datetime(" ++
      commaNumbers ([d.date.year, d.date.month, d.date.day] ++ clockFields d.clock) ++
      offsetQuoted d.offset ++ ")")
  | .duration d => .ok (durationQuoted d)
  | .member m =>
    match m.value.quoted with
    | .ok s => .ok ("<" ++ m.enumeration.name ++ "." ++ m.name ++ ": " ++ s ++ ">")
    | .error f => .error f
  | .sentinel _ name => .ok ("Sentinel(" ++ name ++ ")")
  | .object _ => .ok "Plain()"
  | .regex r => .ok r.quoted
  | .callable c => .ok c.quoted
  | .type t => .ok t.text

/-- A response as a result. -/
def Response.result {α : Type} : Response α → Except Fault α
  | .gives a => .ok a
  | .refuses => .error .badValue
  | .fails => .error .callable
  | .unsupported => .error .arguments

/-- The plain text of a scalar. -/
def Scalar.text : Scalar → Except Fault String
  | .decimal d => .ok (asText d.text)
  | .str _ s => .ok s
  | .date d => .ok (asText d.text)
  | .time t => .ok (asText t.text)
  | .dateTime d => .ok (asText (d.text ' '))
  | .duration d => .ok (asText d.text)
  | .member m =>
    if m.enumeration.numeric then m.value.quoted
    else .ok (m.enumeration.name ++ "." ++ m.name)
  | .object c => c.text.result
  | .callable c => .ok c.text
  | s => s.quoted

/-! ### All values -/

namespace Value

/-- Texts separated by commas. -/
def commas (parts : List String) : String := ", ".intercalate parts

/-- A tuple of these texts; a lone item is followed by a comma. -/
def tupleText (parts : List String) : String :=
  match parts with
  | [part] => "(" ++ part ++ ",)"
  | parts => "(" ++ commas parts ++ ")"

/-- A mapping of these texts. -/
def mappingText (parts : List (String × String)) : String :=
  "\x7b" ++ commas (parts.map fun p => p.1 ++ ": " ++ p.2) ++ "\x7d"

/-- A set of these texts. -/
def setText (frozen : Bool) (parts : List String) : String :=
  let body := if parts.isEmpty then "" else "\x7b" ++ commas parts ++ "\x7d"
  if frozen then "frozenset(" ++ body ++ ")"
  else if parts.isEmpty then "set()" else body

mutual

/-- The quoted text of a value. -/
def quoted : Value → Except Fault String
  | .scalar _ s => s.quoted
  | .list _ _ items => do
    let parts ← quotedItems items
    .ok ("[" ++ commas parts ++ "]")
  | .tuple _ items => do
    let parts ← quotedItems items
    .ok (tupleText parts)
  | .set _ frozen items => do
    let parts ← quotedItems items
    .ok (setText frozen parts)
  | .mapping _ kind entries => do
    let parts ← quotedEntries entries
    .ok (match kind with
      | .plain => mappingText parts
      | .view => "mappingproxy(" ++ mappingText parts ++ ")"
      | .ordered =>
        if parts.isEmpty then "OrderedDict()"
        else "OrderedDict([" ++ commas (parts.map fun p => "(" ++ p.1 ++ ", " ++ p.2 ++ ")") ++ "])")
termination_by structural v => v

/-- The quoted texts of items. -/
def quotedItems : List Value → Except Fault (List String)
  | [] => .ok []
  | x :: xs => do
    let s ← x.quoted
    let rest ← quotedItems xs
    .ok (s :: rest)
termination_by structural xs => xs

/-- The quoted texts of entries. -/
def quotedEntries : List (Value × Value) → Except Fault (List (String × String))
  | [] => .ok []
  | (k, v) :: rest => do
    let s ← k.quoted
    let t ← v.quoted
    let more ← quotedEntries rest
    .ok ((s, t) :: more)
termination_by structural xs => xs

end

/-- The plain text of a value. -/
def text : Value → Except Fault String
  | .scalar _ s => s.text
  | .mapping _ .view entries => do
    let parts ← quotedEntries entries
    .ok (mappingText parts)
  | v => v.quoted

/-- The text of a literal: a member of an enumeration by its name, all else quoted. -/
def literalText : Value → Except Fault String
  | .scalar _ (.member m) => .ok (m.enumeration.name ++ "." ++ m.name)
  | v => v.quoted

/-- The display name of a value that is called: a name that it carries, the name that it was
defined under, or its text. -/
def callableText : Value → Except Fault String
  | .scalar _ (.callable c) =>
    match c.displayName, c.functionName with
    | some name, _ => .ok name
    | none, some name => .ok (name ++ "()")
    | none, none => .ok c.text
  | .scalar _ (.type t) => .ok (t.name ++ "()")
  | .scalar _ (.member m) => .ok m.name
  | .scalar _ (.sentinel _ name) => .ok name
  | v => v.text

/-! ### Truth -/

/-- Whether a value counts as true: numbers that are not zero, containers that are not empty,
objects as they answer, and nearly all else. -/
def isTrue : Value → Except Fault Bool
  | .scalar _ s =>
    match s with
    | .null | .undefined => .ok false
    | .bool b => .ok b
    | .int _ n => .ok (n != 0)
    | .float _ x => .ok (!x.isZero)
    | .complex re im => .ok (!(re.isZero && im.isZero))
    | .decimal d => .ok (!d.isZero)
    | .str _ s => .ok (!s.isEmpty)
    | .bytes b | .byteArray b => .ok (!b.isEmpty)
    | .duration d => .ok (d.microseconds != 0)
    | .member m => .ok (if m.enumeration.numeric then m.value != .int 0 else true)
    | .object c => c.truth.result
    | _ => .ok true
  | .list _ _ items | .tuple _ items | .set _ _ items => .ok (!items.isEmpty)
  | .mapping _ _ entries => .ok (!entries.isEmpty)

/-! ### Items -/

/-- The items that a value is run through: those of a container, the keys of a mapping, the
characters of a text, the bytes of a string of bytes, the members of an enumeration. -/
def items? : Value → Except Fault (List Value)
  | .list _ _ items | .tuple _ items | .set _ _ items => .ok items
  | .mapping _ _ entries => .ok (entries.map (·.1))
  | .scalar _ (.str _ s) =>
    .ok (s.toList.map fun c =>
      .scalar (if c.toNat < 256 then .shared else .fresh) (.str .base (String.singleton c)))
  | .scalar _ (.bytes b) | .scalar _ (.byteArray b) => .ok (b.map fun x => .int x.toNat)
  | .scalar _ (.type (.enumeration e)) =>
    .ok (e.memberList.map fun m => .scalar .shared (.member m))
  | _ => .error .notIterable

end Value

end Conform
