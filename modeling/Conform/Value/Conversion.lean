/-
  Conform/Value/Conversion.lean
  =============================
  **Converting values** to integers, doubles, texts and moments.  A conversion
  that does not apply is a fault; which kinds of faults mean no more than that
  is said by `Fault.isConversion`.
-/
import Conform.Value.Text
import Conform.Calendar.Format

namespace Conform.Value

open Number Calendar

/-- The text that a string of bytes encodes. -/
def decodeText (data : List UInt8) : Except Fault String :=
  match String.fromUTF8? ⟨data.toArray⟩ with
  | some s => .ok s
  | none => .error .badValue

/-- Bytes seen as characters. -/
def byteChars (data : List UInt8) : List Char :=
  data.map fun b => Char.ofNat b.toNat

/-- A double that a text stands for. -/
def readFloat (s : List Char) : Except Fault Binary64 :=
  match parseFloat? s with
  | some x => .ok x
  | none => .error .badValue

/-- An integer that a text stands for. -/
def readInt (s : List Char) : Except Fault Int :=
  match parseInt? s with
  | some n => .ok n
  | none => .error .badValue

/-- The double nearest to an integer, which may be out of range. -/
def floatOfInt (n : Int) : Except Fault Binary64 :=
  match Binary64.ofInt? n with
  | some x => .ok x
  | none => .error .outOfRange

/-- A value as a double: a number rounded, a text read, an object asked. -/
def toFloat (v : Value) : Except Fault Binary64 :=
  match v.toInt? with
  | some n => floatOfInt n
  | none =>
    match v with
    | .scalar _ s => match s with
      | .bool b => .ok (.ofRat (if b then 1 else 0))
      | .float _ x => .ok x
      | .decimal d => if d.isSignaling then .error .badValue else .ok d.toBinary64
      | .str _ s => readFloat s.toList
      | .bytes b | .byteArray b => readFloat (byteChars b)
      | .object c => c.number.result
      | _ => .error .arguments
    | _ => .error .arguments

/-- A double as an integer: only when it has no fractional part. -/
def wholeFloat (x : Binary64) : Except Fault Int :=
  match x.toInt? with
  | some n => .ok n
  | none => .error .badValue

/-! ### Moments -/

/-- The sum of a length in microseconds and a fraction of one, rounded half to even. -/
def addFraction (whole : Int) (fraction : Rat) : Int :=
  roundRat (whole + fraction)

/-- A number of milliseconds in microseconds.  The whole milliseconds count exactly; the product of
the fraction with a thousand is rounded to a double first. -/
def microsecondsOfFloat (x : Binary64) : Option Int := do
  let q ← x.toRat?
  let whole ← x.truncate?
  let rest := q - whole
  if rest = 0 then some (whole * 1000)
  else
    let product := Binary64.ofRat (rest * 1000)
    let part ← product.truncate?
    let exact ← product.toRat?
    some (addFraction (whole * 1000 + part) (exact - part))

/-- The moment a number of microseconds after the epoch. -/
def momentAfterEpoch (microseconds : Int) : Except Fault DateTime :=
  match (Duration.ofMicroseconds? microseconds).bind epoch.after? with
  | some d => .ok d
  | none => .error .outOfRange

/-- The moment of a timestamp in milliseconds. -/
def momentOfFloat (x : Binary64) : Except Fault DateTime :=
  if x.isNaN then .error .badValue
  else match microsecondsOfFloat x with
    | some n => momentAfterEpoch n
    | none => .error .outOfRange

/-- The first reading of a text in one of the formats.  A format that is no pattern is a fault. -/
def readFormats (s : List Char) : List String → Except Fault (Option DateTime)
  | [] => .ok none
  | format :: rest =>
    match parseFormat s format.toList with
    | .ok (some d) => .ok (some d)
    | .ok none | .error .conflictingFlags => readFormats s rest
    | .error (.malformed ..) => .error .badPattern
    | .error .countTooLarge => .error .outOfRange

/-- A text that ends in the letter for universal time, with the offset written out. -/
def withOffset (s : List Char) : List Char :=
  match s.getLast? with
  | some c => if c == 'Z' || c == 'z' then s.dropLast ++ "+00:00".toList else s
  | none => s

/-- The moment that a text stands for, in one of the formats or in the standard one. -/
def readMoment (formats : List String) (s : String) : Except Fault DateTime := do
  let body := Text.trim s.toList
  match ← readFormats body formats with
  | some d => .ok d
  | none =>
    match parseDateTime? (withOffset body) with
    | some d => .ok d
    | none => .error .badValue

end Conform.Value
