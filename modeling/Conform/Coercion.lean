/-
  Conform/Coercion.lean
  =====================
  **Types and conversions.**  A primitive type is checked strictly
  (`Primitive.accepts`).  A target accepts the values of its type as they are
  and converts others as well as it can (`Target.convert`); a conversion that
  fails is a finding, not a fault.
-/
import Conform.Schema.Basic
import Conform.Value.Conversion

namespace Conform

/-- A double without a fractional part. -/
def Value.isWholeFloat (v : Value) : Bool :=
  match v.toFloat? with
  | some x => x.toInt?.isSome
  | none => false

/-- A unique marker. -/
def Value.isSentinel : Value → Bool
  | .scalar _ (.sentinel ..) => true
  | _ => false

/-- The value is of the type. -/
def Primitive.accepts (p : Primitive) (v : Value) : Bool :=
  match p with
  | .string => v.toStr?.isSome
  | .number => v.isNumber
  | .integer => v.isBigInt || v.isWholeFloat
  | .boolean => v.isBool
  | .bigInt => v.isBigInt
  | .date => v.toDateTime?.isSome
  | .symbol => v.isSentinel
  | .null => v.isNull
  | .undefined | .void => v.isUndefined

namespace Target

/-- The value is of the target type already. -/
def accepts (t : Target) (v : Value) : Bool :=
  match t with
  | .string => v.toStr?.isSome
  | .number => v.isNumber
  | .boolean => v.isBool
  | .bigInt => v.isBigInt
  | .date _ => v.toDateTime?.isSome

open Value Number

/-- A value as a text: bytes decoded, all else by its plain text. -/
def toText (v : Value) : Except Fault Value :=
  match v with
  | .scalar _ s => match s with
    | .undefined => .error .badValue
    | .bytes b | .byteArray b => (decodeText b).map .str
    | s => s.text.map .str
  | v => v.text.map .str

/-- The number that a text stands for: zero when it is blank, an integer if possible. -/
def readNumber (s : String) : Except Fault Value :=
  match Text.trim s.toList with
  | [] => .ok (.int 0)
  | body =>
    match parseInt? body with
    | some n => .ok (.int n)
    | none => (readFloat body).map .float

/-- A value as a number. -/
def toNumber (v : Value) : Except Fault Value :=
  match v with
  | .scalar _ s => match s with
    | .bool b => .ok (.int (if b then 1 else 0))
    | .null => .ok (.int 0)
    | .str _ s => readNumber s
    | .undefined => .error .badValue
    | s => (toFloat (.scalar .fresh s)).map .float
  | _ => .error .arguments

/-- The integer that a text stands for: zero when it is blank. -/
def readInteger (s : String) : Except Fault Value :=
  match Text.trim s.toList with
  | [] => .ok (.int 0)
  | body => (readInt body).map .int

/-- A value as an integer: a whole double, or what its text stands for. -/
def toInteger (v : Value) : Except Fault Value :=
  match v with
  | .scalar _ s => match s with
    | .bool b => .ok (.int (if b then 1 else 0))
    | .null | .undefined => .error .arguments
    | .float _ x => (wholeFloat x).map .int
    | .str _ s => readInteger s
    | s => do
      let t ← s.text
      (readInt t.toList).map .int
  | v => do
    let t ← v.text
    (readInt t.toList).map .int

/-- A value as a moment: a timestamp in milliseconds, the midnight of a date, or what its text
stands for. -/
def toMoment (formats : List String) (v : Value) : Except Fault Value :=
  match v.toInt? with
  | some n => (momentAfterEpoch (n * 1000)).map .dateTime
  | none =>
    match v with
    | .scalar _ s => match s with
      | .null | .undefined => .error .arguments
      | .bool b => (momentAfterEpoch (if b then 1000 else 0)).map .dateTime
      | .float _ x => (momentOfFloat x).map .dateTime
      | .date d => .ok (.dateTime ⟨d, .midnight, none⟩)
      | .str _ s => (readMoment formats s).map .dateTime
      | s => do
        let t ← s.text
        (readMoment formats t).map .dateTime
    | v => do
      let t ← v.text
      (readMoment formats t).map .dateTime

/-- Converts a value. -/
def convert (t : Target) (v : Value) : Except Fault Value :=
  match t with
  | .string => toText v
  | .number => toNumber v
  | .boolean => v.isTrue.map .bool
  | .bigInt => toInteger v
  | .date formats => toMoment formats v

/-- The value in the target type, if it can be had; a fault that says more than that the value
cannot be converted is passed on. -/
def coerce? (t : Target) (v : Value) : Except Fault (Option Value) :=
  if t.accepts v then .ok (some v)
  else match t.convert v with
    | .ok w => .ok (if t.accepts w then some w else none)
    | .error f => if f.isConversion then .ok none else .error f

end Target

end Conform
