/-
  Conform/Value/Construct.lean
  ============================
  **Types as makers of values.**  A type that is called without arguments makes
  the value of that type that is nothing; with one, it converts it.
-/
import Conform.Value.Conversion

namespace Conform

open Number Calendar

namespace Value

/-- The integral part of a double. -/
def truncateFloat (x : Binary64) : Except Fault Int :=
  match x.truncate? with
  | some n => .ok n
  | none => .error (if x.isNaN then .badValue else .outOfRange)

/-- The integral part of a decimal. -/
def truncateDecimal (d : Decimal) : Except Fault Int :=
  match d.toRat? with
  | some q => .ok (q.num.tdiv q.den)
  | none => .error (if d.isNaN then .badValue else .outOfRange)

/-- A value as an integer: numbers toward zero, texts read. -/
def convertToInt (v : Value) : Except Fault Int :=
  match v.toInt? with
  | some n => .ok n
  | none =>
    match v with
    | .scalar _ s => match s with
      | .bool b => .ok (if b then 1 else 0)
      | .float _ x => truncateFloat x
      | .decimal d => truncateDecimal d
      | .str _ s => readInt s.toList
      | .bytes b | .byteArray b => readInt (byteChars b)
      | _ => .error .arguments
    | _ => .error .arguments

/-- A value as a complex number. -/
def convertToComplex (v : Value) : Except Fault (Binary64 × Binary64) :=
  match v with
  | .scalar _ (.complex re im) => .ok (re, im)
  | .scalar _ (.bytes _) | .scalar _ (.byteArray _) => .error .arguments
  | v => v.toFloat.map fun x => (x, .zero false)

/-- The most zeros that are made at once. -/
def zerosLimit : Nat := 1000000000

/-- So many bytes, all zero. -/
def zeroBytes (n : Int) : Except Fault (List UInt8) :=
  if zerosLimit < n.natAbs then .error .outOfRange
  else if n < 0 then .error .badValue
  else .ok (List.replicate n.toNat 0)

/-- A value as bytes: a number of zeros, or the numbers listed. -/
def convertToBytes (v : Value) : Except Fault (List UInt8) :=
  match v with
  | .scalar _ (.bytes b) | .scalar _ (.byteArray b) => .ok b
  | .scalar _ (.str ..) => .error .arguments
  | .scalar _ (.bool b) => zeroBytes (if b then 1 else 0)
  | v =>
    match v.toInt? with
    | some n => zeroBytes n
    | none => do
      let items ← v.items?
      items.mapM fun x =>
        match x.toInt? with
        | some n => if 0 ≤ n ∧ n < 256 then .ok (UInt8.ofNat n.toNat) else .error .badValue
        | none => .error .arguments

/-- A pair of which an entry is made. -/
def toEntry (v : Value) : Except Fault (Value × Value) := do
  match ← v.items? with
  | [k, w] => if k.isHashable then .ok (k, w) else .error .unhashable
  | _ => .error .badValue

/-- The entries of a mapping, or pairs as entries. -/
def convertToEntries (v : Value) : Except Fault (List (Value × Value)) :=
  match v.entries? with
  | some es => .ok es
  | none => do
    let items ← v.items?
    let entries ← items.mapM toEntry
    .ok (Entries.ofList entries)

end Value

namespace ValueType

open Value

/-- What a type makes of nothing. -/
def constructEmpty : ValueType → Except Fault Value
  | .null => .ok .null
  | .undefined => .ok .undefined
  | .bool => .ok (.bool false)
  | .int => .ok (.int 0)
  | .float => .ok (.float (.zero false))
  | .complex => .ok (.scalar .fresh (.complex (.zero false) (.zero false)))
  | .decimal => .ok (.scalar .fresh (.decimal (.finite false 0 0)))
  | .str => .ok (.str "")
  | .bytes => .ok (.scalar .shared (.bytes []))
  | .byteArray => .ok (.scalar .fresh (.byteArray []))
  | .tuple => .ok (.ofTuple [])
  | .list => .ok (.ofList [])
  | .set => .ok (.ofSet false [])
  | .frozenSet => .ok (.ofSet true [])
  | .dict => .ok (.ofMapping [])
  | .orderedDict => .ok (.mapping .fresh .ordered [])
  | .time => .ok (.scalar .fresh (.time ⟨.midnight, none⟩))
  | .duration => .ok (.scalar .fresh (.duration ⟨0⟩))
  | .sentinel => .ok (.scalar .fresh (.sentinel "" ""))
  | .derivedInt => .ok (.scalar .fresh (.int .derived 0))
  | .derivedFloat => .ok (.scalar .fresh (.float .derived (.zero false)))
  | .derivedStr => .ok (.scalar .fresh (.str .derived ""))
  | .derivedList => .ok (.list .fresh .derived [])
  | .object c => .ok (.scalar .fresh (.object c))
  | _ => .error .arguments

/-- The member of an enumeration for a value: the member itself, or the first with an equal value. -/
def memberFor (e : Enumeration) (v : Value) : Except Fault Value :=
  let hit := e.memberList.find? fun m =>
    (Value.scalar .shared (.member m)).keyEq v || m.value.toValue.keyEq v
  match hit with
  | some m => .ok (.scalar .shared (.member m))
  | none => .error (if e.members.isEmpty then .arguments else .badValue)

/-- What a type makes of a value. A value of the very type is not made anew if it cannot change. -/
def constructFrom (t : ValueType) (v : Value) : Except Fault Value :=
  match t with
  | .bool => v.isTrue.map .bool
  | .int => v.convertToInt.map .int
  | .float => if v.typeOf == .float then .ok v else v.toFloat.map .float
  | .complex =>
    if v.typeOf == .complex then .ok v
    else v.convertToComplex.map fun (re, im) => .scalar .fresh (.complex re im)
  | .decimal =>
    match v.toInt?, v with
    | some n, _ => .ok (.scalar .fresh (.decimal (.finite (n < 0) n.natAbs 0)))
    | none, .scalar _ (.decimal _) => .ok v
    | none, .scalar _ (.str _ s) =>
      match Decimal.parse? s.toList with
      | some d => .ok (.scalar .fresh (.decimal d))
      | none => .error .decimal
    | none, .list .. | none, .tuple .. => .error .badValue
    | none, _ => .error .arguments
  | .str => if v.typeOf == .str then .ok v else v.text.map .str
  | .bytes =>
    if v.typeOf == .bytes then .ok v
    else v.convertToBytes.map fun b => .scalar .fresh (.bytes b)
  | .byteArray => v.convertToBytes.map fun b => .scalar .fresh (.byteArray b)
  | .tuple => if v.typeOf == .tuple then .ok v else v.items?.map .ofTuple
  | .list => v.items?.map .ofList
  | .set => v.items?.bind fun items => (toMembers items).map (.ofSet false)
  | .frozenSet =>
    if v.typeOf == .frozenSet then .ok v
    else v.items?.bind fun items => (toMembers items).map (.ofSet true)
  | .dict => v.convertToEntries.map .ofMapping
  | .orderedDict => v.convertToEntries.map (.mapping .fresh .ordered)
  | .mappingView =>
    match v.entries? with
    | some es => .ok (.mapping .fresh .view es)
    | none => .error .arguments
  | .time =>
    match v.toInt? with
    | some n =>
      if 0 ≤ n ∧ n < 24 then .ok (.scalar .fresh (.time ⟨⟨n.toNat, 0, 0, 0⟩, none⟩))
      else .error .badValue
    | none => .error .arguments
  | .duration =>
    match v.toInt? with
    | some n =>
      match Duration.ofMicroseconds? (n * dayLength) with
      | some d => .ok (.scalar .fresh (.duration d))
      | none => .error .outOfRange
    | none => .error .arguments
  | .sentinel => v.text.map fun s => .scalar .fresh (.sentinel "" s)
  | .derivedInt => v.convertToInt.map fun n => .scalar .fresh (.int .derived n)
  | .derivedFloat => v.toFloat.map fun x => .scalar .fresh (.float .derived x)
  | .derivedStr => v.text.map fun s => .scalar .fresh (.str .derived s)
  | .derivedList => v.items?.map (.list .fresh .derived)
  | .enumeration e => memberFor e v
  | .type => .ok (.scalar .shared (.type v.typeOf))
  | _ => .error .arguments

/-- What a type makes of its arguments, at most one. -/
def construct (t : ValueType) : List Value → Except Fault Value
  | [] => t.constructEmpty
  | [v] => t.constructFrom v
  | _ => .error .arguments

end ValueType

end Conform
