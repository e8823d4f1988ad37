/-
  Conform/Value/Equality.lean
  ===========================
  **Equality of values.**  Numbers of all types are equal when they stand for
  the same number, exactly; truth values count as zero and one.  Lists and
  tuples are compared item by item, mappings entry by entry, sets by
  membership.  Inside a container an object counts as equal to itself even
  when it is not a number.

  A comparison can fail in one way: a signaling decimal refuses to be compared
  with a number.  Keys are never signaling, so looking a key up cannot fail.
-/
import Conform.Value.Basic
import Conform.Fault

namespace Conform

/-- What a real number amounts to. -/
inductive Quantity where
  | nan
  | infinity (negative : Bool)
  | finite (q : Rat)
deriving DecidableEq

/-- What a double amounts to. -/
def Binary64.quantity : Binary64 → Quantity
  | .nan => .nan
  | .infinity negative => .infinity negative
  | x@(.finite ..) => .finite (x.toRat?.getD 0)

/-- What a decimal amounts to. -/
def Decimal.quantity : Decimal → Quantity
  | .nan .. => .nan
  | .infinity negative => .infinity negative
  | d@(.finite ..) => .finite (d.toRat?.getD 0)

/-- What a scalar amounts to, when it is a real number. -/
def Scalar.quantity? : Scalar → Option Quantity
  | .bool b => some (.finite (if b then 1 else 0))
  | .int _ n => some (.finite n)
  | .float _ x => some x.quantity
  | .decimal d => some d.quantity
  | .member m => if m.enumeration.numeric then match m.value with
      | .int n => some (.finite n)
      | _ => none
    else none
  | _ => none

/-- A decimal that refuses to be compared. -/
def Scalar.isSignaling : Scalar → Bool
  | .decimal d => d.isSignaling
  | _ => false

/-- Real numbers are equal when neither is "not a number" and they stand for the same number. -/
def Quantity.eq (a b : Quantity) : Bool :=
  a != .nan && a == b

/-- Two moments: both with an offset or both without, at the same instant or with equal fields. -/
def Calendar.DateTime.eq (a b : Calendar.DateTime) : Bool :=
  match a.instant?, b.instant? with
  | some i, some j => i == j
  | none, none => a == b
  | _, _ => false

/-- Two times of day, likewise. -/
def Calendar.Time.eq (a b : Calendar.Time) : Bool :=
  a.offset.isSome == b.offset.isSome && a.key == b.key

/-- Equality of scalars. -/
def Scalar.eq (a b : Scalar) : Except Fault Bool :=
  match a, b with
  | .complex re im, .complex re' im' =>
    .ok (re.quantity.eq re'.quantity && im.quantity.eq im'.quantity)
  | .complex re im, s | s, .complex re im =>
    match s.quantity? with
    | some q =>
      if !im.isZero then .ok false
      else if s.isSignaling then .error .decimal
      else .ok (re.quantity.eq q)
    | none => .ok false
  | .bytes x, .byteArray y | .byteArray x, .bytes y => .ok (x == y)
  | .bytes x, .bytes y | .byteArray x, .byteArray y => .ok (x == y)
  | .str _ x, .str _ y => .ok (x == y)
  | .dateTime x, .dateTime y => .ok (x.eq y)
  | .time x, .time y => .ok (x.eq y)
  | .sentinel x _, .sentinel y _ => .ok (x == y)
  | .object _, .object _ => .ok false
  | a, b =>
    match a.quantity?, b.quantity? with
    | some p, some q =>
      if a.isSignaling || b.isSignaling then .error .decimal else .ok (p.eq q)
    | some _, none | none, some _ => .ok false
    | none, none => .ok (a == b)

namespace Value

/-- A finding that holds only if the comparison does not fail. -/
def succeeds (r : Except Fault Bool) : Bool :=
  match r with
  | .ok b => b
  | .error _ => false

mutual

/-- Equality of values.  Objects without contents are equal to themselves alone. -/
def eq : Value → Value → Except Fault Bool
  | a@(.scalar _ s), b =>
    match b with
    | .scalar _ t => match s with
      | .object _ => .ok (a.same b)
      | _ => s.eq t
    | _ => .ok false
  | .list _ _ xs, b =>
    match b with
    | .list _ _ ys => if xs.length = ys.length then eqItems xs ys else .ok false
    | _ => .ok false
  | .tuple _ xs, b =>
    match b with
    | .tuple _ ys => eqItems xs ys
    | _ => .ok false
  | .set _ _ xs, b =>
    match b with
    | .set _ _ ys => .ok (xs.length == ys.length && subset xs ys)
    | _ => .ok false
  | .mapping _ kind xs, b =>
    match b with
    | .mapping _ kind' ys =>
      if xs.length != ys.length then .ok false
      else
        match eqEntries xs ys with
        | .ok true =>
          .ok (if kind == .ordered && kind' == .ordered then sameOrder xs ys else true)
        | r => r
    | _ => .ok false
termination_by structural a => a

/-- Items are equal one by one; the shorter list differs from the longer one at its end. -/
def eqItems : List Value → List Value → Except Fault Bool
  | [], ys => .ok ys.isEmpty
  | x :: xs, ys =>
    match ys with
    | [] => .ok false
    | y :: ys =>
      if x.same y then eqItems xs ys
      else match x.eq y with
        | .ok true => eqItems xs ys
        | r => r
termination_by structural xs => xs

/-- Every item is among the others. -/
def subset : List Value → List Value → Bool
  | [], _ => true
  | x :: xs, ys => (ys.any fun y => x.same y || succeeds (x.eq y)) && subset xs ys
termination_by structural xs => xs

/-- Every entry is among the others: its key is, with an equal value. -/
def eqEntries : List (Value × Value) → List (Value × Value) → Except Fault Bool
  | [], _ => .ok true
  | (k, v) :: xs, ys =>
    match ys.find? fun e => k.same e.1 || succeeds (k.eq e.1) with
    | none => .ok false
    | some (_, w) =>
      if v.same w then eqEntries xs ys
      else match v.eq w with
        | .ok true => eqEntries xs ys
        | r => r
termination_by structural xs => xs

/-- The keys are equal one by one. -/
def sameOrder : List (Value × Value) → List (Value × Value) → Bool
  | [], ys => ys.isEmpty
  | (k, _) :: xs, ys =>
    match ys with
    | [] => false
    | (l, _) :: ys => (k.same l || succeeds (k.eq l)) && sameOrder xs ys
termination_by structural xs => xs

end

/-- As keys of a mapping or members of a set two values are one. -/
def keyEq (a b : Value) : Bool :=
  a.same b || succeeds (a.eq b)

/-- Equal, an object being equal to itself. -/
def matches? (a b : Value) : Except Fault Bool :=
  if a.same b then .ok true else a.eq b

/-! ### Keys -/

mutual

/-- Whether a value can be a key or a member of a set. -/
def isHashable : Value → Bool
  | .scalar _ (.byteArray _) => false
  | .scalar _ (.decimal d) => !d.isSignaling
  | .scalar .. => true
  | .list .. => false
  | .tuple _ items => allHashable items
  | .set _ frozen _ => frozen
  | .mapping .. => false
termination_by structural v => v

/-- All values can be keys. -/
def allHashable : List Value → Bool
  | [] => true
  | x :: xs => x.isHashable && allHashable xs
termination_by structural xs => xs

end

/-- A value that is about to be used as a key. -/
def ensureHashable (v : Value) : Except Fault Unit :=
  if v.isHashable then .ok () else .error .unhashable

/-! ### Strict equality -/

/-- The same object; or equal numbers; or equal values of one type.  So a truth value is not the
number that it is equal to. -/
def strictEq (a b : Value) : Except Fault Bool :=
  if a.same b then .ok true
  else if a.isNumber && b.isNumber then a.eq b
  else if a.typeOf == b.typeOf then a.eq b
  else .ok false

end Value

end Conform
