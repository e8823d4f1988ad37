/-
  Conform/Value/Order.lean
  ========================
  **Ordering values.**  Numbers are ordered with numbers, texts with texts,
  moments with moments; lists and tuples lexicographically, each with its own
  kind; sets by inclusion.  All else has no order, which is a fault.
-/
import Conform.Value.Mapping

namespace Conform

/-- A comparison to be made. -/
inductive Relation where
  | lt
  | le
  | gt
  | ge
deriving DecidableEq, Repr

/-- The relation between two things of which one is known to come before the other. -/
def Relation.ofOrdering : Relation → Ordering → Bool
  | .lt, o => o == .lt
  | .le, o => o != .gt
  | .gt, o => o == .gt
  | .ge, o => o != .lt

/-- The order of two real numbers, unless one is "not a number". -/
def Quantity.compare? : Quantity → Quantity → Option Ordering
  | .nan, _ | _, .nan => none
  | .infinity a, .infinity b => some (if a == b then .eq else if a then .lt else .gt)
  | .infinity a, _ => some (if a then .lt else .gt)
  | _, .infinity b => some (if b then .gt else .lt)
  | .finite p, .finite q => some (if p < q then .lt else if p = q then .eq else .gt)

/-- A decimal. -/
def Scalar.isDecimal : Scalar → Bool
  | .decimal _ => true
  | _ => false

/-- The lexicographic order of bytes. -/
def compareBytes : List UInt8 → List UInt8 → Ordering
  | [], [] => .eq
  | [], _ => .lt
  | _, [] => .gt
  | a :: as, b :: bs => if a < b then .lt else if b < a then .gt else compareBytes as bs

/-- The lexicographic order of code points. -/
def compareText (a b : String) : Ordering :=
  if a < b then .lt else if a = b then .eq else .gt

/-- The bytes of a string of bytes of either type. -/
def Scalar.bytes? : Scalar → Option (List UInt8)
  | .bytes b | .byteArray b => some b
  | _ => none

/-- The fields of a date as one number. -/
def Calendar.Date.key (d : Calendar.Date) : Nat :=
  (d.year * 16 + d.month) * 32 + d.day

/-- The order of two moments: both with an offset or both without. -/
def Calendar.DateTime.compare? (a b : Calendar.DateTime) : Option Ordering :=
  match a.instant?, b.instant? with
  | some i, some j => some (compare i j)
  | none, none => some (compare a.local b.local)
  | _, _ => none

/-- Orders scalars by a relation. -/
def Scalar.relate (r : Relation) (a b : Scalar) : Except Fault Bool :=
  match a.quantity?, b.quantity? with
  | some p, some q =>
    match p.compare? q with
    | some o => .ok (r.ofOrdering o)
    -- a decimal does not take part in an ordering with "not a number"
    | none => if a.isDecimal || b.isDecimal then .error .decimal else .ok false
  | _, _ =>
    match a.bytes?, b.bytes? with
    | some x, some y => .ok (r.ofOrdering (compareBytes x y))
    | _, _ =>
      match a, b with
      | .str _ x, .str _ y => .ok (r.ofOrdering (compareText x y))
      | .date x, .date y => .ok (r.ofOrdering (compare x.key y.key))
      | .dateTime x, .dateTime y => match x.compare? y with
        | some o => .ok (r.ofOrdering o)
        | none => .error .unordered
      | .time x, .time y =>
        if x.offset.isSome == y.offset.isSome then .ok (r.ofOrdering (compare x.key y.key))
        else .error .unordered
      | .duration x, .duration y =>
        .ok (r.ofOrdering (compare x.microseconds y.microseconds))
      | _, _ => .error .unordered

namespace Value

/-- Inclusion of sets by a relation: a proper one for the strict relations. -/
def relateSets (r : Relation) (xs ys : List Value) : Bool :=
  match r with
  | .lt => xs.length < ys.length && subset xs ys
  | .le => subset xs ys
  | .gt => ys.length < xs.length && subset ys xs
  | .ge => subset ys xs

mutual

/-- Orders values by a relation. -/
def relate (r : Relation) : Value → Value → Except Fault Bool
  | .scalar _ s, b =>
    match b with
    | .scalar _ t => s.relate r t
    | _ => .error .unordered
  | .list _ _ xs, b =>
    match b with
    | .list _ _ ys => relateItems r xs ys
    | _ => .error .unordered
  | .tuple _ xs, b =>
    match b with
    | .tuple _ ys => relateItems r xs ys
    | _ => .error .unordered
  | .set _ _ xs, b =>
    match b with
    | .set _ _ ys => .ok (relateSets r xs ys)
    | _ => .error .unordered
  | .mapping .., _ => .error .unordered
termination_by structural a => a

/-- The first items that differ decide, or the lengths. -/
def relateItems (r : Relation) : List Value → List Value → Except Fault Bool
  | [], ys => .ok (r.ofOrdering (if ys.isEmpty then .eq else .lt))
  | x :: xs, ys =>
    match ys with
    | [] => .ok (r.ofOrdering .gt)
    | y :: ys =>
      match x.matches? y with
      | .ok true => relateItems r xs ys
      | .ok false => x.relate r y
      | .error f => .error f
termination_by structural xs => xs

end

end Value

end Conform
