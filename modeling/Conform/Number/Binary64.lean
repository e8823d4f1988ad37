/-
  Conform/Number/Binary64.lean
  ============================
  **Double precision numbers** as exact values: a sign, a significand and a
  power of two, or an infinity, or not a number.  Arithmetic is done on
  rationals and rounded once (`ofQuotient`), to the nearest double, a half to
  the even significand.
-/
import Conform.Number.Rounding

namespace Conform

/-- A double precision number.  `finite negative m e` is `±m · 2^e`; the canonical form has
`m < 2^53`, `-1074 ≤ e ≤ 971`, and `2^52 ≤ m` unless `e = -1074`. -/
inductive Binary64 where
  | nan
  | infinity (negative : Bool)
  | finite (negative : Bool) (significand : Nat) (exponent : Int)
deriving DecidableEq, Repr, Inhabited

namespace Binary64

open Number

/-- The exponent of the smallest double. -/
def minExponent : Int := -1074

/-- The exponent of the largest doubles. -/
def maxExponent : Int := 971

/-- The least significand of a normal double, `2 ^ 52`; all significands lie below its double. -/
def leastNormal : Nat := 4503599627370496

/-- The double zero with a sign. -/
def zero (negative : Bool) : Binary64 :=
  .finite negative 0 minExponent

/-- `2 ^ e`, or one when `e` is negative. -/
def twoPow (e : Int) : Nat :=
  Nat.pow 2 e.toNat

/-- The greatest `k` with `2 ^ k ≤ num / den`, for positive numbers. -/
def floorLog2 (num den : Nat) : Int :=
  let k : Int := (num.log2 : Int) - den.log2
  if den * twoPow k ≤ num * twoPow (-k) then k else k - 1

/-- The double nearest to `num / den`. -/
def ofQuotient (negative : Bool) (num den : Nat) : Binary64 :=
  if num = 0 then zero negative
  else
    let e := max (floorLog2 num den - 52) minExponent
    let m := roundHalfEven (num * twoPow (-e)) (den * twoPow e)
    let (m, e) := if m = 2 * leastNormal then (leastNormal, e + 1) else (m, e)
    if maxExponent < e then .infinity negative else .finite negative m e

/-- The double nearest to a rational. -/
def ofRat (x : Rat) : Binary64 :=
  ofQuotient (x.num < 0) x.num.natAbs x.den

/-- The double nearest to an integer, unless that is out of range. -/
def ofInt? (n : Int) : Option Binary64 :=
  match ofQuotient (n < 0) n.natAbs 1 with
  | .infinity _ => none
  | x => some x

/-- The magnitude of a significand and an exponent as a quotient. -/
def quotient (m : Nat) (e : Int) : Nat × Nat :=
  (m * twoPow e, twoPow (-e))

/-- The exact value of a finite double. -/
def toRat? : Binary64 → Option Rat
  | .finite negative m e =>
    let (num, den) := quotient m e
    some (mkRat (if negative then -(num : Int) else num) den)
  | _ => none

/-- Not a number. -/
def isNaN (x : Binary64) : Bool :=
  x == .nan

/-- Positive or negative infinity. -/
def isInfinite : Binary64 → Bool
  | .infinity _ => true
  | _ => false

/-- A zero of either sign. -/
def isZero : Binary64 → Bool
  | .finite _ 0 _ => true
  | _ => false

/-- The sign bit; not a number has none. -/
def isNegative : Binary64 → Bool
  | .nan => false
  | .infinity negative => negative
  | .finite negative _ _ => negative

/-- The integer that a double stands for, when it has no fractional part. -/
def toInt? (x : Binary64) : Option Int :=
  match x.toRat? with
  | some q => if q.den = 1 then some q.num else none
  | none => none

/-- The number with the sign bit cleared. -/
def abs : Binary64 → Binary64
  | .nan => .nan
  | .infinity _ => .infinity false
  | .finite _ m e => .finite false m e

/-- The product with an integer. -/
def scale (x : Binary64) (k : Nat) : Binary64 :=
  match x with
  | .finite negative m e =>
    let (num, den) := quotient m e
    ofQuotient negative (k * num) den
  | x => x

/-- The integral part, toward zero, of a finite double. -/
def truncate? (x : Binary64) : Option Int :=
  x.toRat?.map fun q => q.num.tdiv q.den

/-! ### The shortest decimal that reads back -/

/-- A positive decimal `digits · 10 ^ exponent`. -/
structure Shortest where
  digits : Nat
  exponent : Int
deriving DecidableEq, Repr

/-- The greatest `k` with `10 ^ k ≤ num / den`, for positive numbers. -/
def floorLog10 (num den : Nat) : Int :=
  let guess : Int := (floorLog2 num den) * 30103 / 100000
  let atLeast (k : Int) : Bool := den * tenPow k.toNat ≤ num * tenPow (-k).toNat
  if atLeast (guess + 1) then guess + 1 else if atLeast guess then guess else guess - 1

/-- The reals nearest to `m · 2 ^ e` rather than to another double, as quotients over one
denominator: the lower end, the value and the upper end.  The lower neighbour of a power of two is
half as far as the upper one. -/
def readingInterval (m : Nat) (e : Int) : Nat × Nat × Nat × Nat :=
  let (num, den) := quotient m e
  let step := twoPow e
  if m = leastNormal ∧ minExponent < e then (4 * num - step, 4 * num, 4 * num + 2 * step, 4 * den)
  else (4 * num - 2 * step, 4 * num, 4 * num + 2 * step, 4 * den)

/-- The decimal with unit `10 ^ k` nearest to `m · 2 ^ e` among the two neighbours of that value
which read back as it. -/
def candidate? (m : Nat) (e k : Int) : Option Nat :=
  let (lo, value, hi, den) := readingInterval m e
  -- everything in units of `10 ^ k / den`
  let up := tenPow (-k).toNat
  let unit := den * tenPow k.toNat
  let (lo, value, hi) := (lo * up, value * up, hi * up)
  let below := value / unit
  let inside (d : Nat) : Bool :=
    if m % 2 = 0 then lo ≤ d * unit && d * unit ≤ hi else lo < d * unit && d * unit < hi
  match inside below, inside (below + 1) with
  | true, true =>
    let left := value - below * unit
    let right := (below + 1) * unit - value
    if left < right then some below
    else if right < left then some (below + 1)
    else some (if below % 2 = 0 then below else below + 1)
  | true, false => some below
  | false, true => some (below + 1)
  | false, false => none

/-- The decimal with the fewest digits that reads back as the positive double `m · 2 ^ e`, and of
these the nearest to it. -/
def shortest (m : Nat) (e : Int) : Shortest :=
  let (num, den) := quotient m e
  let top := floorLog10 num den
  let hit := (List.range 17).findSome? fun (n : Nat) =>
    let k := top - (n : Int)
    -- a value just below a power of ten may round up to it
    (candidate? m e k).map fun d =>
      if d = tenPow (n + 1) then (⟨1, top + 1⟩ : Shortest) else ⟨d, k⟩
  hit.getD ⟨0, 0⟩

end Binary64

end Conform
