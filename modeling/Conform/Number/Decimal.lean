/-
  Conform/Number/Decimal.lean
  ===========================
  **Decimal numbers**: a sign, a coefficient and a power of ten, kept as
  written (`1.10` is not `1.1`), with infinities and two kinds of not a
  number, of which the signaling one refuses to be compared.

  Reading is exact.  Arithmetic rounds to `precision` digits, a half to the
  even neighbour.
-/
import Conform.Number.Numeral

namespace Conform

/-- A decimal number.  `finite negative c e` is `±c · 10^e`. -/
inductive Decimal where
  | finite (negative : Bool) (coefficient : Nat) (exponent : Int)
  | infinity (negative : Bool)
  | nan (negative signaling : Bool) (payload : Nat)
deriving DecidableEq, Repr, Inhabited

namespace Decimal

open Number Text

/-- Digits that the result of an operation keeps. -/
def precision : Nat := 28

/-- The largest exponent of the leading digit in the result of an operation. -/
def operationMax : Int := 999999

/-- The largest exponent of the leading digit of a decimal that is read. -/
def readingMax : Int := 999999999999999999

/-- The power of ten of the leading digit. -/
def adjusted (coefficient : Nat) (exponent : Int) : Int :=
  exponent + digitCount coefficient - 1

/-- A text of ASCII digits as a number; nothing when empty or when there is another character. -/
def payload? (s : List Char) : Option Nat :=
  if s.all fun c => (digitValue? c).isSome then
    some (ofDigits (s.filterMap digitValue?))
  else none

/-- The decimal that a text stands for.  White space around it and low lines anywhere are allowed,
and the digits of every script. -/
def parse? (s : List Char) : Option Decimal :=
  let (negative, body) := takeSign ((trim s).filter (· != '_'))
  let word := asciiLower body
  if word = "inf".toList ∨ word = "infinity".toList then some (.infinity negative)
  else if word.take 3 = "nan".toList then (payload? (word.drop 3)).map (.nan negative false)
  else if word.take 4 = "snan".toList then (payload? (word.drop 4)).map (.nan negative true)
  else match takeDecimal? body with
    | some (ds, exponent, []) =>
      let c := ofDigits ds
      if c ≠ 0 ∧ readingMax < adjusted c exponent then none else some (.finite negative c exponent)
    | _ => none

/-- The text of a decimal: positional as long as the exponent is not positive and at most six
zeros follow the point, in scientific form otherwise. -/
def text : Decimal → List Char
  | .infinity negative => (if negative then ['-'] else []) ++ "Infinity".toList
  | .nan negative signaling p =>
    (if negative then ['-'] else []) ++ (if signaling then "sNaN" else "NaN").toList ++
      (if p = 0 then [] else digits p)
  | .finite negative c e =>
    let ds := digits c
    let top := adjusted c e
    (if negative then ['-'] else []) ++
      if e ≤ 0 ∧ -6 ≤ top then
        if e = 0 then ds
        else if 0 ≤ top then ds.take (top.toNat + 1) ++ '.' :: ds.drop (top.toNat + 1)
        else '0' :: '.' :: List.replicate (-top - 1).toNat '0' ++ ds
      else
        (match ds with
          | [d] => [d]
          | d :: rest => d :: '.' :: rest
          | [] => []) ++ 'E' :: (if top < 0 then '-' else '+') :: digits top.natAbs

/-- A zero of either sign. -/
def isZero : Decimal → Bool
  | .finite _ 0 _ => true
  | _ => false

/-- Refuses to be compared. -/
def isSignaling : Decimal → Bool
  | .nan _ signaling _ => signaling
  | _ => false

/-- Not a number of either kind. -/
def isNaN : Decimal → Bool
  | .nan .. => true
  | _ => false

/-- The exact value of a finite decimal. -/
def toRat? : Decimal → Option Rat
  | .finite negative c e =>
    let num : Int := (c * tenPow e.toNat : Nat)
    some (mkRat (if negative then -num else num) (tenPow (-e).toNat))
  | _ => none

/-- The nearest double. -/
def toBinary64 : Decimal → Binary64
  | .finite negative c e => binaryOfDecimal negative ((digits c).filterMap digitValue?) e
  | .infinity negative => .infinity negative
  | .nan .. => .nan

/-- A decimal rounded to the digits that an operation keeps; nothing when it is out of range. -/
def rounded? (negative : Bool) (c : Nat) (e : Int) : Option Decimal :=
  let n := digitCount c
  let (c, e) :=
    if precision < n then
      let cut := n - precision
      let c' := roundHalfEven c (tenPow cut)
      if c' = tenPow precision then (tenPow (precision - 1), e + cut + 1) else (c', e + cut)
    else (c, e)
  if c ≠ 0 ∧ operationMax < adjusted c e then none else some (.finite negative c e)

/-- The magnitude, rounded; nothing when the decimal is signaling or out of range. -/
def abs? : Decimal → Option Decimal
  | .finite _ c e => rounded? false c e
  | .infinity _ => some (.infinity false)
  | .nan negative signaling p => if signaling then none else some (.nan negative false p)

/-- Twice the number, rounded; nothing when the decimal is signaling or out of range. -/
def double? : Decimal → Option Decimal
  | .finite negative c e => rounded? negative (2 * c) e
  | .infinity negative => some (.infinity negative)
  | .nan negative signaling p => if signaling then none else some (.nan negative false p)

/-- Whether a number is divisible by two.  Nothing when the remainder cannot be computed: an
infinity, a signaling decimal, or a quotient of too many digits. -/
def even? : Decimal → Option Bool
  | .finite _ c e =>
    if c ≠ 0 ∧ (precision : Int) + 1 < adjusted c e then none
    else
      let num := c * tenPow e.toNat
      let den := 2 * tenPow (-e).toNat
      if tenPow precision ≤ num / den then none else some (num % den = 0)
  | .infinity _ => none
  | .nan _ signaling _ => if signaling then none else some false

end Decimal

end Conform
