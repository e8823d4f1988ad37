/-
  Conform/Number/Numeral.lean
  ===========================
  **Numerals**: the text of integers and of double precision numbers, written
  and read.

  Reading accepts the decimal digits of every script, single low lines between
  digits, a sign, and white space around the numeral.  Texts of integers are
  limited to `digitLimit` digits in both directions; texts of doubles are not.
-/
import Conform.Number.Binary64
import Conform.Text.Class

namespace Conform.Number

open Text

/-- The most digits that the text of an integer may have. -/
def digitLimit : Nat := 4300

/-- The text of an integer in base ten, of any length. -/
def intText (n : Int) : List Char :=
  if n < 0 then '-' :: digits n.natAbs else digits n.natAbs

/-- The text of an integer, unless it has too many digits. -/
def intText? (n : Int) : Option (List Char) :=
  if n.natAbs < tenPow digitLimit then some (intText n) else none

/-! ### Reading -/

/-- The white space of ASCII. -/
def isAsciiBlank (c : Char) : Bool :=
  c == ' ' || (9 ≤ c.toNat && c.toNat ≤ 13)

/-- White space around a numeral; the separators U+001C to U+001F do not count. -/
def isNumeralBlank (c : Char) : Bool :=
  if c.toNat < 128 then isAsciiBlank c else isBlank c

/-- A text without the white space around a numeral. -/
def trimNumeral (s : List Char) : List Char :=
  ((s.dropWhile isNumeralBlank).reverse.dropWhile isNumeralBlank).reverse

/-- The sign in front of a numeral (true for minus), and the rest. -/
def takeSign : List Char → Bool × List Char
  | '-' :: rest => (true, rest)
  | '+' :: rest => (false, rest)
  | s => (false, s)

/-- The digits at the start of a text, with single low lines between them, and the rest. The flag
says that a digit has just been read, so that a low line may follow. -/
def takeDigits : Bool → List Char → List Nat × List Char
  | _, [] => ([], [])
  | afterDigit, c :: rest =>
    match digitValue? c with
    | some d =>
      let (ds, rest) := takeDigits true rest
      (d :: ds, rest)
    | none =>
      match c, afterDigit, rest with
      | '_', true, next :: _ =>
        if isDecimal next then takeDigits false rest else ([], c :: rest)
      | _, _, _ => ([], c :: rest)

/-- The integer that a text stands for; nothing for any other text, and for too many digits. -/
def parseInt? (s : List Char) : Option Int :=
  let (negative, body) := takeSign (trimNumeral s)
  match takeDigits false body with
  | ([], _) => none
  | (ds, []) =>
    if ds.length ≤ digitLimit then
      some (if negative then -(ofDigits ds : Int) else ofDigits ds)
    else none
  | _ => none

/-- A text in lower case as far as ASCII goes. -/
def asciiLower (s : List Char) : List Char :=
  s.map Char.toLower

/-- The exponent at the start of a text: a mark, an optional sign, and digits. -/
def takeExponent : List Char → Int × List Char
  | c :: rest =>
    if c == 'e' || c == 'E' then
      let (negative, body) := takeSign rest
      match takeDigits false body with
      | ([], _) => (0, c :: rest)
      | (ds, tail) => (if negative then -(ofDigits ds : Int) else ofDigits ds, tail)
    else (0, c :: rest)
  | [] => (0, [])

/-- The fraction at the start of a text: a point and digits. -/
def takeFraction : List Char → List Nat × List Char
  | '.' :: rest => takeDigits false rest
  | s => ([], s)

/-- An unsigned decimal numeral with optional fraction and exponent: `digits · 10 ^ exponent`. -/
def takeDecimal? (s : List Char) : Option (List Nat × Int × List Char) :=
  let (whole, rest) := takeDigits false s
  let (fraction, rest) := takeFraction rest
  if whole.isEmpty && fraction.isEmpty then none
  else
    let (exponent, rest) := takeExponent rest
    some (whole ++ fraction, exponent - fraction.length, rest)

/-- The double nearest to `±digits · 10 ^ exponent`.  Values beyond the range of doubles are
recognised by their size alone. -/
def binaryOfDecimal (negative : Bool) (ds : List Nat) (exponent : Int) : Binary64 :=
  let ds := ds.dropWhile (· == 0)
  if ds.isEmpty ∨ exponent + ds.length < -400 then .zero negative
  else if 400 < exponent + ds.length then .infinity negative
  else .ofQuotient negative (ofDigits ds * tenPow exponent.toNat) (tenPow (-exponent).toNat)

/-- The double that a text without surrounding white space stands for. -/
def parseFloatBody? (s : List Char) : Option Binary64 :=
  let (negative, body) := takeSign s
  let word := asciiLower body
  if word = "inf".toList ∨ word = "infinity".toList then some (.infinity negative)
  else if word = "nan".toList then some .nan
  else match takeDecimal? body with
    | some (ds, exponent, []) => some (binaryOfDecimal negative ds exponent)
    | _ => none

/-- The double that a text stands for. -/
def parseFloat? (s : List Char) : Option Binary64 :=
  parseFloatBody? (trimNumeral s)

/-! ### Writing doubles -/

/-- How a double is laid out: a positive decimal is positional when its leading digit stands for
`10 ^ k` with `lowest ≤ k < highest`, and `wholeMark` follows it when it has no fraction. -/
structure FloatLayout where
  lowest : Int
  highest : Int
  wholeMark : String

/-- Doubles are positional from `0.0001` up to `10 ^ 16`, and a whole one ends in `.0`. -/
def FloatLayout.plain : FloatLayout := ⟨-4, 16, ".0"⟩

/-- The parts of complex numbers are laid out alike but do not mark a whole number. -/
def FloatLayout.bare : FloatLayout := ⟨-4, 16, ""⟩

/-- An exponent: a sign and at least two digits. -/
def exponentText (k : Int) : List Char :=
  let ds := digits k.natAbs
  'e' :: (if k < 0 then '-' else '+') :: (if ds.length < 2 then '0' :: ds else ds)

/-- A positive decimal in the layout. -/
def FloatLayout.positive (layout : FloatLayout) (x : Binary64.Shortest) : List Char :=
  let ds := digits x.digits
  -- the power of ten of the leading digit
  let top : Int := x.exponent + ds.length - 1
  if layout.lowest ≤ top ∧ top < layout.highest then
    if 0 ≤ x.exponent then ds ++ List.replicate x.exponent.toNat '0' ++ layout.wholeMark.toList
    else if 0 ≤ top then
      ds.take (top.toNat + 1) ++ '.' :: ds.drop (top.toNat + 1)
    else '0' :: '.' :: List.replicate (-top - 1).toNat '0' ++ ds
  else
    (match ds with
      | [d] => [d]
      | d :: rest => d :: '.' :: rest
      | [] => []) ++ exponentText top

/-- The text of a double in a layout. -/
def FloatLayout.text (layout : FloatLayout) : Binary64 → List Char
  | .nan => "nan".toList
  | .infinity negative => if negative then "-inf".toList else "inf".toList
  | .finite negative m e =>
    (if negative then ['-'] else []) ++
      (if m = 0 then '0' :: layout.wholeMark.toList else layout.positive (Binary64.shortest m e))

/-- The text of a double: the shortest that reads back. -/
def floatText (x : Binary64) : List Char :=
  FloatLayout.plain.text x

end Conform.Number
