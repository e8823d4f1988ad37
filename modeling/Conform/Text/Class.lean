/-
  Conform/Text/Class.lean
  =======================
  **Character classes**: blanks, decimal digits and their values, word
  characters, printable characters.  Each class is a list of ranges of code
  points, so membership is a decidable statement about numbers.
-/
import Conform.Text.ClassTable

namespace Conform.Text

/-- The code point lies in one of the inclusive ranges. -/
def inRanges (ranges : List (Nat × Nat)) (code : Nat) : Bool :=
  ranges.any fun r => r.1 ≤ code && code ≤ r.2

/-- White space. -/
def isBlank (c : Char) : Bool :=
  inRanges blankRanges c.toNat

/-- The value of a decimal digit of any script. -/
def digitValue? (c : Char) : Option Nat :=
  if c.toNat < 128 then
    if '0' ≤ c ∧ c ≤ '9' then some (c.toNat - '0'.toNat) else none
  else
    (decimalZeros.find? fun z => z ≤ c.toNat && c.toNat < z + 10).map (c.toNat - ·)

/-- A decimal digit of any script. -/
def isDecimal (c : Char) : Bool :=
  (digitValue? c).isSome

/-- A character with a digit value: the decimal digits, and others such as superscripts. -/
def isDigit (c : Char) : Bool :=
  inRanges digitRanges c.toNat

/-- A letter, a character with a numeric value, or the low line. -/
def isWord (c : Char) : Bool :=
  if c.toNat < 128 then
    ('0' ≤ c ∧ c ≤ '9') || ('A' ≤ c ∧ c ≤ 'Z') || c == '_' || ('a' ≤ c ∧ c ≤ 'z')
  else
    inRanges wordRanges c.toNat

/-- A character that a quoted text may show as it is. -/
def isPrintable (c : Char) : Bool :=
  if c.toNat < 128 then 32 ≤ c.toNat && c.toNat < 127
  else !inRanges unprintableRanges c.toNat

/-- A digit of base sixteen, and its value. -/
def hexValue? (c : Char) : Option Nat :=
  if '0' ≤ c ∧ c ≤ '9' then some (c.toNat - '0'.toNat)
  else if 'a' ≤ c ∧ c ≤ 'f' then some (c.toNat - 'a'.toNat + 10)
  else if 'A' ≤ c ∧ c ≤ 'F' then some (c.toNat - 'A'.toNat + 10)
  else none

/-- The digit of a number below sixteen. -/
def hexDigit (n : Nat) : Char :=
  if n < 10 then Char.ofNat ('0'.toNat + n) else Char.ofNat ('a'.toNat + (n - 10))

/-- The lowest `width` digits of a number in base sixteen. -/
def hexPadded : Nat → Nat → List Char
  | 0, _ => []
  | width + 1, n => hexPadded width (n / 16) ++ [hexDigit (n % 16)]

/-- The text without white space at its start. -/
def trimLeft (s : List Char) : List Char :=
  s.dropWhile isBlank

/-- The text without white space at both ends. -/
def trim (s : List Char) : List Char :=
  (trimLeft (trimLeft s).reverse).reverse

/-- A name: a letter or the low line, then also digits. -/
def isName : List Char → Bool
  | [] => false
  | c :: rest =>
    inRanges nameStartRanges c.toNat && rest.all fun c => inRanges nameRanges c.toNat

end Conform.Text
