/-
  Conform/Text/Case.lean
  ======================
  **Letter case**: the upper and lower case of a text, and the simple case
  mappings by which two characters are compared without regard to case.

  The mapping of a text works character by character, with one exception: a
  capital sigma becomes a final sigma at the end of a word (`endsWord`).
-/
import Conform.Text.CaseTable
import Conform.Text.Class

namespace Conform.Text

/-- The run moves this character. -/
def CaseRun.covers (r : CaseRun) (code : Nat) : Bool :=
  r.first ≤ code && code ≤ r.last && (code - r.first) % r.step == 0

/-- The image of a character under a mapping given by runs. -/
def mapCode (runs : List CaseRun) (code : Nat) : Nat :=
  match runs.find? (·.covers code) with
  | some r => (code + r.offset).toNat
  | none => code

/-- The characters that a mapping given by runs sends to this one, itself apart. -/
def sources (runs : List CaseRun) (code : Nat) : List Nat :=
  runs.filterMap fun r =>
    let source := (code - r.offset : Int).toNat
    if r.covers source && (source + r.offset : Int) == code then some source else none

/-- The simple lower case of a character. -/
def lowerCode (code : Nat) : Nat :=
  if code < 128 then (if 65 ≤ code ∧ code ≤ 90 then code + 32 else code)
  else mapCode toLowerRuns code

/-- The simple lower case of a character. -/
def lowerChar (c : Char) : Char :=
  Char.ofNat (lowerCode c.toNat)

/-- The simple case mappings move the character. -/
def hasCase (code : Nat) : Bool :=
  toLowerRuns.any (·.covers code) || toUpperRuns.any (·.covers code) || casedSpecial.contains code

/-- Some character of the inclusive range is moved by a run. -/
def CaseRun.meets (r : CaseRun) (lo hi : Nat) : Bool :=
  let from_ := if lo ≤ r.first then r.first else lo + (r.step - (lo - r.first) % r.step) % r.step
  decide (from_ ≤ hi) && decide (from_ ≤ r.last)

/-- Some character of the inclusive range is moved by the simple case mappings. -/
def rangeHasCase (lo hi : Nat) : Bool :=
  toLowerRuns.any (·.meets lo hi) || toUpperRuns.any (·.meets lo hi) ||
    casedSpecial.any fun c => lo ≤ c && c ≤ hi

/-- The upper case of a character. -/
def upperOf (c : Char) : List Char :=
  if c.toNat < 128 then [c.toUpper]
  else match toUpperSpecial.find? (·.1 == c.toNat) with
    | some (_, codes) => codes.map Char.ofNat
    | none => [Char.ofNat (mapCode toUpperRuns c.toNat)]

/-- The text in upper case. -/
def toUpper (s : List Char) : List Char :=
  s.flatMap upperOf

/-- Skipping what case ignores, the next character is a letter with case. -/
def meetsCased (s : List Char) : Bool :=
  match s.dropWhile fun c => inRanges caseIgnorableRanges c.toNat with
  | c :: _ => inRanges casedRanges c.toNat
  | [] => false

/-- Between the reversed text `before` and the text `after` a word ends: a letter comes before and
none follows. -/
def endsWord (before after : List Char) : Bool :=
  meetsCased before && !meetsCased after

/-- The lower case of a text whose characters up to it are `before`, reversed. -/
def lowerAfter (before : List Char) : List Char → List Char
  | [] => []
  | c :: rest =>
    (if c.toNat == 0x3A3 then [if endsWord before rest then 'ς' else 'σ']
     else if c.toNat == 0x130 then ['i', Char.ofNat 0x307]
     else [lowerChar c]) ++ lowerAfter (c :: before) rest

/-- The text in lower case. -/
def toLower (s : List Char) : List Char :=
  lowerAfter [] s

/-- Some letter has upper case and none has lower or title case. -/
def isUpper (s : List Char) : Bool :=
  s.any (fun c => inRanges upperRanges c.toNat) &&
    !s.any fun c => inRanges lowerRanges c.toNat || inRanges titleRanges c.toNat

end Conform.Text
