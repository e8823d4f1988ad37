/-
  Conform/Text/Address.lean
  =========================
  **Mail addresses and identifiers of fixed form.**  Both are recognised by
  cutting the text into runs at its separators, which are never characters of
  a run.  One line break at the very end of the text is allowed.
-/
import Conform.Text.Case

namespace Conform.Text

/-- A text without one line break at its end. -/
def withoutFinalBreak (s : List Char) : List Char :=
  match s.getLast? with
  | some '\n' => s.dropLast
  | _ => s

/-- The runs of a text between separators, with the separators: the first run, and each separator
with the run behind it. -/
def runs (isSeparator : Char → Bool) : List Char → List Char × List (Char × List Char)
  | [] => ([], [])
  | c :: rest =>
    let (first, more) := runs isSeparator rest
    if isSeparator c then ([], (c, first) :: more) else (c :: first, more)

/-! ### Mail addresses -/

/-- A letter from a to z in either case, or one that differs from such a letter in case alone. -/
def isFoldedLetter (c : Char) : Bool :=
  ('a' ≤ c ∧ c ≤ 'z') || ('A' ≤ c ∧ c ≤ 'Z') ||
    c.toNat == 0x130 || c.toNat == 0x131 || c.toNat == 0x17F || c.toNat == 0x212A

/-- A character of the part of a mail address before the at sign. -/
def isLocalChar (c : Char) : Bool :=
  isWord c || c == '+' || c == '-'

/-- A character of a domain name. -/
def isDomainChar (c : Char) : Bool :=
  isDecimal c || isFoldedLetter c

/-- A run that is not empty and has only characters of a class. -/
def isRun (allowed : Char → Bool) (run : List Char) : Bool :=
  !run.isEmpty && run.all allowed

/-- Runs joined by single dots. -/
def isLocalPart (s : List Char) : Bool :=
  let (first, more) := runs (· == '.') s
  isRun isLocalChar first && more.all fun r => isRun isLocalChar r.2

/-- Two or more runs joined by single dots and hyphens, the last of which are a dot and a run of at
least two letters. -/
def isDomain (s : List Char) : Bool :=
  let (first, more) := runs (fun c => c == '.' || c == '-') s
  isRun isDomainChar first && (more.all fun r => isRun isDomainChar r.2) &&
    match more.getLast? with
    | some (separator, last) =>
      separator == '.' && 2 ≤ last.length && last.all isFoldedLetter
    | none => false

/-- A mail address: a local part, an at sign, and a domain. -/
def isMailAddress (s : List Char) : Bool :=
  match runs (· == '@') (withoutFinalBreak s) with
  | (name, [(_, domain)]) => isLocalPart name && isDomain domain
  | _ => false

/-! ### Identifiers -/

/-- A digit of an identifier: a decimal digit of any script or a letter from a to f. -/
def isIdentifierDigit (c : Char) : Bool :=
  isDecimal c || ('a' ≤ c ∧ c ≤ 'f') || ('A' ≤ c ∧ c ≤ 'F')

/-- The sizes of the groups of an identifier. -/
def identifierGroups : List Nat := [8, 4, 4, 4, 12]

/-- An identifier: groups of digits of the prescribed sizes, joined by hyphens. -/
def isIdentifier (s : List Char) : Bool :=
  let (first, more) := runs (· == '-') (withoutFinalBreak s)
  let groups := first :: more.map (·.2)
  groups.map List.length == identifierGroups && groups.all fun g => g.all isIdentifierDigit

end Conform.Text
