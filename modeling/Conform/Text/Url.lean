/-
  Conform/Text/Url.lean
  =====================
  **Splitting addresses** into the scheme and the authority that names the
  host.  Only what decides whether an address is absolute is looked at; path,
  query and fragment are free.
-/
import Conform.Text.Case

namespace Conform.Text.Url

/-- The parts of an address that say where it leads. -/
structure Parts where
  scheme : List Char
  authority : List Char
deriving DecidableEq, Repr

/-- An ASCII letter. -/
def isLetter (c : Char) : Bool :=
  ('a' ≤ c ∧ c ≤ 'z') || ('A' ≤ c ∧ c ≤ 'Z')

/-- A character of a scheme. -/
def isSchemeChar (c : Char) : Bool :=
  isLetter c || ('0' ≤ c ∧ c ≤ '9') || c == '+' || c == '-' || c == '.'

/-- Characters that are dropped wherever they stand. -/
def isDropped (c : Char) : Bool :=
  c == '\t' || c == '\r' || c == '\n'

/-- Characters whose compatibility form holds a delimiter of addresses. -/
def disguised : List Nat :=
  [0x2047, 0x2048, 0x2049, 0x2100, 0x2101, 0x2105, 0x2106, 0x2A74, 0xFE13, 0xFE16, 0xFE55, 0xFE56,
   0xFE5F, 0xFE6B, 0xFF03, 0xFF0F, 0xFF1A, 0xFF1F, 0xFF20]

/-- The scheme in lower case and what follows its colon; an address without a scheme as it is. -/
def takeScheme (s : List Char) : List Char × List Char :=
  let head := s.takeWhile (· != ':')
  match head, s.drop head.length with
  | first :: _, _ :: rest =>
    if isLetter first && head.all isSchemeChar then (toLower head, rest) else ([], s)
  | _, _ => ([], s)

/-- The authority behind two slashes. -/
def takeAuthority : List Char → List Char
  | '/' :: '/' :: rest => rest.takeWhile fun c => c != '/' && c != '?' && c != '#'
  | _ => []

/-- The parts of an address; nothing when the authority has a bracket without its partner or hides
a delimiter. -/
def split? (s : List Char) : Option Parts :=
  let (scheme, rest) := takeScheme (s.filter fun c => !isDropped c)
  let authority := takeAuthority rest
  if authority.contains '[' != authority.contains ']' then none
  else if authority.any fun c => disguised.contains c.toNat then none
  else some ⟨scheme, authority⟩

/-- The scheme of an address that has a scheme and an authority. -/
def absoluteScheme? (s : List Char) : Option (List Char) :=
  match split? s with
  | some ⟨scheme, authority⟩ =>
    if scheme.isEmpty || authority.isEmpty then none else some scheme
  | none => none

end Conform.Text.Url
