/-
  Conform/Value/Mapping.lean
  ==========================
  **Mappings and sets as lists.**  Entries keep the order in which their keys
  first came; writing under a key that is there already keeps the place and
  the key, and changes the value.
-/
import Conform.Value.Equality

namespace Conform.Value

/-- Entries of a mapping, in order. -/
abbrev Entries := List (Value × Value)

namespace Entries

/-- The value under a key. -/
def get? (entries : Entries) (key : Value) : Option Value :=
  (entries.find? fun e => e.1.keyEq key).map (·.2)

/-- The key is there. -/
def contains (entries : Entries) (key : Value) : Bool :=
  entries.any fun e => e.1.keyEq key

/-- Writes a value under a key. -/
def insert : Entries → Value → Value → Entries
  | [], key, value => [(key, value)]
  | (k, v) :: rest, key, value =>
    if k.keyEq key then (k, value) :: rest else (k, v) :: insert rest key value

/-- Removes the entry under a key. -/
def erase : Entries → Value → Entries
  | [], _ => []
  | (k, v) :: rest, key => if k.keyEq key then rest else (k, v) :: erase rest key

/-- Writes entries one after another. -/
def insertAll (entries more : Entries) : Entries :=
  more.foldl (fun acc e => acc.insert e.1 e.2) entries

/-- The mapping with these entries, written one after another. -/
def ofList (entries : Entries) : Entries :=
  insertAll [] entries

/-- The keys in order. -/
def keys (entries : Entries) : List Value :=
  entries.map (·.1)

/-! ### Looking up and writing -/

/-- A key is there exactly when there is a value under it. -/
theorem contains_eq_isSome (entries : Entries) (key : Value) :
    entries.contains key = (entries.get? key).isSome := by
  induction entries with
  | nil => rfl
  | cons e rest ih =>
    simp only [contains, get?] at ih
    by_cases h : e.1.keyEq key <;> simp [contains, get?, h, ih]

/-- A new key comes last. -/
theorem insert_of_not_contains {entries : Entries} {key : Value} (v : Value)
    (h : entries.contains key = false) : entries.insert key v = entries ++ [(key, v)] := by
  induction entries with
  | nil => rfl
  | cons e rest ih =>
    simp only [contains, List.any_cons, Bool.or_eq_false_iff] at h
    simp [insert, h.1, ih h.2]

/-- Writing under a key that is there changes no key and no place. -/
theorem keys_insert_of_contains {entries : Entries} {key : Value} (v : Value)
    (h : entries.contains key = true) : (entries.insert key v).keys = entries.keys := by
  induction entries with
  | nil => simp [contains] at h
  | cons e rest ih =>
    by_cases hk : e.1.keyEq key
    · simp [insert, keys, hk]
    · have hr : contains rest key = true := by simpa [contains, hk] using h
      have hkeys := ih hr
      simp only [keys] at hkeys
      simp [insert, keys, hk, hkeys]

/-- There is nothing to remove under a key that is not there. -/
theorem erase_of_not_contains {entries : Entries} {key : Value}
    (h : entries.contains key = false) : entries.erase key = entries := by
  induction entries with
  | nil => rfl
  | cons e rest ih =>
    simp only [contains, List.any_cons, Bool.or_eq_false_iff] at h
    simp [erase, h.1, ih h.2]

end Entries

/-- Adds a member to a set unless it is there. -/
def addMember (items : List Value) (x : Value) : List Value :=
  if items.any (·.keyEq x) then items else items ++ [x]

/-- The set of these items. -/
def members (items : List Value) : List Value :=
  items.foldl addMember []

/-- The set of items, all of which have to be able to be members. -/
def toMembers (items : List Value) : Except Fault (List Value) :=
  if allHashable items then .ok (members items) else .error .unhashable

end Conform.Value
