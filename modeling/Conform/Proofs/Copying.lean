/-
  Conform/Proofs/Copying.lean
  ===========================
  **Mappings that are written over.**  A map goes over the entries that it was
  given and changes a copy of them meanwhile: an entry is written in its place when
  the new key keeps the old one, and otherwise it is removed, and written under the
  new key.  So an entry of the copy is not always the one that a step speaks of: the
  keys of two entries may become one.

  What holds of every entry in the end is carried by an invariant which says of each
  entry that it is done or still to come (`Value.Entries.Kept`).
-/
import Conform.Proofs.Keys
import Conform.Proofs.TotalKeys

namespace Conform

namespace Value.Entries

variable {objects : Nat → Value} {entries : Entries} {key : Value}

/-! ### Entries under distinct keys -/

/-- Where a key is: the entries before, the first entry under it, and the entries after. -/
theorem exists_split (h : entries.contains key = true) :
    ∃ before e after, entries = before ++ e :: after ∧ (∀ d ∈ before, d.1.keyEq key = false) ∧
      e.1.keyEq key = true ∧ (∀ v, entries.insert key v = before ++ (e.1, v) :: after) ∧
      entries.erase key = before ++ after := by
  induction entries with
  | nil => cases h
  | cons e rest ih =>
    cases hkey : e.1.keyEq key with
    | true =>
      exact ⟨[], e, rest, rfl, by simp, hkey, fun v => by simp [insert, hkey], by simp [erase, hkey]⟩
    | false =>
      have hrest : contains rest key = true := by simpa [contains, hkey] using h
      obtain ⟨before, d, after, rfl, hbefore, hd, hinsert, herase⟩ := ih hrest
      refine ⟨e :: before, d, after, rfl, List.forall_mem_cons.mpr ⟨hkey, hbefore⟩, hd,
        fun v => ?_, ?_⟩
      · simp [insert, hkey, hinsert]
      · simp [erase, hkey, herase]

/-- The keys of all entries can be keys, and no two are one. -/
structure Keyed (objects : Nat → Value) (entries : Entries) : Prop where
  apart : entries.Apart
  keyable : ∀ k ∈ entries.keys, k.Keyable objects

theorem Keyed.of_forall (hapart : entries.Apart) (h : ∀ e ∈ entries, e.1.Keyable objects) :
    entries.Keyed objects where
  apart := hapart
  keyable := List.forall_mem_map.mpr h

theorem Keyed.nil : Keyed objects [] :=
  ⟨List.Pairwise.nil, fun k hk => (by cases hk)⟩

theorem Keyed.sublist {more : Entries} (h : more.Keyed objects) (hs : entries.Sublist more) :
    entries.Keyed objects :=
  ⟨h.apart.sublist (hs.map _), fun k hk => h.keyable k ((hs.map _).subset hk)⟩

theorem Keyed.mem (h : entries.Keyed objects) {e : Value × Value} (he : e ∈ entries) :
    e.1.Keyable objects :=
  h.keyable e.1 (List.mem_map_of_mem he)

/-- Only one entry is under a key. -/
theorem Keyed.split (h : entries.Keyed objects) (hkey : key.Keyable objects)
    (hcontains : entries.contains key = true) :
    ∃ before e after, entries = before ++ e :: after ∧ e.1.keyEq key = true ∧
      (∀ d ∈ before ++ after, d.1.keyEq key = false) ∧
      (∀ v, entries.insert key v = before ++ (e.1, v) :: after) ∧
      entries.erase key = before ++ after := by
  obtain ⟨before, e, after, rfl, hbefore, he, hinsert, herase⟩ := exists_split hcontains
  refine ⟨before, e, after, rfl, he, fun d hd => ?_, hinsert, herase⟩
  rcases List.mem_append.mp hd with hd | hd
  · exact hbefore d hd
  · have hapart : e.1.keyEq d.1 = false := by
      have hpairs := h.apart.sublist ((List.sublist_append_right before (e :: after)).map _)
      exact List.rel_of_pairwise_cons hpairs (List.mem_map_of_mem hd)
    have hkeyable : d.1.Keyable objects := h.mem (by simp [hd])
    cases hdkey : d.1.keyEq key with
    | false => rfl
    | true =>
      have htrans := keyEq_trans (h.mem (by simp)) hkey hkeyable he (keyEq_symm hkeyable hkey hdkey)
      rw [hapart] at htrans
      cases htrans

theorem Keyed.eq_of_keyEq (h : entries.Keyed objects) {e f : Value × Value} (he : e ∈ entries)
    (hf : f ∈ entries) (hkey : key.Keyable objects) (hsame : e.1.keyEq key = true)
    (hsame' : f.1.keyEq key = true) : e = f := by
  obtain ⟨before, d, after, rfl, -, hothers, -, -⟩ := h.split hkey (contains_of_mem he hsame)
  have heq {c : Value × Value} (hc : c ∈ before ++ d :: after) (hsame : c.1.keyEq key = true) :
      c = d := by
    have hne (hmem : c ∈ before ++ after) : False := by
      cases (hothers c hmem).symm.trans hsame
    rcases List.mem_append.mp hc with hmem | hmem
    · exact (hne (List.mem_append_left _ hmem)).elim
    · rcases List.mem_cons.mp hmem with heq | hmem
      · exact heq
      · exact (hne (List.mem_append_right _ hmem)).elim
  rw [heq he hsame, heq hf hsame']

theorem Keyed.insert_self (h : entries.Keyed objects) {e : Value × Value} (he : e ∈ entries)
    (hkey : key.Keyable objects) (hsame : e.1.keyEq key = true) :
    entries.insert key e.2 = entries := by
  obtain ⟨before, d, after, heq, hd, -, hinsert, -⟩ :=
    h.split hkey (contains_of_mem he hsame)
  have hde : e = d := h.eq_of_keyEq he (by rw [heq]; simp) hkey hsame hd
  rw [hinsert, hde, heq]

theorem Keyed.get?_of_mem (h : entries.Keyed objects) {e : Value × Value} (he : e ∈ entries)
    (hself : e.1.keyEq e.1 = true) : entries.get? e.1 = some e.2 := by
  have hcontains := contains_of_mem he hself
  rw [contains_eq_isSome, Option.isSome_iff_exists] at hcontains
  obtain ⟨v, hv⟩ := hcontains
  obtain ⟨d, hd, rfl⟩ := Option.map_eq_some_iff.mp hv
  have hde : d = e := h.eq_of_keyEq (List.mem_of_find?_eq_some hd) he (h.mem he)
    (by simpa using List.find?_some hd) hself
  rw [hv, hde]

theorem get?_eq_none (h : ∀ d ∈ entries, d.1.keyEq key = false) : entries.get? key = none := by
  rw [get?, Option.map_eq_none_iff, List.find?_eq_none]
  intro d hd
  rw [h d hd]
  exact Bool.false_ne_true

theorem Keyed.insert (h : entries.Keyed objects) (hkey : key.Keyable objects) (v : Value) :
    (entries.insert key v).Keyed objects := by
  cases hcontains : entries.contains key with
  | true =>
    have hkeys := keys_insert_of_contains v hcontains
    exact ⟨by rw [Apart, hkeys]; exact h.apart, by rw [hkeys]; exact h.keyable⟩
  | false =>
    have hkeys : (entries.insert key v).keys = entries.keys ++ [key] := by
      rw [insert_of_not_contains v hcontains]
      exact List.map_append ..
    refine ⟨?_, ?_⟩
    · rw [Apart, hkeys, List.pairwise_append]
      refine ⟨h.apart, List.pairwise_singleton _ _, fun k hk l hl => ?_⟩
      obtain ⟨d, hd, rfl⟩ := List.mem_map.mp hk
      rw [List.mem_singleton.mp hl]
      simpa using List.any_eq_false.mp hcontains d hd
    · rw [hkeys, List.forall_mem_append, List.forall_mem_singleton]
      exact ⟨h.keyable, hkey⟩

theorem mem_of_mem_erase {f : Value × Value} (hf : f ∈ entries.erase key) : f ∈ entries := by
  cases hcontains : entries.contains key with
  | true =>
    obtain ⟨before, d, after, rfl, -, -, -, herase⟩ := exists_split hcontains
    rw [herase] at hf
    simp only [List.mem_append, List.mem_cons] at hf ⊢
    exact hf.imp_right .inr
  | false => rwa [erase_of_not_contains hcontains] at hf

theorem Keyed.mem_erase (h : entries.Keyed objects) (hkey : key.Keyable objects)
    {f : Value × Value} (hf : f ∈ entries.erase key) : f ∈ entries ∧ f.1.keyEq key = false := by
  refine ⟨mem_of_mem_erase hf, ?_⟩
  cases hcontains : entries.contains key with
  | true =>
    obtain ⟨before, d, after, -, -, hothers, -, herase⟩ := h.split hkey hcontains
    rw [herase] at hf
    exact hothers f hf
  | false =>
    rw [erase_of_not_contains hcontains] at hf
    simpa using List.any_eq_false.mp hcontains f hf

/-- After something is written, there are the entries under other keys and the one written, under
the key that was there or under the new one. -/
theorem mem_insert {v : Value} {f : Value × Value} (hf : f ∈ entries.insert key v) :
    f ∈ entries.erase key ∨ f.2 = v ∧ (f.1 = key ∨ ∃ d ∈ entries, f.1 = d.1) := by
  cases hcontains : entries.contains key with
  | true =>
    obtain ⟨before, d, after, hentries, -, -, hinsert, herase⟩ := exists_split hcontains
    rw [hinsert, List.mem_append, List.mem_cons] at hf
    rw [herase, List.mem_append]
    rcases hf with hf | rfl | hf
    · exact .inl (.inl hf)
    · exact .inr ⟨rfl, .inr ⟨d, by rw [hentries]; simp, rfl⟩⟩
    · exact .inl (.inr hf)
  | false =>
    rw [insert_of_not_contains v hcontains, List.mem_append, List.mem_singleton] at hf
    rw [erase_of_not_contains hcontains]
    rcases hf with hf | rfl
    · exact .inl hf
    · exact .inr ⟨rfl, .inl rfl⟩

theorem length_insert_of_contains (v : Value) (h : entries.contains key = true) :
    (entries.insert key v).length = entries.length := by
  have hkeys := congrArg List.length (keys_insert_of_contains v h)
  simpa [keys] using hkeys

theorem length_insert_le (v : Value) : (entries.insert key v).length ≤ entries.length + 1 := by
  cases h : entries.contains key with
  | true => rw [length_insert_of_contains v h]; exact Nat.le_succ _
  | false => rw [insert_of_not_contains v h]; simp

theorem length_erase_of_contains (h : entries.contains key = true) :
    (entries.erase key).length + 1 = entries.length := by
  obtain ⟨before, d, after, rfl, -, -, -, herase⟩ := exists_split h
  rw [herase]
  simp only [List.length_append, List.length_cons]
  omega

/-! ### Entries that are done or still to come -/

/-- A copy of a mapping while entries are still to come.  A key of the copy has been settled, or is
that of an entry to come; a value has been settled, or its entry is still to come as it is. -/
structure Kept (objects : Nat → Value) (K V : Value → Prop) (size : Nat)
    (rest entries : Entries) : Prop where
  keyed : entries.Keyed objects
  keys : ∀ e ∈ entries, K e.1 ∨ ∃ v, (e.1, v) ∈ rest
  values : ∀ e ∈ entries, V e.2 ∨ e ∈ rest
  coming : ∀ e ∈ rest, ∃ v, (e.1, v) ∈ entries
  size : entries.length ≤ size

variable {K V : Value → Prop} {size : Nat} {e : Value × Value} {rest : Entries}

theorem Kept.start (h : entries.Keyed objects) : Kept objects K V entries.length entries entries where
  keyed := h
  keys e he := .inr ⟨e.2, he⟩
  values _ he := .inr he
  coming e he := ⟨e.2, he⟩
  size := Nat.le_refl _

/-- A key is settled with the entry at hand. -/
theorem Kept.key_of_cons (h : Kept objects K V size (e :: rest) entries) {d : Value × Value}
    (hd : d ∈ entries) (hkey : d.1 = e.1 → K d.1) : K d.1 ∨ ∃ v, (d.1, v) ∈ rest := by
  rcases h.keys d hd with hdone | ⟨v, hv⟩
  · exact .inl hdone
  · rcases List.mem_cons.mp hv with heq | hv
    · exact .inl (hkey (congrArg (·.1) heq))
    · exact .inr ⟨v, hv⟩

theorem Kept.value_of_cons (h : Kept objects K V size (e :: rest) entries) {d : Value × Value}
    (hd : d ∈ entries) (hvalue : d = e → V d.2) : V d.2 ∨ d ∈ rest := by
  rcases h.values d hd with hdone | hd
  · exact .inl hdone
  · exact (List.mem_cons.mp hd).imp_left hvalue

theorem Kept.skip (h : Kept objects K V size (e :: rest) entries) (hkey : K e.1) (hvalue : V e.2) :
    Kept objects K V size rest entries where
  keyed := h.keyed
  keys _ hd := h.key_of_cons hd fun heq => heq ▸ hkey
  values _ hd := h.value_of_cons hd fun heq => heq ▸ hvalue
  coming d hd := h.coming d (List.mem_cons_of_mem e hd)
  size := h.size

theorem Kept.erase (h : Kept objects K V size (e :: rest) entries)
    (hrest : Keyed objects (e :: rest)) (hkey : key.Keyable objects)
    (hsame : e.1.keyEq key = true) (hcontains : entries.contains key = true) :
    ∃ n, size = n + 1 ∧ Kept objects K V n rest (entries.erase key) := by
  have hlength := length_erase_of_contains hcontains
  have hsize := h.size
  have hne {d : Value × Value} (hd : d ∈ entries.erase key) : d.1 ≠ e.1 := by
    intro heq
    have hother := (h.keyed.mem_erase hkey hd).2
    rw [heq, hsame] at hother
    cases hother
  refine ⟨size - 1, by omega, h.keyed.sublist ?_, fun d hd => ?_, fun d hd => ?_, fun f hf => ?_,
    by omega⟩
  · obtain ⟨before, d, after, rfl, -, -, -, herase⟩ := exists_split hcontains
    rw [herase]
    exact (List.Sublist.refl before).append (List.sublist_cons_self d after)
  · exact h.key_of_cons (h.keyed.mem_erase hkey hd).1 fun heq => (hne hd heq).elim
  · exact h.value_of_cons (h.keyed.mem_erase hkey hd).1 fun heq =>
      (hne hd (congrArg Prod.fst heq)).elim
  · obtain ⟨w, hw⟩ := h.coming f (List.mem_cons_of_mem e hf)
    refine ⟨w, mem_erase_of_keyEq hw ?_⟩
    have hfkey : f.1.Keyable objects := hrest.mem (List.mem_cons_of_mem e hf)
    cases hother : f.1.keyEq key with
    | false => rfl
    | true =>
      have htrans := keyEq_trans (hrest.mem List.mem_cons_self) hkey hfkey hsame
        (keyEq_symm hfkey hkey hother)
      rw [List.rel_of_pairwise_cons hrest.apart (List.mem_map_of_mem hf)] at htrans
      cases htrans

/-- A settled value is written under a settled key. -/
theorem Kept.write (h : Kept objects K V size rest entries) (hkey : key.Keyable objects)
    (hsettled : K key) {v : Value} (hvalue : V v) :
    Kept objects K V (size + 1) rest (entries.insert key v) := by
  refine ⟨h.keyed.insert hkey v, fun f hf => ?_, fun f hf => ?_, fun f hf => ?_,
    (length_insert_le v).trans (Nat.succ_le_succ h.size)⟩
  · rcases mem_insert hf with hf | ⟨-, heq | ⟨d, hd, heq⟩⟩
    · exact h.keys f (h.keyed.mem_erase hkey hf).1
    · exact .inl (heq ▸ hsettled)
    · rw [heq]
      exact h.keys d hd
  · rcases mem_insert hf with hf | ⟨heq, -⟩
    · exact h.values f (h.keyed.mem_erase hkey hf).1
    · exact .inl (heq ▸ hvalue)
  · obtain ⟨w, hw⟩ := h.coming f hf
    exact exists_mem_insert hw

/-- An entry is removed, and written under another key. -/
theorem Kept.move (h : Kept objects K V size (e :: rest) entries)
    (hrest : Keyed objects (e :: rest)) (hcontains : entries.contains e.1 = true)
    (hkey : key.Keyable objects) (hsettled : K key) {v : Value} (hvalue : V v) :
    Kept objects K V size rest ((entries.erase e.1).insert key v) := by
  have he : e.1.Keyable objects := hrest.mem List.mem_cons_self
  obtain ⟨before, d, after, hentries, hdkey, -⟩ := h.keyed.split he hcontains
  have hd : d.1.Keyable objects := h.keyed.mem (by rw [hentries]; simp)
  have hself : e.1.keyEq e.1 = true := keyEq_trans he hd he (keyEq_symm hd he hdkey) hdkey
  obtain ⟨n, rfl, hleft⟩ := h.erase hrest he hself hcontains
  exact hleft.write hkey hsettled hvalue

/-- A value is written under an equal key, which is kept. -/
theorem Kept.overwrite (h : Kept objects K V size (e :: rest) entries)
    (hrest : Keyed objects (e :: rest)) (hkey : key.Keyable objects)
    (hsame : e.1.keyEq key = true) (hsettled : K e.1) (hnew : K key) {v : Value} (hvalue : V v) :
    Kept objects K V size rest (entries.insert key v) := by
  obtain ⟨w, hw⟩ := h.coming e List.mem_cons_self
  have hcontains := contains_of_mem hw hsame
  obtain ⟨n, -, hleft⟩ := h.erase hrest hkey hsame hcontains
  refine ⟨h.keyed.insert hkey v, fun f hf => ?_, fun f hf => ?_, fun f hf => ?_, ?_⟩
  · rcases mem_insert hf with hf | ⟨-, heq | ⟨d, hd, heq⟩⟩
    · exact hleft.keys f hf
    · exact .inl (heq ▸ hnew)
    · rw [heq]
      exact h.key_of_cons hd fun heq => heq ▸ hsettled
  · rcases mem_insert hf with hf | ⟨heq, -⟩
    · exact hleft.values f hf
    · exact .inl (heq ▸ hvalue)
  · obtain ⟨u, hu⟩ := h.coming f (List.mem_cons_of_mem e hf)
    exact exists_mem_insert hu
  · rw [length_insert_of_contains v hcontains]
    exact h.size

end Value.Entries

/-! ### Writing over a mapping -/

namespace Borrowed

variable {objects : Nat → Value} {key newKey v : Value}

theorem keeps_iff : keeps key newKey = .ok true ↔
    newKey.typeOf = key.typeOf ∧ newKey.eq key = .ok true := by
  unfold keeps
  split
  · next h => exact (and_iff_right (eq_of_beq h)).symm
  · next h => simp [beq_iff_eq.not.mp h]

theorem write_ok {b b' : Borrowed} (h : b.write key v = .ok b') :
    key.isHashable = true ∧ b'.value = .ofMapping b'.entries ∧
      b'.entries = b.entries.insert key v := by
  unfold write at h
  split at h
  · next hhashable =>
    cases h
    exact ⟨hhashable, rfl, rfl⟩
  · cases h

theorem remove_ok {b b' : Borrowed} (h : b.remove key = .ok b') :
    b.entries.contains key = true ∧ b'.value = .ofMapping b'.entries ∧
      b'.entries = b.entries.erase key := by
  unfold remove at h
  split at h
  · cases h
  · split at h
    · next hcontains =>
      cases h
      exact ⟨hcontains, rfl, rfl⟩
    · cases h

/-- An entry that is replaced without a fault is written in its place, or removed and written under
the new key. -/
theorem cases_of_replace {b b' : Borrowed} (h : b.replace key newKey v = (b', none)) :
    newKey.isHashable = true ∧ b'.value = .ofMapping b'.entries ∧
      ((keeps key newKey = .ok true ∧ b'.entries = b.entries.insert newKey v) ∨
        (keeps key newKey = .ok false ∧ b.entries.contains key = true ∧
          b'.entries = (b.entries.erase key).insert newKey v)) := by
  unfold replace at h
  dsimp only at h
  split at h
  · cases h
  · next c hc =>
    split at h
    · next d hwrite =>
      cases h
      obtain ⟨hhashable, hvalue, hentries⟩ := write_ok hwrite
      refine ⟨hhashable, hvalue, ?_⟩
      rw [hentries]
      split at hc
      · next hkeeps =>
        cases hc
        exact .inl ⟨hkeeps, by rw [entries_own]⟩
      · next hkeeps =>
        obtain ⟨hcontains, -, herase⟩ := remove_ok hc
        rw [entries_own] at hcontains herase
        exact .inr ⟨hkeeps, hcontains, by rw [herase]⟩
      · cases hc
    · cases h

/-- What is left when an entry is replaced, also by a fault: the copy itself, the copy without the
entry, or either of them with a new one. -/
theorem value_of_replace (b : Borrowed) (key newKey v : Value) :
    let c := (b.replace key newKey v).1
    c = b.own ∨ c.value = .ofMapping (b.entries.erase key) ∨ newKey.isHashable = true ∧
      ∃ es, (es = b.entries ∨ es = b.entries.erase key) ∧ c.value = .ofMapping (es.insert newKey v) := by
  unfold replace
  dsimp only
  split
  · exact .inl rfl
  · next c hc =>
    -- what is left before the new entry is written
    have hleft : (c = b.own ∨ c.value = .ofMapping (b.entries.erase key)) ∧
        (c.entries = b.entries ∨ c.entries = b.entries.erase key) := by
      split at hc
      · cases hc
        exact ⟨.inl rfl, .inl b.entries_own⟩
      · obtain ⟨-, hvalue, herase⟩ := remove_ok hc
        rw [entries_own] at herase
        exact ⟨.inr (herase ▸ hvalue), .inr herase⟩
      · cases hc
    split
    · next d hd =>
      obtain ⟨hhashable, hvalue, hinsert⟩ := write_ok hd
      exact .inr (.inr ⟨hhashable, c.entries, hleft.2, hinsert ▸ hvalue⟩)
    · exact hleft.1.imp_right .inl

/-- An entry that is written as it is leaves the mapping as it is. -/
theorem replace_self {entries : Value.Entries} (h : entries.Keyed objects) {e : Value × Value}
    (he : e ∈ entries) (hkey : newKey.Keyable objects) (hkeeps : keeps e.1 newKey = .ok true)
    (owned : Bool) :
    (⟨.ofMapping entries, owned⟩ : Borrowed).replace e.1 newKey e.2 =
      (⟨.ofMapping entries, true⟩, none) := by
  have hsame : e.1.keyEq newKey = true :=
    Value.keyEq_symm hkey (h.mem he) (Value.keyEq_iff.mpr (.inr (keeps_iff.mp hkeeps).2))
  have hown : (⟨.ofMapping entries, owned⟩ : Borrowed).own = ⟨.ofMapping entries, true⟩ := by
    cases owned <;> rfl
  have hentries : (⟨.ofMapping entries, true⟩ : Borrowed).entries = entries := rfl
  unfold replace
  simp only [hown, hkeeps, write, hkey.isHashable, hentries, h.insert_self he hkey hsame, if_true]
  rfl

end Borrowed

end Conform
