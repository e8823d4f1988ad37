/-
  Conform/Proofs/Merging.lean
  ===========================
  **Merging, as a whole.**  Outputs are merged pairwise, into the first of them.  Of all
  of them together it can be said what comes of it: mappings are combined, so that each
  key is where it appears first, with the value of the last mapping that has it
  (`Combines`); and all other outputs have to be strictly equal to the first
  (`merges_of_mergeAll?`).

  Writing mappings over mappings is associative (`insertAll_insertAll`), since a key that
  has been written stays where it is.
-/
import Conform.Proofs.Arrangement
import Conform.Proofs.Totality

namespace Conform

/-- The value is the object of its number, and its keys are told apart if it is a mapping. -/
structure Value.Orderly (objects : Nat → Value) (v : Value) : Prop where
  held : v.Held objects
  keyed : ∀ entries : Value.Entries, v.entries? = some entries → entries.Keyed objects

/-! ### Writing mappings over mappings -/

namespace Value.Entries

variable {objects : Nat → Value} {entries more : Entries} {key v w : Value} {e : Value × Value}

theorem Keyed.insertAll (h : entries.Keyed objects) (hmore : ∀ e ∈ more, e.1.Keyable objects) :
    (entries.insertAll more).Keyed objects := by
  induction more generalizing entries with
  | nil => exact h
  | cons e rest ih =>
    rw [List.forall_mem_cons] at hmore
    exact ih (h.insert hmore.1 e.2) hmore.2

theorem keys_insert (entries : Entries) (key v : Value) :
    (entries.insert key v).keys = addMember entries.keys key := by
  have hany : entries.keys.any (·.keyEq key) = entries.contains key := List.any_map
  unfold addMember
  rw [hany]
  cases hcontains : entries.contains key with
  | true => exact keys_insert_of_contains v hcontains
  | false =>
    rw [insert_of_not_contains v hcontains]
    exact List.map_append

/-- The keys after writing are those before, and then the new ones as they come. -/
theorem keys_insertAll (entries more : Entries) :
    (entries.insertAll more).keys = more.keys.foldl addMember entries.keys := by
  induction more generalizing entries with
  | nil => rfl
  | cons e rest ih =>
    refine (ih _).trans ?_
    rw [keys_insert]
    rfl

/-- What holds an entry after one has been written. -/
theorem Keyed.cases_of_mem_insert (h : entries.Keyed objects) (hkey : key.Keyable objects)
    (he : e ∈ entries.insert key v) :
    (e ∈ entries ∧ e.1.keyEq key = false) ∨ e = (key, v) ∨ e.1.keyEq key = true ∧ e.2 = v := by
  cases hcontains : entries.contains key with
  | false =>
    rw [insert_of_not_contains v hcontains, List.mem_append, List.mem_singleton] at he
    refine he.imp (fun he => ⟨he, ?_⟩) .inl
    simpa using List.any_eq_false.mp hcontains e he
  | true =>
    obtain ⟨before, d, after, rfl, hd, hothers, hinsert, -⟩ := h.split hkey hcontains
    rw [hinsert, List.mem_append, List.mem_cons] at he
    rcases he with he | rfl | he
    · exact .inl ⟨List.mem_append_left _ he, hothers e (List.mem_append_left _ he)⟩
    · exact .inr (.inr ⟨hd, rfl⟩)
    · exact .inl ⟨List.mem_append_right _ (List.mem_cons_of_mem d he),
        hothers e (List.mem_append_right _ he)⟩

/-- An entry is one of those that were written, or its value is that under its key. -/
def Has (entries : Entries) (e : Value × Value) : Prop :=
  e ∈ entries ∨ entries.get? e.1 = some e.2

/-- A key that is among the others is not the first one. -/
theorem Keyed.keyEq_of_contains (h : Keyed objects (e :: entries)) (hkey : key.Keyable objects)
    (hcontains : entries.contains key = true) : e.1.keyEq key = false := by
  obtain ⟨f, hf, hfkey⟩ := List.any_eq_true.mp hcontains
  have he := h.mem List.mem_cons_self
  have hf' := h.mem (List.mem_cons_of_mem e hf)
  cases hkeyEq : e.1.keyEq key with
  | false => rfl
  | true =>
    have htrans := keyEq_trans he hkey hf' hkeyEq (keyEq_symm hf' hkey hfkey)
    rw [List.rel_of_pairwise_cons h.apart (List.mem_map_of_mem hf)] at htrans
    cases htrans

/-- An entry after writing was there before under a key that is not written, or it is written. -/
theorem Keyed.cases_of_mem_insertAll (h : entries.Keyed objects) (hmore : more.Keyed objects)
    (he : e ∈ entries.insertAll more) :
    (e ∈ entries ∧ more.contains e.1 = false) ∨ more.Has e := by
  induction more generalizing entries with
  | nil => exact .inl ⟨he, rfl⟩
  | cons f rest ih =>
    have hf := hmore.mem List.mem_cons_self
    have hrest := hmore.sublist (List.sublist_cons_self f rest)
    have hkeyed := h.insertAll fun e he => hmore.mem he
    have hekey := hkeyed.mem he
    have hcontains (hne : f.1.keyEq e.1 = false) : contains (f :: rest) e.1 = contains rest e.1 := by
      simp [contains, hne]
    have hget (hne : f.1.keyEq e.1 = false) : get? (f :: rest) e.1 = get? rest e.1 := by
      simp [get?, hne]
    rcases ih (h.insert hf f.2) hrest he with ⟨he, hnone⟩ | he | hvalue
    · rcases h.cases_of_mem_insert hf he with ⟨he, hne⟩ | rfl | ⟨heq, hvalue⟩
      · have hne := keyEq_eq_false_symm hekey hf hne
        exact .inl ⟨he, by rw [hcontains hne, hnone]⟩
      · exact .inr (.inl List.mem_cons_self)
      · refine .inr (.inr ?_)
        simp [get?, keyEq_symm hekey hf heq, hvalue]
    · exact .inr (.inl (List.mem_cons_of_mem f he))
    · have hcontained : contains rest e.1 = true := by
        rw [contains_eq_isSome, hvalue]
        rfl
      exact .inr (.inr (by rw [hget (hmore.keyEq_of_contains hekey hcontained), hvalue]))

/-- The value of an entry is the one that the last of some mappings has that has its key. -/
def HasLast (parts : List Entries) (e : Value × Value) : Prop :=
  ∃ before p after, parts = before ++ p :: after ∧ Has p e ∧ ∀ q ∈ after, q.contains e.1 = false

/-- Mappings are combined: the keys are all theirs, in the order in which they appear first, each with
the value of the last mapping that has it. -/
structure Combines (parts : List Entries) (output : Entries) : Prop where
  keys : output.keys = members (parts.flatMap keys)
  values : ∀ e ∈ output, HasLast parts e

theorem keys_foldl_insertAll (first : Entries) (rest : List Entries) :
    (rest.foldl insertAll first).keys = (rest.flatMap keys).foldl addMember first.keys := by
  induction rest generalizing first with
  | nil => rfl
  | cons p rest ih => rw [List.foldl_cons, ih, keys_insertAll, List.flatMap_cons, List.foldl_append]

/-- The mapping that is last to have the key of an entry decides it: one of the others, or else the
first. -/
theorem hasLast_of_mem {first : Entries} {rest : List Entries} (hfirst : first.Keyed objects)
    (hrest : ∀ p ∈ rest, p.Keyed objects) (he : e ∈ rest.foldl insertAll first) :
    (e ∈ first ∧ ∀ q ∈ rest, q.contains e.1 = false) ∨ HasLast rest e := by
  induction rest generalizing first with
  | nil => exact .inl ⟨he, List.forall_mem_nil _⟩
  | cons p rest ih =>
    rw [List.forall_mem_cons] at hrest
    have hboth := hfirst.insertAll fun e he => hrest.1.mem he
    rcases ih hboth hrest.2 he with ⟨he, hnone⟩ | ⟨before, q, after, rfl, hhas, hnone⟩
    · rcases hfirst.cases_of_mem_insertAll hrest.1 he with ⟨he, hp⟩ | hhas
      · exact .inl ⟨he, List.forall_mem_cons.mpr ⟨hp, hnone⟩⟩
      · exact .inr ⟨[], p, rest, rfl, hhas, hnone⟩
    · exact .inr ⟨p :: before, q, after, rfl, hhas, hnone⟩

/-- Mappings that are written over the first one after another are combined. -/
theorem combines_foldl {first : Entries} {rest : List Entries} (hfirst : first.Keyed objects)
    (hrest : ∀ p ∈ rest, p.Keyed objects) :
    Combines (first :: rest) (rest.foldl insertAll first) where
  keys := by
    have hself : first.keys.foldl addMember [] = first.keys := by
      have hapart : ([] ++ first.keys).Pairwise fun k l : Value => k.keyEq l = false := hfirst.apart
      exact foldl_addMember_self hapart
    rw [keys_foldl_insertAll, List.flatMap_cons, members, List.foldl_append, hself]
  values e he := by
    rcases hasLast_of_mem hfirst hrest he with ⟨he, hnone⟩ | ⟨before, p, after, rfl, hhas, hnone⟩
    · exact ⟨[], first, rest, rfl, .inl he, hnone⟩
    · exact ⟨first :: before, p, after, rfl, hhas, hnone⟩

/-! ### Writing is associative -/

theorem insert_cons (d : Value × Value) (rest : Entries) (key v : Value) :
    Entries.insert (d :: rest) key v =
      if d.1.keyEq key then (d.1, v) :: rest else d :: rest.insert key v := rfl

/-- The later of two values under one key stays. -/
theorem insert_insert {other : Value} (hsame : key.keyEq other = true)
    (h : ∀ d ∈ entries, d.1.keyEq other = d.1.keyEq key) :
    (entries.insert key v).insert other w = entries.insert key w := by
  induction entries with
  | nil => simp [insert, hsame]
  | cons d rest ih =>
    rw [List.forall_mem_cons] at h
    cases hd : d.1.keyEq key with
    | true => simp [insert, hd, h.1.trans hd]
    | false => simp [insert, hd, h.1.trans hd, ih h.2]

/-- Writing under a key that is there does not depend on what else is written. -/
theorem insert_comm {other : Value} (hcontains : entries.contains key = true)
    (h : ∀ d ∈ entries, d.1.keyEq key = true → d.1.keyEq other = false) :
    (entries.insert other w).insert key v = (entries.insert key v).insert other w := by
  induction entries with
  | nil => cases hcontains
  | cons d rest ih =>
    rw [List.forall_mem_cons] at h
    cases hd : d.1.keyEq key with
    | true => simp [insert, hd, h.1 hd]
    | false =>
      have hrest : contains rest key = true := by simpa [contains, hd] using hcontains
      cases hother : d.1.keyEq other with
      | true => simp [insert, hd, hother]
      | false => simp [insert, hd, hother, ih hrest h.2]

theorem contains_insert (hcontains : entries.contains key = true) {other : Value} :
    (entries.insert other w).contains key = true := by
  obtain ⟨e, he, hkey⟩ := List.any_eq_true.mp hcontains
  obtain ⟨u, hu⟩ := exists_mem_insert he
  exact contains_of_mem hu hkey

/-- What has been written under a key is there under an equal one. -/
theorem Keyed.contains_insert_of_keyEq (h : entries.Keyed objects) (hkey : key.Keyable objects)
    {other : Value} (hother : other.Keyable objects) (hsame : key.keyEq other = true) :
    (entries.insert key v).contains other = true := by
  cases hcontains : entries.contains key with
  | true =>
    obtain ⟨before, e, after, rfl, he, -, hinsert, -⟩ := h.split hkey hcontains
    rw [hinsert]
    have hekey := keyEq_trans (h.mem (by simp)) hkey hother he hsame
    exact contains_of_mem (e := (e.1, v)) (by simp) hekey
  | false =>
    rw [insert_of_not_contains v hcontains]
    exact contains_of_mem (e := (key, v)) (by simp) hsame

theorem Keyed.insert_insertAll (h : entries.Keyed objects) (hkey : key.Keyable objects)
    (hcontains : entries.contains key = true) (hmore : ∀ f ∈ more, f.1.Keyable objects)
    (hapart : ∀ f ∈ more, f.1.keyEq key = false) :
    (entries.insertAll more).insert key v = (entries.insert key v).insertAll more := by
  induction more generalizing entries with
  | nil => rfl
  | cons f rest ih =>
    rw [List.forall_mem_cons] at hmore hapart
    have hcomm : (entries.insert f.1 f.2).insert key v = (entries.insert key v).insert f.1 f.2 := by
      refine insert_comm hcontains fun d hd hdkey => ?_
      cases hdf : d.1.keyEq f.1 with
      | false => rfl
      | true =>
        have htrans := keyEq_trans hmore.1 (h.mem hd) hkey (keyEq_symm (h.mem hd) hmore.1 hdf) hdkey
        cases hapart.1.symm.trans htrans
    refine (ih (h.insert hmore.1 f.2) (contains_insert hcontains) hmore.2 hapart.2).trans ?_
    rw [hcomm]
    rfl

theorem Keyed.insertAll_insert (h : entries.Keyed objects) (hmore : more.Keyed objects)
    (hkey : key.Keyable objects) :
    entries.insertAll (more.insert key v) = (entries.insertAll more).insert key v := by
  induction more generalizing entries with
  | nil => rfl
  | cons d rest ih =>
    have hd := hmore.mem List.mem_cons_self
    have hrest := hmore.sublist (List.sublist_cons_self d rest)
    cases hdkey : d.1.keyEq key with
    | true =>
      have hapart : ∀ f ∈ rest, f.1.keyEq key = false := by
        intro f hf
        cases hfkey : f.1.keyEq key with
        | false => rfl
        | true =>
          have hne := hmore.keyEq_of_contains hkey (contains_of_mem hf hfkey)
          cases hne.symm.trans hdkey
      have hthere : (entries.insert d.1 d.2).contains key = true :=
        h.contains_insert_of_keyEq hd hkey hdkey
      have hwritten : (entries.insert d.1 d.2).insert key v = entries.insert d.1 v := by
        refine insert_insert hdkey fun f hf => ?_
        rw [Bool.eq_iff_iff]
        exact ⟨fun hk => keyEq_trans (h.mem hf) hkey hd hk (keyEq_symm hd hkey hdkey),
          fun hk => keyEq_trans (h.mem hf) hd hkey hk hdkey⟩
      have hcomm := (h.insert hd d.2).insert_insertAll (v := v) hkey hthere
        (fun f hf => hrest.mem hf) hapart
      rw [hwritten] at hcomm
      rw [insert_cons, if_pos hdkey]
      exact hcomm.symm
    | false =>
      rw [insert_cons, if_neg (Bool.eq_false_iff.mp hdkey)]
      exact ih (h.insert hd d.2) hrest

/-- Writing a mapping over another that was written over a third is writing them one after another. -/
theorem Keyed.insertAll_insertAll {others : Entries} (h : entries.Keyed objects)
    (hmore : more.Keyed objects) (hothers : ∀ e ∈ others, e.1.Keyable objects) :
    entries.insertAll (more.insertAll others) = (entries.insertAll more).insertAll others := by
  induction others generalizing more with
  | nil => rfl
  | cons e rest ih =>
    rw [List.forall_mem_cons] at hothers
    refine (ih (hmore.insert hothers.1 e.2) hothers.2).trans ?_
    rw [h.insertAll_insert hmore hothers.1]
    rfl

end Value.Entries

/-! ### Merging outputs -/

namespace Value

variable {objects : Nat → Value} {a b : Value}

theorem typeOf_ne_of_isMapping_ne (h : a.isMapping ≠ b.isMapping) : a.typeOf ≠ b.typeOf := by
  have mapping {a b : Value} (ha : a.isMapping = true) (hb : b.isMapping = false) :
      a.typeOf ≠ b.typeOf := by
    cases a with
    | mapping => exact Validator.typeOf_mapping_ne hb
    | _ => cases ha
  cases ha : a.isMapping <;> cases hb : b.isMapping <;> rw [ha, hb] at h
  · exact absurd rfl h
  · exact (mapping hb ha).symm
  · exact mapping ha hb
  · exact absurd rfl h

/-- A mapping is not strictly equal to what is no mapping. -/
theorem strictEq_of_isMapping_ne (ha : a.Held objects) (hb : b.Held objects)
    (h : a.isMapping ≠ b.isMapping) : a.strictEq b = .ok false := by
  have hsame : a.same b = false := by
    cases hsame : a.same b with
    | false => rfl
    | true => exact absurd (congrArg isMapping (eq_of_same ha hb hsame)) h
  have hnumber : (a.isNumber && b.isNumber) = false := by
    cases a with
    | mapping => rfl
    | _ =>
      cases b with
      | mapping => exact Bool.and_false _
      | _ => exact absurd rfl h
  have htype : (a.typeOf == b.typeOf) = false := beq_eq_false_iff_ne.mpr (typeOf_ne_of_isMapping_ne h)
  rw [strictEq, hsame, hnumber, htype]
  rfl

end Value

namespace Validator

variable {objects : Nat → Value} {a b first y : Value} {outputs rest : List Value}

/-- The outputs are all mappings. -/
def AllMappings (outputs : List Value) : Prop := ∀ v ∈ outputs, v.isMapping = true

/-- The outputs are all strictly equal to the first one. -/
def AllEqual : List Value → Prop
  | [] => True
  | first :: rest => ∀ b ∈ rest, first.strictEq b = .ok true

/-- What outputs are merged into: a new mapping that combines them, or the first one. -/
inductive Merges : List Value → Value → Prop where
  | mappings {outputs : List Value} {parts : List Value.Entries} {output : Value.Entries} :
      List.Forall₂ (fun v p => v.entries? = some p) outputs parts → Value.Entries.Combines parts output →
      Merges outputs (.ofMapping output)
  | equal {first : Value} {rest : List Value} : ¬AllMappings (first :: rest) →
      AllEqual (first :: rest) → Merges (first :: rest) first

/-- Some output disagrees with the first, and those before it agree: they are mappings as it is, or
strictly equal to it. -/
inductive Clashes (first : Value) : List Value → Prop where
  | here {b : Value} {rest : List Value} : ¬AllMappings [first, b] → first.strictEq b = .ok false →
      Clashes first (b :: rest)
  | later {b : Value} {rest : List Value} :
      AllMappings [first, b] ∨ first.strictEq b = .ok true → Clashes first rest →
      Clashes first (b :: rest)

theorem allMappings_pair : AllMappings [a, b] ↔ a.isMapping = true ∧ b.isMapping = true := by
  simp [AllMappings]

theorem merge?_of_mappings {xs ys : Value.Entries} (ha : a.entries? = some xs)
    (hb : b.entries? = some ys) : merge? a b = .ok (some (.ofMapping (xs.insertAll ys))) := by
  rw [merge?, ha, hb]

theorem merge?_of_others (h : ¬AllMappings [a, b]) :
    merge? a b = (a.strictEq b).map fun agree => if agree then some a else none := by
  unfold merge?
  split
  · next xs ys ha hb =>
    refine absurd (allMappings_pair.mpr ?_) h
    rw [Value.isMapping, Value.isMapping, ha, hb]
    exact ⟨rfl, rfl⟩
  · rcases a.strictEq b with f | agree <;> rfl

theorem exists_entries (h : a.isMapping = true) : ∃ xs, a.entries? = some xs :=
  Option.isSome_iff_exists.mp h

/-- Two outputs agree, and then they make a new mapping or the first stays; or they disagree; or they
cannot be compared. -/
theorem cases_of_merge? (a b : Value) :
    (∃ m, merge? a b = .ok (some m) ∧ (AllMappings [a, b] ∧ m.isMapping = true ∧ m.IsMade ∨
        ¬AllMappings [a, b] ∧ a.strictEq b = .ok true ∧ m = a)) ∨
      (merge? a b = .ok none ∧ ¬AllMappings [a, b] ∧ a.strictEq b = .ok false) ∨
      ∃ f, merge? a b = .error f ∧ ¬AllMappings [a, b] ∧ a.strictEq b = .error f := by
  by_cases hall : AllMappings [a, b]
  · obtain ⟨ha, hb⟩ := allMappings_pair.mp hall
    obtain ⟨xs, hxs⟩ := exists_entries ha
    obtain ⟨ys, hys⟩ := exists_entries hb
    exact .inl ⟨_, merge?_of_mappings hxs hys, .inl ⟨hall, rfl, fun _ hi => by cases hi⟩⟩
  · have hmerge := merge?_of_others hall
    rcases hagree : a.strictEq b with f | (_ | _) <;> rw [hagree] at hmerge
    · exact .inr (.inr ⟨f, hmerge, hall, rfl⟩)
    · exact .inr (.inl ⟨hmerge, hall, rfl⟩)
    · exact .inl ⟨a, hmerge, .inr ⟨hall, rfl, rfl⟩⟩

theorem mergeAll?_cons {m : Value} (h : merge? first a = .ok (some m)) :
    mergeAll? first (a :: rest) = mergeAll? m rest := by
  rw [mergeAll?, h]
  rfl

theorem mergeAll?_cons_none (h : merge? first a = .ok none) :
    mergeAll? first (a :: rest) = .ok none := by
  rw [mergeAll?, h]
  rfl

theorem mergeAll?_cons_error {f : Fault} (h : merge? first a = .error f) :
    mergeAll? first (a :: rest) = .error f := by
  rw [mergeAll?, h]
  rfl

theorem exists_parts (h : ∀ v ∈ rest, v.isMapping = true) :
    ∃ parts : List Value.Entries, List.Forall₂ (fun v p => v.entries? = some p) rest parts := by
  induction rest with
  | nil => exact ⟨[], .nil⟩
  | cons b rest ih =>
    rw [List.forall_mem_cons] at h
    obtain ⟨p, hp⟩ := exists_entries h.1
    obtain ⟨parts, hparts⟩ := ih h.2
    exact ⟨p :: parts, .cons hp hparts⟩

/-- Mappings are written over the first one after another. -/
theorem mergeAll?_mappings {xs : Value.Entries} {parts : List Value.Entries}
    (hfirst : first.entries? = some xs)
    (hrest : List.Forall₂ (fun v p => v.entries? = some p) rest parts) :
    ∃ y, mergeAll? first rest = .ok (some y) ∧
      y.entries? = some (parts.foldl Value.Entries.insertAll xs) ∧
      (rest ≠ [] → y = .ofMapping (parts.foldl Value.Entries.insertAll xs)) := by
  induction hrest generalizing first xs with
  | nil => exact ⟨first, rfl, hfirst, fun h => absurd rfl h⟩
  | @cons b p rest parts hb hrest ih =>
    have hmerge := merge?_of_mappings hfirst hb
    have hboth : (Value.ofMapping (xs.insertAll p)).entries? = some (xs.insertAll p) := rfl
    obtain ⟨y, hy, hentries, hmade⟩ := ih hboth
    refine ⟨y, (mergeAll?_cons hmerge).trans hy, hentries, fun _ => ?_⟩
    cases hrest with
    | nil =>
      cases hy
      rfl
    | cons => exact hmade (List.cons_ne_nil _ _)

theorem not_allMappings_of_left (h : first.isMapping = false) : ¬AllMappings [first, b] :=
  fun hall => by cases h.symm.trans (allMappings_pair.mp hall).1

theorem mergeAll?_equal (hfirst : first.isMapping = false)
    (hrest : ∀ b ∈ rest, first.strictEq b = .ok true) : mergeAll? first rest = .ok (some first) := by
  induction rest with
  | nil => rfl
  | cons b rest ih =>
    rw [List.forall_mem_cons] at hrest
    have hmerge : merge? first b = .ok (some first) := by
      rw [merge?_of_others (not_allMappings_of_left hfirst), hrest.1]
      rfl
    exact (mergeAll?_cons hmerge).trans (ih hrest.2)

/-- What is no mapping stays, and the others are strictly equal to it. -/
theorem equal_of_mergeAll? (hfirst : first.isMapping = false)
    (h : mergeAll? first rest = .ok (some y)) :
    y = first ∧ ∀ b ∈ rest, first.strictEq b = .ok true := by
  induction rest with
  | nil =>
    cases h
    exact ⟨rfl, List.forall_mem_nil _⟩
  | cons b rest ih =>
    rcases cases_of_merge? first b with ⟨m, hmerge, hall | ⟨-, hequal, rfl⟩⟩ | ⟨hmerge, -⟩ | ⟨f, hmerge, -⟩
    · exact absurd hall.1 (not_allMappings_of_left hfirst)
    · obtain ⟨hy, hrest⟩ := ih ((mergeAll?_cons hmerge).symm.trans h)
      exact ⟨hy, List.forall_mem_cons.mpr ⟨hequal, hrest⟩⟩
    · cases (mergeAll?_cons_none hmerge).symm.trans h
    · cases (mergeAll?_cons_error hmerge).symm.trans h

section

variable (hfirst : first.Held objects) (hrest : ∀ v ∈ rest, v.Held objects)

include hfirst hrest

/-- A mapping agrees only with mappings. -/
theorem isMapping_of_strictEq (hmapping : first.isMapping = true) (hb : b ∈ rest)
    (h : first.strictEq b = .ok true) : b.isMapping = true := by
  by_contra hother
  have hne : first.isMapping ≠ b.isMapping := fun heq => hother (heq ▸ hmapping)
  cases h.symm.trans (Value.strictEq_of_isMapping_ne hfirst (hrest b hb) hne)

/-- A mapping is merged only with mappings. -/
theorem mappings_of_mergeAll? (hmapping : first.isMapping = true)
    (h : mergeAll? first rest = .ok (some y)) : ∀ b ∈ rest, b.isMapping = true := by
  induction rest generalizing first with
  | nil => exact List.forall_mem_nil _
  | cons b rest ih =>
    rw [List.forall_mem_cons]
    rcases cases_of_merge? first b with ⟨m, hmerge, hm⟩ | ⟨hmerge, -⟩ | ⟨f, hmerge, -⟩
    · have hnext := (mergeAll?_cons hmerge).symm.trans h
      have hothers := (List.forall_mem_cons.mp hrest).2
      rcases hm with ⟨hall, hmap, hmade⟩ | ⟨-, hequal, rfl⟩
      · exact ⟨(allMappings_pair.mp hall).2, ih (fun i hi => (hmade i hi).elim) hothers hmap hnext⟩
      · exact ⟨isMapping_of_strictEq hfirst hrest hmapping List.mem_cons_self hequal,
          ih hfirst hothers hmapping hnext⟩
    · cases (mergeAll?_cons_none hmerge).symm.trans h
    · cases (mergeAll?_cons_error hmerge).symm.trans h

/-- What clashes with a mapping clashes with any other. -/
theorem Clashes.of_mapping {first' : Value} (hfirst' : first'.Held objects)
    (hmapping : first.isMapping = true) (hmapping' : first'.isMapping = true)
    (h : Clashes first rest) : Clashes first' rest := by
  induction h with
  | @here b rest hothers _ =>
    have hb : b.isMapping = false := Bool.eq_false_iff.mpr fun hb =>
      hothers (allMappings_pair.mpr ⟨hmapping, hb⟩)
    have hne : first'.isMapping ≠ b.isMapping := by rw [hmapping', hb]; exact Bool.noConfusion
    exact .here (fun hall => by cases hb.symm.trans (allMappings_pair.mp hall).2)
      (Value.strictEq_of_isMapping_ne hfirst' (hrest b List.mem_cons_self) hne)
  | @later b rest hagrees _ ih =>
    have hb : b.isMapping = true := by
      rcases hagrees with hall | hequal
      · exact (allMappings_pair.mp hall).2
      · exact isMapping_of_strictEq hfirst hrest hmapping List.mem_cons_self hequal
    exact .later (.inl (allMappings_pair.mpr ⟨hmapping', hb⟩)) (ih (List.forall_mem_cons.mp hrest).2)

/-- Outputs cannot be merged exactly when one of them clashes. -/
theorem mergeAll?_eq_none_iff : mergeAll? first rest = .ok none ↔ Clashes first rest := by
  induction rest generalizing first with
  | nil =>
    constructor <;> intro h <;> cases h
  | cons b rest ih =>
    have hothers := (List.forall_mem_cons.mp hrest).2
    have later (hagrees : AllMappings [first, b] ∨ first.strictEq b = .ok true) :
        Clashes first (b :: rest) ↔ Clashes first rest := by
      refine ⟨fun h => ?_, .later hagrees⟩
      cases h with
      | here hpair hdiffers => cases hdiffers.symm.trans (hagrees.resolve_left hpair)
      | later _ h => exact h
    rcases cases_of_merge? first b with ⟨m, hmerge, hm⟩ | ⟨hmerge, hpair, hdiffers⟩ |
      ⟨f, hmerge, hpair, hfault⟩
    · rw [mergeAll?_cons hmerge]
      rcases hm with ⟨hall, hmap, hmade⟩ | ⟨-, hequal, rfl⟩
      · have hheld : m.Held objects := fun i hi => (hmade i hi).elim
        have hmapping := (allMappings_pair.mp hall).1
        rw [later (.inl hall), ih hheld hothers]
        exact ⟨fun h => h.of_mapping hheld hothers hfirst hmap hmapping,
          fun h => h.of_mapping hfirst hothers hheld hmapping hmap⟩
      · rw [later (.inr hequal), ih hfirst hothers]
    · rw [mergeAll?_cons_none hmerge]
      exact ⟨fun _ => .here hpair hdiffers, fun _ => rfl⟩
    · rw [mergeAll?_cons_error hmerge]
      refine ⟨fun h => (by cases h), fun h => ?_⟩
      cases h with
      | here _ hdiffers => cases hfault.symm.trans hdiffers
      | later hagrees => cases hfault.symm.trans (hagrees.resolve_left hpair)

/-- Outputs can be merged exactly when they are all mappings or all strictly equal to the first. -/
theorem exists_mergeAll?_iff : (∃ y, mergeAll? first rest = .ok (some y)) ↔
    AllMappings (first :: rest) ∨ AllEqual (first :: rest) := by
  cases hmapping : first.isMapping with
  | true =>
    constructor
    · rintro ⟨y, h⟩
      exact .inl (List.forall_mem_cons.mpr ⟨hmapping, mappings_of_mergeAll? hfirst hrest hmapping h⟩)
    · intro h
      have hall : ∀ b ∈ rest, b.isMapping = true := by
        rcases h with h | h
        · exact (List.forall_mem_cons.mp h).2
        · exact fun b hb => isMapping_of_strictEq hfirst hrest hmapping hb (h b hb)
      obtain ⟨xs, hxs⟩ := exists_entries hmapping
      obtain ⟨parts, hparts⟩ := exists_parts hall
      obtain ⟨y, hy, -⟩ := mergeAll?_mappings hxs hparts
      exact ⟨y, hy⟩
  | false =>
    constructor
    · rintro ⟨y, h⟩
      exact .inr (equal_of_mergeAll? hmapping h).2
    · rintro (h | h)
      · cases hmapping.symm.trans (h first List.mem_cons_self)
      · exact ⟨first, mergeAll?_equal hmapping h⟩

end

theorem keyed_of_entries {vs : List Value} (h : ∀ v ∈ vs, v.Orderly objects)
    {parts : List Value.Entries} (hparts : List.Forall₂ (fun v p => v.entries? = some p) vs parts) :
    ∀ p ∈ parts, Value.Entries.Keyed objects p := by
  induction hparts with
  | nil => exact List.forall_mem_nil _
  | cons hp _ ih =>
    rw [List.forall_mem_cons] at h ⊢
    exact ⟨h.1.keyed _ hp, ih h.2⟩

/-- What two or more outputs are merged into. -/
theorem merges_of_mergeAll? (hfirst : first.Orderly objects) (hrest : ∀ v ∈ rest, v.Orderly objects)
    (hne : rest ≠ []) (h : mergeAll? first rest = .ok (some y)) : Merges (first :: rest) y := by
  cases hmapping : first.isMapping with
  | true =>
    have hall := mappings_of_mergeAll? hfirst.held (fun v hv => (hrest v hv).held) hmapping h
    obtain ⟨xs, hxs⟩ := exists_entries hmapping
    obtain ⟨parts, hparts⟩ := exists_parts hall
    obtain ⟨z, hz, -, hmade⟩ := mergeAll?_mappings hxs hparts
    cases h.symm.trans hz
    rw [hmade hne]
    exact .mappings (.cons hxs hparts) (Value.Entries.combines_foldl (hfirst.keyed xs hxs)
      (keyed_of_entries hrest hparts))
  | false =>
    obtain ⟨rfl, hequal⟩ := equal_of_mergeAll? hmapping h
    refine .equal (fun hall => ?_) hequal
    cases hmapping.symm.trans (hall y List.mem_cons_self)

theorem Merges.agree (h : Merges outputs y) : AllMappings outputs ∨ AllEqual outputs := by
  cases h with
  | mappings hparts _ =>
    refine .inl fun v hv => ?_
    obtain ⟨i, hi, rfl⟩ := List.getElem_of_mem hv
    have hentries := (List.forall₂_iff_get.mp hparts).2 i hi (hparts.length_eq ▸ hi)
    exact Option.isSome_iff_exists.mpr ⟨_, hentries⟩
  | equal _ hequal => exact .inr hequal

end Validator

end Conform
