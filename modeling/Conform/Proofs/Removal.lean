/-
  Conform/Proofs/Removal.lean
  ===========================
  **What is removed is there.**  A map goes over the entries that it was given, and
  removes from a copy the key of each that is accepted under another one.  Meanwhile
  entries before may have been written under that very key, or removed from it.

  Still the removal never fails for want of the key.  What is written under a key that
  is there leaves the key as it is, and what is removed is under a key of its own.  So
  the keys of the entries still to come stay keys of the copy, each as the object that
  it is (`keys_of_comesTo`).  One that is not equal to itself is found as that object.
-/
import Conform.Proofs.Arrangement
import Conform.Proofs.Mild

namespace Conform

open Validator

/-! ### Coming to a part -/

namespace Gathering

variable {σ α : Type} {step : σ → Gathering α → Run (Progress α)} {xs : List σ} {g : Gathering α}
  {w u : World}

/-- Steps that are taken one after another come to a part, before others, with what has been
gathered by then. -/
def ComesTo (step : σ → Gathering α → Run (Progress α)) (xs : List σ) (g : Gathering α) (w : World)
    (s : σ) (rest : List σ) (g' : Gathering α) (v : World) : Prop :=
  ∃ before, xs = before ++ s :: rest ∧ steps step before g w = (.ok (.going g'), v)

theorem mem_of_comesTo {s t : σ} {rest : List σ} {g' : Gathering α} {v : World}
    (h : ComesTo step xs g w s rest g' v) (ht : t ∈ s :: rest) : t ∈ xs := by
  obtain ⟨before, rfl, -⟩ := h
  exact List.mem_append_right before ht

/-- Steps that end in a fault come to a part with which the fault occurs. -/
theorem comesTo_of_error {halt : Halt} (h : steps step xs g w = (.error halt, u)) :
    ∃ s rest g' v, ComesTo step xs g w s rest g' v ∧ step s g' v = (.error halt, u) := by
  induction xs generalizing g w with
  | nil => cases h
  | cons s rest ih =>
    rcases bind_eq_error h with hfirst | ⟨p, v, hfirst, hrest⟩
    · exact ⟨s, rest, g, w, ⟨[], rfl, rfl⟩, hfirst⟩
    · cases p with
      | stopped d => cases hrest
      | going g₁ =>
        obtain ⟨t, later, g', v', ⟨before, rfl, hbefore⟩, hstep⟩ := ih hrest
        exact ⟨t, later, g', v', ⟨s :: before, rfl, (bind_of_eq_ok hfirst).trans hbefore⟩, hstep⟩

end Gathering

/-! ### Keys that stay -/

namespace Value.Entries

variable {entries : Entries} {key k v : Value}

/-- Writing takes no key away. -/
theorem keys_subset_insert (entries : Entries) (key v : Value) :
    entries.keys ⊆ (entries.insert key v).keys := by
  intro k hk
  obtain ⟨e, he, rfl⟩ := List.mem_map.mp hk
  obtain ⟨w, hw⟩ : ∃ w, (e.1, w) ∈ entries.insert key v := exists_mem_insert he
  exact List.mem_map.mpr ⟨_, hw, rfl⟩

/-- Removing takes no key away that is told apart from the one that is removed. -/
theorem mem_keys_erase (hk : k ∈ entries.keys) (hkey : k.keyEq key = false) :
    k ∈ (entries.erase key).keys := by
  obtain ⟨e, he, rfl⟩ := List.mem_map.mp hk
  exact List.mem_map_of_mem (mem_erase_of_keyEq he hkey)

theorem contains_of_mem_keys (hk : k ∈ entries.keys) (hself : k.keyEq k = true) :
    entries.contains k = true := by
  obtain ⟨e, he, rfl⟩ := List.mem_map.mp hk
  exact contains_of_mem he hself

end Value.Entries

namespace Borrowed

variable {objects : Nat → Value} {b b' : Borrowed} {key newKey newValue : Value} {fault : Fault}

/-- A key that is there can be removed. -/
theorem exists_remove (hhashable : key.isHashable = true) (hcontains : b.entries.contains key = true) :
    ∃ left, b.remove key = .ok left :=
  ⟨b.withEntries (b.entries.erase key), by rw [remove, hhashable, hcontains]; rfl⟩

theorem write_eq_error (h : b.write key newValue = .error fault) :
    key.isHashable = false ∧ fault = .unhashable := by
  unfold write at h
  split at h
  · cases h
  · next hhashable =>
    cases h
    exact ⟨Bool.eq_false_iff.mpr hhashable, rfl⟩

/-- An entry under a key that is there is replaced, unless the new key cannot be a key; and then the
fault is not that a key is missing. -/
theorem fault_of_replace (hhashable : key.isHashable = true)
    (hcontains : b.entries.contains key = true)
    (h : (b.replace key newKey newValue).2 = some fault) :
    newKey.isHashable = false ∧ fault.kind ≠ .key := by
  rcases cases_of_replace_fault h with hkeeps | hremove | ⟨c, hwrite⟩
  · -- the old key can be compared with everything that can be a key
    refine ⟨Bool.eq_false_iff.mpr fun hnew => ?_, ?_⟩
    · obtain ⟨r, hr⟩ := exists_keeps hhashable hnew
      cases hkeeps.symm.trans hr
    · rw [eq_decimal_of_keeps hkeeps]
      decide
  · obtain ⟨left, hleft⟩ := exists_remove (b := b.own) hhashable (by rwa [entries_own])
    cases hremove.symm.trans hleft
  · obtain ⟨hnew, rfl⟩ := write_eq_error hwrite
    exact ⟨hnew, by decide⟩

/-- Replacing an entry takes no key away that is told apart from its own. -/
theorem mem_keys_replace (h : b.replace key newKey newValue = (b', none)) {k : Value}
    (hk : k ∈ b.entries.keys) (hkey : k.keyEq key = false) : k ∈ b'.entries.keys := by
  obtain ⟨-, -, ⟨-, hentries⟩ | ⟨-, -, hentries⟩⟩ := cases_of_replace h
  · rw [hentries]
    exact Value.Entries.keys_subset_insert _ _ _ hk
  · rw [hentries]
    exact Value.Entries.keys_subset_insert _ _ _ (Value.Entries.mem_keys_erase hk hkey)

end Borrowed

section

variable {ctx : Context} {objects : Nat → Value} {l : Label} {key value : Slot} {e : Value × Value}
  {rest entries : Value.Entries} {g g' : Gathering Borrowed} {w v u : World}

/-- A step of a map keeps the keys of the entries after it. -/
theorem keys_of_mapStep (hkeyed : Value.Entries.Keyed objects (e :: rest))
    (hkeys : Value.Entries.keys rest ⊆ g.output.entries.keys)
    (h : mapStep l key value ctx e g w = (.ok (.going g'), u)) :
    Value.Entries.keys rest ⊆ g'.output.entries.keys := by
  rcases Borrowed.output_of_mapStep h with heq | ⟨newKey, newValue, hreplace⟩
  · rwa [heq]
  · intro k hk
    refine Borrowed.mem_keys_replace hreplace (hkeys hk) ?_
    obtain ⟨f, hf, rfl⟩ := List.mem_map.mp hk
    exact Value.Entries.keyEq_eq_false_symm (hkeyed.mem List.mem_cons_self)
      (hkeyed.mem (List.mem_cons_of_mem e hf)) (hkeyed.keyEq_of_cons hf)

/-- When a map comes to an entry, its key and those of all entries after it are keys of the mapping
under change. -/
theorem keys_of_comesTo (hkeyed : entries.Keyed objects)
    (hstart : entries.keys ⊆ g.output.entries.keys)
    (h : Gathering.ComesTo (mapStep l key value ctx) entries g w e rest g' v) :
    Value.Entries.keys (e :: rest) ⊆ g'.output.entries.keys := by
  obtain ⟨before, rfl, hsteps⟩ := h
  -- on the entries before; the one at hand and those after it are carried along
  refine (Gathering.going_of_steps (I := fun _ => True)
    (J := fun xs g => Value.Entries.Keyed objects (xs ++ e :: rest) ∧
      Value.Entries.keys (xs ++ e :: rest) ⊆ g.output.entries.keys)
    (fun _ _ _ _ _ => trivial) (fun d xs g₁ g₂ hJ hstep => ?_) ⟨w, v, trivial, hsteps⟩
    ⟨hkeyed, hstart⟩).2
  obtain ⟨w₁, w₂, -, hrun⟩ := hstep
  obtain ⟨hkeyed₁, hkeys₁⟩ := hJ
  exact ⟨hkeyed₁.sublist (List.sublist_cons_self d _),
    keys_of_mapStep hkeyed₁ (List.Subset.trans (List.subset_cons_self ..) hkeys₁) hrun⟩

/-! ### Where a map ends in a fault -/

/-- The check of the key of an entry ends in a fault, or that of its value does after it. -/
inductive Validator.CheckFaults (l : Label) (key value : Slot) (ctx : Context) (e : Value × Value)
    (v : World) (fault : Fault) (u : World) : Prop where
  | key : entryCheck l ctx "map_key" e.1 e.1 key v = (.error fault, u) →
      CheckFaults l key value ctx e v fault u
  | value {newKey : Value × Bool} {v' : World} :
      entryCheck l ctx "map_key" e.1 e.1 key v = (.ok (.inr newKey), v') →
      entryCheck l ctx "map_value" e.1 e.2 value v' = (.error fault, u) →
      CheckFaults l key value ctx e v fault u

/-- A step of a map ends in a fault of a check, or of replacing the entry. -/
theorem faults_of_mapStep {halt : Halt} (h : mapStep l key value ctx e g v = (.error halt, u)) :
    CheckFaults l key value ctx e v halt.fault u ∨
      ∃ newKey newValue, (g.output.replace e.1 newKey newValue).2 = some halt.fault := by
  rcases bind_eq_error h with hkey | ⟨checked, v', hkey, h⟩
  · exact .inl (.key (within_eq_error hkey))
  · cases checked with
    | inl i => cases h
    | inr newKey =>
      rcases bind_eq_error h with hvalue | ⟨checked', v'', hvalue, h⟩
      · exact .inl (.value (within_eq_ok hkey) (within_eq_error hvalue))
      · cases checked' with
        | inl i => cases h
        | inr newValue =>
          refine .inr ⟨newKey.1, newValue.1, ?_⟩
          dsimp only at h
          split at h
          · rcases hreplace : g.output.replace e.1 newKey.1 newValue.1 with ⟨output, _ | f⟩
            · rw [hreplace] at h
              cases h
            · rw [hreplace] at h
              cases h
              rfl
          · cases h

/-- What comes after the look at a size ends in a fault, or the look at the size does. -/
theorem ifSized_eq_error {limits : Limits} {size : Nat} {d : Dataset} {next : Run Dataset} {halt : Halt}
    (h : ifSized l limits size ctx d next w = (.error halt, u)) :
    ifSized l limits size ctx d (pure d) w = (.error halt, u) ∨ next w = (.error halt, u) := by
  rcases bind_eq_error h with hsize | ⟨f?, v, hsize, h⟩
  · exact .inl (bind_of_eq_error hsize)
  · cases f? with
    | some f => exact .inl ((bind_of_eq_ok hsize).trans h)
    | none =>
      obtain rfl : w = v := congrArg Prod.snd (within_eq_ok hsize)
      exact .inr h

theorem kind_of_giveUp {d : Dataset} {halt : Halt} (h : giveUp d w = (.error halt, u)) :
    halt.fault.kind = .assertion := by
  have hfail : d.fail = .error halt.fault := congrArg Prod.fst (within_eq_error h)
  unfold Dataset.fail at hfail
  split at hfail
  · rw [← Except.error.inj hfail]
    rfl
  · cases hfail

end

/-- A map goes over the entries of a mapping.  Each of their keys is one with itself: the same object,
as every key is that comes from outside, or equal to itself.  When the map comes to an entry, whatever
has become of those before, then the key of this entry and those of all after it are still keys of the
mapping under change.  So the key can be removed, and the entry is replaced by one under any key that is
hashable.  And if the run ends because some key is missing, then it is missing from elsewhere: from what
is looked up for a message, or by the schema of a key or a value. -/
theorem map_keys_remain {ctx : Context} {objects : Nat → Value} {resolve : Schema → Validator}
    {m : Value} {limits : Limits} {key value : Schema} {d : Dataset} {entries : Value.Entries}
    {w : World} (hentries : d.value.entries? = some entries) (hkeyed : entries.Keyed objects)
    (hself : ∀ e ∈ entries, e.1.keyEq e.1 = true) :
    let s := Schema.map m limits key value
    let keys : Slot := ⟨key.expects, key.validator resolve⟩
    let values : Slot := ⟨value.expects, value.validator resolve⟩
    let comesTo := Gathering.ComesTo (mapStep s.label keys values ctx) entries
      (.start d ⟨d.value, false⟩) w
    (∀ e rest g v, comesTo e rest g v →
      (∀ f ∈ e :: rest, f.1 ∈ g.output.entries.keys ∧ g.output.entries.contains f.1 = true) ∧
      (∃ left, g.output.own.remove e.1 = .ok left) ∧
      ∀ newKey newValue, newKey.isHashable = true →
        (g.output.replace e.1 newKey newValue).2 = none) ∧
    ∀ halt u, s.validator resolve ctx d w = (.error halt, u) → halt.fault.kind = .key →
      ifSized s.label limits entries.length ctx d (pure d) w = (.error halt, u) ∨
      ∃ e rest g v, comesTo e rest g v ∧ CheckFaults s.label keys values ctx e v halt.fault u := by
  intro s keys values comesTo
  have hstart : (Borrowed.mk d.value false).entries = entries := by
    rw [Borrowed.entries, hentries]
    rfl
  have remains {e : Value × Value} {rest : Value.Entries} {g : Gathering Borrowed} {v : World}
      (h : comesTo e rest g v) : ∀ f ∈ e :: rest,
        f.1 ∈ g.output.entries.keys ∧ g.output.entries.contains f.1 = true := by
    intro f hf
    have hkey := keys_of_comesTo hkeyed (hstart ▸ List.Subset.refl _) h (List.mem_map_of_mem hf)
    exact ⟨hkey, Value.Entries.contains_of_mem_keys hkey (hself f (Gathering.mem_of_comesTo h hf))⟩
  have hhashable {e : Value × Value} {rest : Value.Entries} {g : Gathering Borrowed} {v : World}
      (h : comesTo e rest g v) : e.1.isHashable = true :=
    (hkeyed.mem (Gathering.mem_of_comesTo h List.mem_cons_self)).isHashable
  refine ⟨fun e rest g v h => ⟨remains h, ?_, fun newKey newValue hnew => ?_⟩,
    fun halt u hrun hkind => ?_⟩
  · exact Borrowed.exists_remove (hhashable h) (by
      rw [Borrowed.entries_own]
      exact (remains h e List.mem_cons_self).2)
  · rcases hreplace : (g.output.replace e.1 newKey newValue).2 with _ | fault
    · rfl
    · have hfault := Borrowed.fault_of_replace (hhashable h) (remains h e List.mem_cons_self).2 hreplace
      cases hnew.symm.trans hfault.1
  · have hmap : Validator.map s.label limits keys values ctx d w = (.error halt, u) := hrun
    unfold Validator.map at hmap
    rw [hentries] at hmap
    rcases ifSized_eq_error hmap with hsize | hmap
    · exact .inl hsize
    refine .inr ?_
    rcases bind_eq_error hmap with hsteps | ⟨progress, v, -, hend⟩
    · obtain ⟨e, rest, g, v, hto, hstep⟩ := Gathering.comesTo_of_error hsteps
      refine ⟨e, rest, g, v, hto, ?_⟩
      rcases faults_of_mapStep hstep with hcheck | ⟨newKey, newValue, hreplace⟩
      · exact hcheck
      · exact absurd hkind (Borrowed.fault_of_replace (hhashable hto)
          (remains hto e List.mem_cons_self).2 hreplace).2
    · -- after the entries a map only gives up, which is no want of a key
      have gaveUp {d : Dataset} (h : giveUp d v = (.error halt, u)) : False := by
        cases hkind.symm.trans (kind_of_giveUp h)
      cases progress with
      | stopped d => exact (gaveUp hend).elim
      | going g =>
        dsimp only at hend
        split at hend
        · cases hend
        · exact (gaveUp hend).elim

/-- The texts `a` and `b` are renamed to each other.  When the map comes to `b`, then "not a number",
which is not equal to itself, has been replaced under its own key, and `a` has been written over the
value of `b`.  Still `b` is there, and it can be replaced under the name that was freed.  The run ends
for want of a key; but it is the name of a schema, which has not been defined. -/
theorem map_keys_remain_swap :
    let text (s : String) : Value := .scalar .shared (.str .base s)
    let nan : Value := .scalar (.given 0) (.float .base .nan)
    let ctx : Context :=
      ⟨.default, [], [], [], ⟨fun _ arguments => Stock.onValue Stock.swapLetters arguments, 0⟩⟩
    let key : Schema := .overwrite .null (.scalar .shared (.callable (Stock.function "swap_ab")))
      (.anything .null false)
    let value : Schema := .union .null [.coerce .null .number, .lazy .null 0 (.definition "x")]
    let s : Schema := .map .null .none key value
    let entries : Value.Entries := [(nan, text "1"), (text "a", text "2"), (text "b", text "c")]
    let keys : Slot := ⟨key.expects, key.validatorUpTo 0⟩
    let values : Slot := ⟨value.expects, value.validatorUpTo 0⟩
    let comesTo := Gathering.ComesTo (mapStep s.label keys values ctx) entries
      (.start (.fresh (.ofMapping entries)) ⟨.ofMapping entries, false⟩) .empty
    nan.eq nan = .ok false ∧
    (∃ g v, comesTo (text "b", text "c") [] g v ∧
      g.output.entries = [(text "b", .int 2), (nan, .int 1)] ∧
      g.output.entries.contains (text "b") = true ∧
      (g.output.replace (text "b") (text "a") (.int 3)).2 = none) ∧
    ∃ d u, s.validatorUpTo 0 ctx (.fresh (.ofMapping entries)) .empty =
        (.error ⟨.undefinedSchema "x", d⟩, u) ∧
      ∃ e rest g v, comesTo e rest g v ∧
        CheckFaults s.label keys values ctx e v (.undefinedSchema "x") u := by
  intro text nan ctx key value s entries keys values comesTo
  have hentries : (Dataset.fresh (.ofMapping entries)).value.entries? = some entries := rfl
  have hname (l : String) : (text l).Keyable fun _ => nan :=
    Target.keyable_of_accepts (t := .string) rfl fun _ h => by cases h
  have hnan : nan.Keyable fun _ => nan :=
    .scalar (fun _ h => by cases h; rfl) ⟨(fun h => by cases h), (fun h => by cases h)⟩ rfl
  have hkeyed : entries.Keyed fun _ => nan := by
    refine .of_forall (List.Pairwise.cons ?_ (List.pairwise_pair.mpr rfl)) ?_
    · exact List.forall_mem_cons.mpr ⟨rfl, List.forall_mem_singleton.mpr rfl⟩
    · exact List.forall_mem_cons.mpr
        ⟨hnan, List.forall_mem_cons.mpr ⟨hname "a", List.forall_mem_singleton.mpr (hname "b")⟩⟩
  have hself : ∀ e ∈ entries, e.1.keyEq e.1 = true :=
    List.forall_mem_cons.mpr ⟨rfl, List.forall_mem_cons.mpr ⟨rfl, List.forall_mem_singleton.mpr rfl⟩⟩
  have hcomes : ∃ g v, comesTo (text "b", text "c") [] g v ∧
      g.output.entries = [(text "b", .int 2), (nan, .int 1)] :=
    ⟨_, _, ⟨[(nan, text "1"), (text "a", text "2")], rfl, rfl⟩, rfl⟩
  have hrun : ∃ d u, s.validatorUpTo 0 ctx (.fresh (.ofMapping entries)) .empty =
      (.error ⟨.undefinedSchema "x", d⟩, u) := by
    dsimp only [s, entries, key, value, ctx, nan, text]
    exact ⟨_, _, rfl⟩
  obtain ⟨g, v, hto, houtput⟩ := hcomes
  obtain ⟨d, u, hrun⟩ := hrun
  obtain ⟨hremain, hmissing⟩ := map_keys_remain hentries hkeyed hself
  obtain ⟨hthere, -, hreplace⟩ := hremain _ _ _ _ hto
  refine ⟨rfl, ⟨g, v, hto, houtput, (hthere _ List.mem_cons_self).2, hreplace _ _ rfl⟩, d, u, hrun, ?_⟩
  rcases hmissing _ u hrun rfl with hsize | h
  · cases hsize
  · exact h

end Conform
