/-
  Conform/Proofs/Renaming.lean
  ============================
  **Entries under new keys.**  A map that accepts its entries writes them over one
  after another, in one and the same copy: an entry under another key is removed and
  written under the new one (`Renamed`).  What is removed is whatever is under the old
  key by then.  So an entry that has been written already is lost when its new key is
  the old key of an entry still to come.

  The entries that are not lost in this way are the `survivors`.  If the new keys are
  pairwise different, then what is left in the end are the survivors, one for one
  (`matched_of_renamedAll`); whether they are or not, entries do not become more
  (`kept_of_renamedAll`).
-/
import Conform.Proofs.Copying
import Mathlib.Data.Multiset.ZeroCons

namespace Conform

namespace Value.Entries

/-- What becomes of the copy of a mapping when an entry is accepted as another: nothing if it is the
same, and else the other is written, in its place if its key can stay. -/
inductive Renamed (e f : Value × Value) : Entries → Entries → Prop where
  | same {copy : Entries} : f = e → Renamed e f copy copy
  | written {copy : Entries} : Borrowed.keeps e.1 f.1 = .ok true →
      Renamed e f copy (copy.insert f.1 f.2)
  | moved {copy : Entries} : Borrowed.keeps e.1 f.1 = .ok false → copy.contains e.1 = true →
      Renamed e f copy ((copy.erase e.1).insert f.1 f.2)

/-- What becomes of the copy when entries are accepted as others, one after another. -/
inductive RenamedAll : Entries → Entries → Entries → Entries → Prop where
  | done {copy : Entries} : RenamedAll [] [] copy copy
  | next {e f : Value × Value} {es fs copy copy' output : Entries} : Renamed e f copy copy' →
      RenamedAll es fs copy' output → RenamedAll (e :: es) (f :: fs) copy output

/-- The entries that are still there in the end: those whose new key is not the old key of an entry
that comes later. -/
def survivors : Entries → Entries → Entries
  | _ :: es, f :: fs => if contains es f.1 then survivors es fs else f :: survivors es fs
  | _, _ => []

/-! ### Entries one for one -/

/-- An entry of a copy stands for an entry that was written: it is under the same key, or an equal
one that was there before, and has the same value. -/
def Stands (f e : Value × Value) : Prop :=
  (e.1 = f.1 ∨ e.1.keyEq f.1 = true) ∧ e.2 = f.2

/-- The entries of a copy stand for entries, one for one. -/
def Matched (entries copy : Entries) : Prop :=
  Multiset.Rel Stands (↑entries : Multiset (Value × Value)) ↑copy

variable {objects : Nat → Value} {key : Value} {e f : Value × Value}
  {entries copy copy' output : Entries}

theorem keyEq_of_keeps {newKey : Value} (h : Borrowed.keeps key newKey = .ok true) :
    newKey.keyEq key = true :=
  keyEq_iff.mpr (.inr (Borrowed.keeps_iff.mp h).2)

theorem Matched.refl (entries : Entries) : Matched entries entries :=
  Multiset.rel_refl_of_refl_on fun _ _ => ⟨.inl rfl, rfl⟩

theorem Matched.length_eq (h : Matched entries copy) : copy.length = entries.length := by
  simpa using (Multiset.card_eq_card_of_rel h).symm

theorem Matched.exists_mem (h : Matched entries copy) (he : e ∈ entries) :
    ∃ d ∈ copy, Stands e d :=
  Multiset.exists_mem_of_rel_of_mem h (Multiset.mem_coe.mpr he)

theorem Matched.perm (h : Matched entries copy) {entries' copy' : Entries}
    (hentries : entries.Perm entries') (hcopy : copy.Perm copy') : Matched entries' copy' := by
  unfold Matched at h ⊢
  rwa [← Multiset.coe_eq_coe.mpr hentries, ← Multiset.coe_eq_coe.mpr hcopy]

theorem Matched.cons (h : Matched entries copy) (hstands : Stands f e) :
    Matched (f :: entries) (e :: copy) :=
  Multiset.Rel.cons hstands h

/-- An entry of the copy stands for one of the entries, and the others for the others. -/
theorem Matched.of_cons (h : Matched entries (e :: copy)) :
    ∃ before f after, entries = before ++ f :: after ∧ Stands f e ∧ Matched (before ++ after) copy := by
  have hrel : Multiset.Rel Stands ↑entries (e ::ₘ (↑copy : Multiset (Value × Value))) := h
  obtain ⟨f, others, hstands, hothers, heq⟩ := Multiset.rel_cons_right.mp hrel
  have hf : f ∈ entries := Multiset.mem_coe.mp (heq ▸ Multiset.mem_cons_self f others)
  obtain ⟨before, after, rfl⟩ := List.append_of_mem hf
  refine ⟨before, f, after, rfl, hstands, ?_⟩
  have hperm : (↑(before ++ f :: after) : Multiset (Value × Value)) = f ::ₘ ↑(before ++ after) :=
    Multiset.coe_eq_coe.mpr List.perm_middle
  rw [hperm, Multiset.cons_inj_right] at heq
  rwa [← heq] at hothers

theorem perm_of_contains (h : entries.contains key = true) :
    ∃ d ∈ entries, d.1.keyEq key = true ∧ entries.Perm (d :: entries.erase key) ∧
      ∀ v, (entries.insert key v).Perm ((d.1, v) :: entries.erase key) := by
  obtain ⟨before, d, after, rfl, -, hd, hinsert, herase⟩ := exists_split h
  rw [herase]
  refine ⟨d, by simp, hd, List.perm_middle, fun v => ?_⟩
  rw [hinsert]
  exact List.perm_middle

/-- Entries that are not under a key. -/
def without (entries : Entries) (key : Value) : Entries :=
  entries.filter fun e => !key.keyEq e.1

theorem without_eq_self (h : ∀ e ∈ entries, key.keyEq e.1 = false) :
    entries.without key = entries :=
  List.filter_eq_self.mpr fun e he => by rw [h e he, Bool.not_false]

theorem Matched.erase (h : Matched entries copy) (hentries : entries.Keyed objects)
    (hcopy : copy.Keyed objects) (hkey : key.Keyable objects)
    (hcontains : copy.contains key = true) : Matched (entries.without key) (copy.erase key) := by
  obtain ⟨d, hd, hdkey, hperm, -⟩ := perm_of_contains hcontains
  obtain ⟨before, f, after, rfl, hstands, hothers⟩ := (h.perm (.refl entries) hperm).of_cons
  have hf : f.1.Keyable objects := hentries.mem (by simp)
  have hkeyf : key.keyEq f.1 = true := by
    rcases hstands.1 with heq | hdf
    · exact keyEq_symm hf hkey (heq ▸ hdkey)
    · have hkeyd := keyEq_symm (hcopy.mem hd) hkey hdkey
      exact keyEq_trans hkey (hcopy.mem hd) hf hkeyd hdf
  have hpairs := hentries.apart
  rw [Apart, keys, List.map_append, List.map_cons, List.pairwise_append, List.pairwise_cons] at hpairs
  have hother : ∀ e ∈ before ++ after, key.keyEq e.1 = false := by
    intro e he
    have hekeyable : e.1.Keyable objects :=
      hentries.mem ((List.mem_append.mp he).elim (by simp +contextual) (by simp +contextual))
    cases hkeye : key.keyEq e.1 with
    | false => rfl
    | true =>
      have hfe := keyEq_trans hf hkey hekeyable (keyEq_symm hkey hf hkeyf) hkeye
      rcases List.mem_append.mp he with he | he
      · have hef := keyEq_symm hf hekeyable hfe
        rw [hpairs.2.2 e.1 (List.mem_map_of_mem he) f.1 List.mem_cons_self] at hef
        cases hef
      · rw [hpairs.2.1.1 e.1 (List.mem_map_of_mem he)] at hfe
        cases hfe
  have hwithout : without (before ++ f :: after) key = before ++ after := by
    rw [← without_eq_self hother]
    simp [without, hkeyf]
  rwa [hwithout]

/-- When something is written to the copy, it takes the place of the entry under its key. -/
theorem Matched.insert (h : Matched entries copy) (hentries : entries.Keyed objects)
    (hcopy : copy.Keyed objects) (hf : f.1.Keyable objects) :
    Matched (f :: entries.without f.1) (copy.insert f.1 f.2) := by
  cases hcontains : copy.contains f.1 with
  | true =>
    obtain ⟨d, -, hdkey, -, hinsert⟩ := perm_of_contains hcontains
    have hleft := h.erase hentries hcopy hf hcontains
    have hstands : Stands f (d.1, f.2) := ⟨.inr hdkey, rfl⟩
    exact (hleft.cons hstands).perm (.refl _) (hinsert f.2).symm
  | false =>
    have hothers : ∀ e ∈ entries, f.1.keyEq e.1 = false := by
      intro e he
      cases hfe : f.1.keyEq e.1 with
      | false => rfl
      | true =>
        obtain ⟨d, hd, heq | hde, -⟩ := h.exists_mem he
        · have hdf := keyEq_symm hf (hentries.mem he) hfe
          rw [← heq] at hdf
          cases (contains_of_mem hd hdf).symm.trans hcontains
        · have hef := keyEq_symm hf (hentries.mem he) hfe
          have hdf := keyEq_trans (hcopy.mem hd) (hentries.mem he) hf hde hef
          cases (contains_of_mem hd hdf).symm.trans hcontains
    rw [without_eq_self hothers, insert_of_not_contains f.2 hcontains]
    exact (h.cons (f := f) (e := f) ⟨.inl rfl, rfl⟩).perm (.refl _)
      (List.perm_append_singleton f copy).symm

/-! ### What is pending -/

/-- The entries still to come that are in the copy as they were: nothing has been written under their
keys. -/
def pending (done rest : Entries) : Entries :=
  rest.filter fun e => !done.contains e.1

theorem pending_append_singleton (done : Entries) (f : Value × Value) (rest : Entries) :
    pending (done ++ [f]) rest = (pending done rest).without f.1 := by
  simp [pending, without, contains, List.filter_filter, Bool.and_comm]

variable {done rest es fs : Entries}

theorem pending_cons_of_contains (h : done.contains e.1 = true) :
    pending done (e :: rest) = pending done rest := by
  simp [pending, h]

theorem pending_cons_of_not_contains (h : done.contains e.1 = false) :
    pending done (e :: rest) = e :: pending done rest := by
  simp [pending, h]

theorem keyed_pending (hdone : done.Keyed objects) (hrest : rest.Keyed objects) :
    (done ++ pending done rest).Keyed objects := by
  have hsub : (pending done rest).Sublist rest := List.filter_sublist
  refine ⟨?_, fun k hk => ?_⟩
  · rw [Apart, keys, List.map_append, List.pairwise_append]
    refine ⟨hdone.apart, (hrest.sublist hsub).apart, fun k hk l hl => ?_⟩
    obtain ⟨g, hg, rfl⟩ := List.mem_map.mp hk
    obtain ⟨e, he, rfl⟩ := List.mem_map.mp hl
    have hnew : done.contains e.1 = false := by simpa using (List.mem_filter.mp he).2
    simpa using List.any_eq_false.mp hnew g hg
  · rw [keys, List.map_append] at hk
    rcases List.mem_append.mp hk with hk | hk
    · exact hdone.keyable k hk
    · exact (hrest.sublist hsub).keyable k hk

theorem Keyed.keyEq_of_cons (h : Keyed objects (e :: rest)) {d : Value × Value} (hd : d ∈ rest) :
    e.1.keyEq d.1 = false :=
  List.rel_of_pairwise_cons h.apart (List.mem_map_of_mem hd)

theorem Keyed.keyEq_of_append (h : (done ++ f :: fs).Keyed objects) {g : Value × Value}
    (hg : g ∈ done) : g.1.keyEq f.1 = false := by
  have hpairs := h.apart
  rw [Apart, keys, List.map_append, List.pairwise_append] at hpairs
  exact hpairs.2.2 g.1 (List.mem_map_of_mem hg) f.1 (by simp)

theorem Keyed.keyEq_last (h : (done ++ f :: fs).Keyed objects) {g : Value × Value}
    (hg : g ∈ done) : f.1.keyEq g.1 = false := by
  cases hfg : f.1.keyEq g.1 with
  | false => rfl
  | true =>
    have hgf := keyEq_symm (h.mem (by simp)) (h.mem (by simp [hg])) hfg
    rw [h.keyEq_of_append hg] at hgf
    cases hgf

/-- Nothing that is done and removed has been under the key of an entry to come. -/
theorem pending_without (hdone : done.Keyed objects) (hrest : Keyed objects (e :: rest)) :
    pending (done.without e.1) rest = pending done rest := by
  refine List.filter_congr fun d hd => congrArg (! ·) ?_
  rw [Bool.eq_iff_iff, contains, contains, List.any_eq_true, List.any_eq_true]
  constructor
  · rintro ⟨g, hg, hgd⟩
    exact ⟨g, (List.mem_filter.mp hg).1, hgd⟩
  · rintro ⟨g, hg, hgd⟩
    refine ⟨g, List.mem_filter.mpr ⟨hg, ?_⟩, hgd⟩
    cases heg : e.1.keyEq g.1 with
    | false => rfl
    | true =>
      have hed := keyEq_trans (hrest.mem List.mem_cons_self) (hdone.mem hg)
        (hrest.mem (List.mem_cons_of_mem e hd)) heg hgd
      rw [hrest.keyEq_of_cons hd] at hed
      cases hed

theorem without_append (entries more : Entries) (key : Value) :
    (entries ++ more).without key = entries.without key ++ more.without key :=
  List.filter_append ..

/-- Nothing that is pending is under the key of an entry before. -/
theorem without_pending (done : Entries) (hrest : Keyed objects (e :: rest)) :
    (pending done rest).without e.1 = pending done rest :=
  without_eq_self fun _ hd => hrest.keyEq_of_cons (List.mem_of_mem_filter hd)

theorem pending_cons_without (hself : e.1.keyEq e.1 = true) (hrest : Keyed objects (e :: rest)) :
    (pending done (e :: rest)).without e.1 = pending done rest := by
  have hothers := without_pending done hrest
  cases hcontains : done.contains e.1 with
  | true => rw [pending_cons_of_contains hcontains, hothers]
  | false =>
    rw [pending_cons_of_not_contains hcontains, without, List.filter_cons_of_neg (by simp [hself])]
    exact hothers

/-! ### One entry after another -/

/-- An entry is written: it is done then, and what was pending under its key is not any more. -/
theorem Matched.write (h : Matched (done ++ pending done rest) copy)
    (hdone : (done ++ f :: fs).Keyed objects) (hrest : rest.Keyed objects)
    (hcopy : copy.Keyed objects) :
    Matched ((done ++ [f]) ++ pending (done ++ [f]) rest) (copy.insert f.1 f.2) := by
  have hkeyed : done.Keyed objects := hdone.sublist (List.sublist_append_left done _)
  have hf : f.1.Keyable objects := hdone.mem (List.mem_append_right done List.mem_cons_self)
  have hwritten := h.insert (keyed_pending hkeyed hrest) hcopy hf
  rw [without_append, without_eq_self fun g hg => hdone.keyEq_last hg,
    ← pending_append_singleton] at hwritten
  refine hwritten.perm ?_ (.refl _)
  rw [List.append_assoc]
  exact List.perm_middle.symm

/-- One entry is accepted as another: what was done under its old key is lost. -/
theorem Matched.step (h : Matched (done ++ pending done (e :: rest)) copy)
    (hdone : (done ++ f :: fs).Keyed objects) (hrest : Keyed objects (e :: rest))
    (hcopy : copy.Keyed objects) (hrenamed : Renamed e f copy copy') :
    Matched ((done.without e.1 ++ [f]) ++ pending (done.without e.1 ++ [f]) rest) copy' := by
  have hkeyed : done.Keyed objects := hdone.sublist (List.sublist_append_left done _)
  have he : e.1.Keyable objects := hrest.mem List.mem_cons_self
  have hf : f.1.Keyable objects := hdone.mem (List.mem_append_right done List.mem_cons_self)
  cases hrenamed with
  | same hfe =>
    -- nothing is written, and the entry is done as it was
    subst hfe
    have hnew : done.contains f.1 = false :=
      List.any_eq_false.mpr fun g hg => by simp [hdone.keyEq_of_append hg]
    rw [without_eq_self fun g hg => hdone.keyEq_last hg, pending_append_singleton,
      without_pending done hrest, List.append_assoc]
    rwa [pending_cons_of_not_contains hnew] at h
  | written hkeeps =>
    -- the old key is the new one, so nothing that is done is under it
    have hkeys : f.1.keyEq e.1 = true := keyEq_of_keeps hkeeps
    have hwithout : done.without e.1 = done := by
      refine without_eq_self fun g hg => ?_
      cases heg : e.1.keyEq g.1 with
      | false => rfl
      | true =>
        have hfg := keyEq_trans hf he (hkeyed.mem hg) hkeys heg
        rw [hdone.keyEq_last hg] at hfg
        cases hfg
    have hwritten := h.write hdone hrest hcopy
    rw [pending_cons_of_contains (contains_of_mem (e := f) (by simp) hkeys)] at hwritten
    rwa [hwithout]
  | moved _ hcontains =>
    -- removed first, and with it whatever has been written under the old key
    have hself : e.1.keyEq e.1 = true := by
      obtain ⟨d, hd, hde, -, -⟩ := perm_of_contains hcontains
      exact keyEq_trans he (hcopy.mem hd) he (keyEq_symm (hcopy.mem hd) he hde) hde
    have hleft := h.erase (keyed_pending hkeyed hrest) hcopy he hcontains
    rw [without_append, pending_cons_without hself hrest, ← pending_without hkeyed hrest] at hleft
    have hsub : (done.without e.1).Sublist done := List.filter_sublist
    have herased : (copy.erase e.1).Keyed objects := by
      obtain ⟨before, d, after, rfl, -, -, -, herase⟩ := exists_split hcontains
      rw [herase]
      exact hcopy.sublist ((List.Sublist.refl before).append (List.sublist_cons_self d after))
    exact hleft.write (hdone.sublist (hsub.append (.refl (f :: fs))))
      (hrest.sublist (List.sublist_cons_self e rest)) herased

/-- While entries are accepted as others, keys stay told apart, and entries do not become more.  A new
key is settled with its entry, and so is an old one that it keeps. -/
theorem kept_of_renamed {K V : Value → Prop} {size : Nat}
    (h : Kept objects K V size (e :: rest) copy) (hrest : Keyed objects (e :: rest))
    (hf : f.1.Keyable objects) (hstays : Borrowed.keeps e.1 f.1 = .ok true → K e.1) (hkey : K f.1)
    (hvalue : V f.2) (hrenamed : Renamed e f copy copy') : Kept objects K V size rest copy' := by
  cases hrenamed with
  | same hfe =>
    subst hfe
    exact h.skip hkey hvalue
  | written hkeeps =>
    have hef := keyEq_symm hf (hrest.mem List.mem_cons_self) (keyEq_of_keeps hkeeps)
    exact h.overwrite hrest hf hef (hstays hkeeps) hkey hvalue
  | moved _ hcontains => exact h.move hrest hcontains hf hkey hvalue

theorem kept_of_renamedAll {K V : Value → Prop} {size : Nat} (h : Kept objects K V size es copy)
    (hes : es.Keyed objects) (hfs : ∀ f ∈ fs, f.1.Keyable objects)
    (hsettled : ∀ c ∈ es.zip fs,
      (Borrowed.keeps c.1.1 c.2.1 = .ok true → K c.1.1) ∧ K c.2.1 ∧ V c.2.2)
    (hrenamed : RenamedAll es fs copy output) : Kept objects K V size [] output := by
  induction hrenamed with
  | done => exact h
  | next hstep _ ih =>
    rw [List.forall_mem_cons] at hfs
    rw [List.zip_cons_cons, List.forall_mem_cons] at hsettled
    obtain ⟨⟨hstays, hkey, hvalue⟩, hlater⟩ := hsettled
    exact ih (kept_of_renamed h hes hfs.1 hstays hkey hvalue hstep)
      (hes.sublist (List.sublist_cons_self ..)) hfs.2 hlater

/-- The entries that are done and not lost later on. -/
def lasting (done rest : Entries) : Entries :=
  done.filter fun g => !contains rest g.1

/-- If the new keys are pairwise different, then what is left in the end are those entries that are
not lost, one for one. -/
theorem matched_of_renamedAll {size : Nat} (h : Matched (done ++ pending done es) copy)
    (hkept : Kept objects (fun _ => True) (fun _ => True) size es copy)
    (hdone : (done ++ fs).Keyed objects) (hes : es.Keyed objects)
    (hrenamed : RenamedAll es fs copy output) :
    Matched (lasting done es ++ survivors es fs) output := by
  induction hrenamed generalizing done with
  | done =>
    have hlasting : lasting done [] = done := by simp [lasting, contains]
    simpa [pending, survivors, hlasting] using h
  | @next e f es fs copy copy' output hstep _ ih =>
    have hsub : (done.without e.1 ++ [f]).Sublist (done ++ [f]) :=
      List.filter_sublist.append (.refl [f])
    have hnext := h.step hdone hes hkept.keyed hstep
    have hdone' : (done.without e.1 ++ [f] ++ fs).Keyed objects := by
      rw [List.append_cons] at hdone
      exact hdone.sublist (hsub.append (.refl fs))
    have hout := ih hnext
      (kept_of_renamed hkept hes (hdone.mem (by simp)) (fun _ => trivial) trivial trivial hstep) hdone'
      (hes.sublist (List.sublist_cons_self e es))
    -- what the step removes does not last, and the new entry lasts if it survives
    have hlasting : lasting (done.without e.1 ++ [f]) es ++ survivors es fs =
        lasting done (e :: es) ++ survivors (e :: es) (f :: fs) := by
      have hdropped : lasting (done.without e.1) es = lasting done (e :: es) := by
        simp [lasting, without, contains, List.filter_filter, Bool.and_comm]
      rw [lasting, List.filter_append, ← lasting, hdropped, List.append_assoc]
      cases hcontains : contains es f.1 <;> simp [survivors, hcontains]
    rwa [hlasting] at hout

/-! ### Whole mappings -/

/-- No new key is the old key of an entry that comes later. -/
def Clear : Entries → Entries → Prop
  | _ :: es, f :: fs => contains es f.1 = false ∧ Clear es fs
  | _, _ => True

theorem survivors_sublist (es fs : Entries) : (survivors es fs).Sublist fs := by
  fun_induction survivors es fs with
  | case1 e es f fs hcontains ih => exact ih.cons f
  | case2 e es f fs hcontains ih => exact ih.cons_cons f
  | case3 => exact List.nil_sublist _

/-- All entries survive exactly when no new key is the old key of an entry that comes later. -/
theorem survivors_eq_iff (h : es.length = fs.length) : survivors es fs = fs ↔ Clear es fs := by
  fun_induction survivors es fs with
  | case1 e es f fs hcontains ih =>
    refine iff_of_false (fun heq => ?_) fun hclear => ?_
    · have hle := (survivors_sublist es fs).length_le
      rw [heq, List.length_cons] at hle
      omega
    · cases hcontains.symm.trans hclear.1
  | case2 e es f fs hcontains ih =>
    rw [List.cons.injEq, eq_self, true_and, ih (Nat.succ.inj h), Clear]
    exact (and_iff_right (Bool.eq_false_iff.mpr hcontains)).symm
  | case3 es fs hne =>
    cases es with
    | nil => simp [List.length_eq_zero_iff.mp h.symm, Clear]
    | cons e es =>
      cases fs with
      | nil => cases h
      | cons f fs => exact (hne e es f fs rfl rfl).elim

theorem RenamedAll.length_eq (h : RenamedAll es fs copy output) : es.length = fs.length := by
  induction h with
  | done => rfl
  | next _ _ ih => rw [List.length_cons, List.length_cons, ih]

theorem keyed_of_renamedAll (hes : es.Keyed objects) (hfs : ∀ f ∈ fs, f.1.Keyable objects)
    (h : RenamedAll es fs es output) : output.Keyed objects ∧ output.length ≤ es.length := by
  have hkept := kept_of_renamedAll (K := fun _ => True) (V := fun _ => True) (.start hes) hes hfs
    (fun _ _ => ⟨fun _ => trivial, trivial, trivial⟩) h
  exact ⟨hkept.keyed, hkept.size⟩

theorem matched_survivors (hes : es.Keyed objects) (hfs : fs.Keyed objects)
    (h : RenamedAll es fs es output) : Matched (survivors es fs) output := by
  have hpending : pending [] es = es := by simp [pending, contains]
  have hmatched : Matched ([] ++ pending [] es) es := by
    rw [List.nil_append, hpending]
    exact .refl es
  exact matched_of_renamedAll hmatched (.start hes) hfs hes h

end Value.Entries

end Conform
