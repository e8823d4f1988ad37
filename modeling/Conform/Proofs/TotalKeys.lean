/-
  Conform/Proofs/TotalKeys.lean
  =============================
  **Maps, records and objects return.**  What is written under a key can be a
  key, and there is always something to remove when a map gives an entry
  another key: the keys that are still to come are never touched
  (`Borrowed.Holds`).
-/
import Conform.Proofs.TotalParts

namespace Conform

/-! ### Entries -/

namespace Value.Entries

variable {entries : Entries} {key v : Value}

/-- A key that is there stays when something is written. -/
theorem exists_mem_insert {k w : Value} (h : (k, w) ∈ entries) :
    ∃ u, (k, u) ∈ entries.insert key v := by
  induction entries with
  | nil => cases h
  | cons e rest ih =>
    unfold insert
    rcases List.mem_cons.mp h with rfl | h
    · split
      · exact ⟨v, List.mem_cons_self⟩
      · exact ⟨w, List.mem_cons_self⟩
    · split
      · exact ⟨w, List.mem_cons_of_mem _ h⟩
      · obtain ⟨u, hu⟩ := ih h
        exact ⟨u, List.mem_cons_of_mem _ hu⟩

/-- A key that is told apart from another stays when the other is removed. -/
theorem mem_erase_of_keyEq {e : Value × Value} (h : e ∈ entries) (hkey : e.1.keyEq key = false) :
    e ∈ entries.erase key := by
  induction entries with
  | nil => cases h
  | cons f rest ih =>
    unfold erase
    rcases List.mem_cons.mp h with rfl | h
    · rw [if_neg (Bool.eq_false_iff.mp hkey)]
      exact List.mem_cons_self
    · split
      · exact h
      · exact List.mem_cons_of_mem f (ih h)

theorem contains_of_mem {e : Value × Value} (h : e ∈ entries) (hkey : e.1.keyEq key = true) :
    entries.contains key = true :=
  List.any_eq_true.mpr ⟨e, h, hkey⟩

/-- What holds of all entries holds of them after something is written for which it holds too. -/
theorem forall_insert {Q R : Value → Prop} (h : ∀ e ∈ entries, Q e.1 ∧ R e.2) (hkey : Q key)
    (hv : R v) : ∀ e ∈ entries.insert key v, Q e.1 ∧ R e.2 := by
  induction entries with
  | nil => exact List.forall_mem_singleton.mpr ⟨hkey, hv⟩
  | cons e rest ih =>
    rw [List.forall_mem_cons] at h
    unfold insert
    split
    · exact List.forall_mem_cons.mpr ⟨⟨h.1.1, hv⟩, h.2⟩
    · exact List.forall_mem_cons.mpr ⟨h.1, ih h.2⟩

theorem forall_erase {Q : Value × Value → Prop} (h : ∀ e ∈ entries, Q e) :
    ∀ e ∈ entries.erase key, Q e := by
  induction entries with
  | nil => exact h
  | cons e rest ih =>
    rw [List.forall_mem_cons] at h
    unfold erase
    split
    · exact h.2
    · exact List.forall_mem_cons.mpr ⟨h.1, ih h.2⟩

end Value.Entries

section

variable {P : Scalar → Prop} {ctx : Context} {A B C : Value → Prop} {x : Value}

/-- All keys and values are made of scalars of some kinds. -/
def Value.EveryEntry (P : Scalar → Prop) (entries : Value.Entries) : Prop :=
  ∀ e ∈ entries, e.1.Every P ∧ e.2.Every P

/-! ### Signals -/

namespace Validator

/-- A signal fits a value: an accepted value carries it, and a reason is a text. -/
structure Signal.Fits (P : Scalar → Prop) (x : Value) (signal : Signal) : Prop where
  accepted {y : Value} : signal.accepted? x = some y →
    y.Every P ∧ (x.isHashable = true → y.isHashable = true)
  reason {message : Value} : signal = .failed message → message.toStr?.isSome = true

/-- A text is never read as the signal of a valid value. -/
theorem Signal.ofMessage_of_text {message : Value} (h : message.toStr?.isSome = true) :
    ofMessage message = .failed message := by
  unfold ofMessage
  rw [if_neg]
  intro hsame
  cases message with
  | scalar id s =>
    cases s with
    | str flavor s => cases id <;> cases hsame
    | _ => cases h
  | _ => cases h

theorem returns_check (hP : ∀ s, P s → s.IsData = true) {v : Validator} (hv : v.Total ctx P B)
    (hx : x.Data P) : Returns (check v ctx x) (Signal.Fits P x) := by
  unfold check
  refine (hv x (.inr hx)).toEffect.bind fun d hd => ?_
  have hsuccess (hstatus : d.status = .success) :
      Returns (pure (if d.value.same x then .asIs else .replaced d.value) : Effect Signal)
        (Signal.Fits P x) := by
    have hvalue := (hd.typed (by rw [Dataset.isTyped, hstatus]; rfl)).2
    split
    · refine returns_pure ⟨fun h => ?_, fun h => by cases h⟩
      cases h
      exact ⟨hx.every, fun h => h⟩
    · refine returns_pure ⟨fun h => ?_, fun h => by cases h⟩
      cases h
      exact ⟨hvalue.every_of_data hP hx, hvalue.hashable (hx.isUndefined hP)⟩
  cases hissues : d.issues with
  | nil =>
    have hstatus : d.status = .success := Decidable.byContradiction fun h => hd.failed h hissues
    rw [hstatus]
    exact hsuccess hstatus
  | cons i rest =>
    have hmessage := (hd.shown i (hissues ▸ List.mem_cons_self)).message
    have hfailed : (Signal.ofMessage i.message).Fits P x := by
      rw [Signal.ofMessage_of_text hmessage]
      refine ⟨fun h => (by cases h), fun h => ?_⟩
      cases h
      exact hmessage
    cases hstatus : d.status with
    | success => exact hsuccess hstatus
    | _ => exact returns_pure hfailed

/-- The check of an invalid key or value comes to an issue that can be shown; of a valid one, to
what takes its place. -/
theorem returns_entryCheck (hP : ∀ s, P s → s.IsData = true) (hctx : ctx.Plain) {l : Label}
    (hl : l.message.isOptionalText = true) {messageKey : String}
    (hmessage : messageKey ∈ Message.requirementKeys) {key : Value} (hkey : key.Legible)
    {slot : Slot} (hslot : slot.validator.Total ctx P B) (hx : x.Data P) :
    Returns (entryCheck l ctx messageKey key x slot) (Sum.elim Issue.Shown fun r =>
      r.1.Every P ∧ (x.isHashable = true → r.1.isHashable = true)) := by
  unfold entryCheck
  refine (returns_check hP hslot hx).bind fun signal hsignal => ?_
  cases signal with
  | asIs => exact returns_pure (hsignal.accepted rfl)
  | replaced y => exact returns_pure (hsignal.accepted rfl)
  | failed reason =>
    have hreason := hsignal.reason rfl
    have htext : ∃ t, reason.text = .ok t := by
      cases reason with
      | scalar id s =>
        cases s with
        | str flavor s => exact ⟨_, rfl⟩
        | _ => cases hreason
      | _ => cases hreason
    unfold entryIssue
    refine Returns.bind (Q := Issue.Shown) ?_ fun i hi => returns_pure hi
    refine (returns_report hctx hl ?_).bind fun i hi => returns_pure (hi.under hkey)
    exact Finding.worded_of_requirement (Message.asks_requirement _ hmessage) htext

/-! ### Maps -/

end Validator

theorem Value.Keys.tail {k : Value} {keys : List Value} (h : Keys (k :: keys)) : Keys keys :=
  ⟨h.apart.of_cons, fun hx => h.same (List.mem_cons_of_mem k hx),
    fun hx => h.hashable (List.mem_cons_of_mem k hx), fun hx => h.legible (List.mem_cons_of_mem k hx)⟩

/-- A mapping under change is made of data, and has the keys that are still to come. -/
structure Borrowed.Holds (P : Scalar → Prop) (rest : Value.Entries) (b : Borrowed) : Prop where
  mapping : b.value.isMapping = true
  every : Value.EveryEntry P b.entries
  coming : ∀ e ∈ rest, ∃ v, (e.1, v) ∈ b.entries

namespace Borrowed

theorem Holds.tail {b : Borrowed} {e : Value × Value} {rest : Value.Entries}
    (h : b.Holds P (e :: rest)) : b.Holds P rest :=
  ⟨h.mapping, h.every, fun f hf => h.coming f (List.mem_cons_of_mem e hf)⟩

theorem Holds.value {b : Borrowed} {rest : Value.Entries} (h : b.Holds P rest) :
    b.value.Every P := by
  have hevery := h.every
  have hmapping := h.mapping
  unfold entries at hevery
  cases hvalue : b.value with
  | mapping id kind es =>
    rw [hvalue] at hevery
    exact Value.every_mapping.mpr hevery
  | _ =>
    rw [hvalue] at hmapping
    cases hmapping

theorem Holds.own {b : Borrowed} {rest : Value.Entries} (h : b.Holds P rest) :
    b.own.Holds P rest := by
  refine ⟨?_, by rw [entries_own]; exact h.every, by rw [entries_own]; exact h.coming⟩
  unfold Borrowed.own
  split
  · exact h.mapping
  · rfl

/-- The key of the entry at hand can be removed, and those that are still to come stay. -/
theorem Holds.exists_remove {b : Borrowed} {e : Value × Value} {rest : Value.Entries}
    (h : b.Holds P (e :: rest)) (hkeys : Value.Keys ((e :: rest).map (·.1))) :
    ∃ b', b.remove e.1 = .ok b' ∧ b'.Holds P rest := by
  obtain ⟨v, hv⟩ := h.coming e List.mem_cons_self
  have hcontains := Value.Entries.contains_of_mem hv (hkeys.same List.mem_cons_self)
  have hhashable := hkeys.hashable (x := e.1) List.mem_cons_self
  refine ⟨b.withEntries (b.entries.erase e.1), by rw [remove, hhashable, hcontains]; rfl, rfl,
    Value.Entries.forall_erase h.every, fun f hf => ?_⟩
  obtain ⟨w, hw⟩ := h.coming f (List.mem_cons_of_mem e hf)
  have hapart := List.rel_of_pairwise_cons hkeys.apart (List.mem_map_of_mem hf)
  exact ⟨w, Value.Entries.mem_erase_of_keyEq hw hapart.2⟩

theorem Holds.exists_write {b : Borrowed} {rest : Value.Entries} (h : b.Holds P rest)
    {newKey newValue : Value} (hkey : newKey.Every P) (hhashable : newKey.isHashable = true)
    (hvalue : newValue.Every P) :
    ∃ b', b.write newKey newValue = .ok b' ∧ b'.Holds P rest := by
  refine ⟨b.withEntries (b.entries.insert newKey newValue), by rw [write, hhashable]; rfl, rfl,
    Value.Entries.forall_insert h.every hkey hvalue, fun f hf => ?_⟩
  obtain ⟨w, hw⟩ := h.coming f hf
  exact Value.Entries.exists_mem_insert hw

/-- What is hashable can be looked at for being the same key. -/
theorem exists_keeps {key newKey : Value} (hkey : key.isHashable = true)
    (hnew : newKey.isHashable = true) : ∃ r, keeps key newKey = .ok r := by
  unfold keeps
  split
  · exact Value.exists_eq_of_isHashable hnew hkey
  · exact ⟨false, rfl⟩

theorem Holds.exists_replace {b : Borrowed} {e : Value × Value} {rest : Value.Entries}
    (h : b.Holds P (e :: rest)) (hkeys : Value.Keys ((e :: rest).map (·.1)))
    {newKey newValue : Value} (hkey : newKey.Every P) (hhashable : newKey.isHashable = true)
    (hvalue : newValue.Every P) :
    ∃ b', b.replace e.1 newKey newValue = (b', none) ∧ b'.Holds P rest := by
  obtain ⟨kept, hkept⟩ := exists_keeps (hkeys.hashable (x := e.1) List.mem_cons_self) hhashable
  unfold replace
  simp only [hkept]
  cases kept with
  | true =>
    obtain ⟨written, hwritten, hholds⟩ := h.own.tail.exists_write hkey hhashable hvalue
    exact ⟨written, by simp only [hwritten], hholds⟩
  | false =>
    obtain ⟨removed, hremoved, hrest⟩ := h.own.exists_remove hkeys
    obtain ⟨written, hwritten, hholds⟩ := hrest.exists_write hkey hhashable hvalue
    exact ⟨written, by simp only [hremoved, hwritten], hholds⟩

end Borrowed

/-- What is known of the entries of a mapping that are still to come. -/
structure Value.Entries.Coming (P : Scalar → Prop) (rest : Value.Entries) : Prop where
  keys : Value.Keys (rest.map (·.1))
  key : ∀ e ∈ rest, e.1.Data P
  value : ∀ e ∈ rest, e.2.Data P

theorem Value.Entries.Coming.tail {e : Value × Value} {rest : Value.Entries}
    (h : Coming P (e :: rest)) : Coming P rest :=
  ⟨h.keys.tail, fun f hf => h.key f (List.mem_cons_of_mem e hf),
    fun f hf => h.value f (List.mem_cons_of_mem e hf)⟩

namespace Validator

/-- An issue is added, and the entry at hand is left as it is. -/
theorem holds_addIssue {α : Type} {O : α → Prop} {g : Gathering α} (hg : g.Fits O) {i : Issue}
    (hi : i.Shown) : (g.addIssue ctx i).Holds (Gathering.Fits O) Dataset.Stopped := by
  rw [Gathering.addIssue_eq_receive]
  exact hg.receive hi.contribution

theorem returns_mapSteps (hP : ∀ s, P s → s.IsData = true) (hctx : ctx.Plain) {l : Label}
    (hl : l.message.isOptionalText = true) {key value : Slot}
    (hkey : key.validator.Total ctx P B) (hvalue : value.validator.Total ctx P C)
    {entries : Value.Entries} (hentries : entries.Coming P) {g : Gathering Borrowed}
    (hg : g.Fits (Borrowed.Holds P entries)) :
    Returns (Gathering.steps (mapStep l key value ctx) entries g)
      (Progress.Holds (Gathering.Fits (Borrowed.Holds P [])) Dataset.Stopped) := by
  refine (returns_steps (J := fun rest g => Value.Entries.Coming P rest ∧ g.Fits (Borrowed.Holds P rest))
    (K := Dataset.Stopped) ?_ ⟨hentries, hg⟩).mono fun p hp => hp.mono fun _ h => h.2
  rintro e rest g ⟨hrest, hg⟩
  have hleft : g.Fits (Borrowed.Holds P rest) := hg.mono fun _ h => h.tail
  have reported {i : Issue} (hi : i.Shown) : (g.addIssue ctx i).Holds
      (fun g => Value.Entries.Coming P rest ∧ g.Fits (Borrowed.Holds P rest)) Dataset.Stopped :=
    (holds_addIssue hleft hi).mono fun _ h => ⟨hrest.tail, h⟩
  have hlegible : e.1.Legible := hrest.keys.legible List.mem_cons_self
  unfold mapStep
  refine ((returns_entryCheck hP hctx hl (by simp [Message.requirementKeys]) hlegible hkey
    (hrest.key e List.mem_cons_self)).within _).bind fun r hr => ?_
  cases r with
  | inl i => exact returns_pure (reported hr)
  | inr newKey =>
    refine ((returns_entryCheck hP hctx hl (by simp [Message.requirementKeys]) hlegible hvalue
      (hrest.value e List.mem_cons_self)).within _).bind fun r hr' => ?_
    cases r with
    | inl i => exact returns_pure (reported hr')
    | inr newValue =>
      dsimp only
      split
      · obtain ⟨output, houtput, hholds⟩ := hg.output.exists_replace hrest.keys hr.1
          (hr.2 (hrest.keys.hashable List.mem_cons_self)) hr'.1
        rw [houtput]
        exact returns_pure ⟨hrest.tail, hg.shown, hg.untyped, hholds⟩
      · exact returns_pure ⟨hrest.tail, hleft⟩

/-- A mapping that is validated is data, and cannot be a key. -/
theorem data_of_entries {entries : Value.Entries} (hx : x.Fit P)
    (hentries : x.entries? = some entries) : x.Data P ∧ x.isHashable = false := by
  cases x with
  | mapping id kind es => exact ⟨hx.resolve_left fun h => (by cases h), rfl⟩
  | _ => cases hentries

theorem total_map (hP : ∀ s, P s → s.IsData = true) (hctx : ctx.Plain) {l : Label}
    (hl : l.message.isOptionalText = true) (htype : l.type = "map") {limits : Limits}
    (hlimits : ∀ limit, limit ∈ limits.least ∨ limit ∈ limits.most →
      ∃ t, limit.requirement.text = .ok t) {key value : Slot}
    (hkey : key.validator.Total ctx P B) (hvalue : value.validator.Total ctx P C)
    (hA : ∀ y : Value, y.isMapping = true → A y) : (map l limits key value).Total ctx P A := by
  intro x hx
  unfold map
  split
  · exact returns_mismatch hctx hl (by simp [htype, Message.shapeKeys]) x
  · next entries hentries =>
    have hentries : x.entries? = some entries := hentries
    have hmapping : x.isMapping = true := by rw [Value.isMapping, hentries]; rfl
    obtain ⟨hdata, hhashable⟩ := data_of_entries hx hentries
    obtain ⟨hkeys, hfirst, hsecond⟩ := hdata.entries hentries
    refine returns_ifSized hctx hl (by simp [htype]) hlimits ?_ _ _
    have hstart : (Gathering.start (Dataset.fresh x) (⟨x, false⟩ : Borrowed)).Fits
        (Borrowed.Holds P entries) := by
      have hsame : (⟨x, false⟩ : Borrowed).entries = entries := by
        unfold Borrowed.entries
        rw [hentries]
        rfl
      refine ⟨fun _ hi => (by cases hi), fun h => (by cases h), hmapping, ?_, fun e he => ⟨e.2, ?_⟩⟩
      · rw [Gathering.start, hsame]
        exact fun e he => ⟨(hfirst e he).every, (hsecond e he).every⟩
      · rw [Gathering.start, hsame]
        exact he
    refine (returns_mapSteps hP hctx hl hkey hvalue ⟨hkeys, hfirst, hsecond⟩ hstart).bind
      fun p hp => ?_
    cases p with
    | stopped d => exact returns_giveUp hp
    | going g =>
      dsimp only
      split
      · refine returns_pure ⟨hp.shown, fun h => (h rfl).elim, fun _ => ⟨hA _ hp.output.mapping, ?_⟩⟩
        exact ⟨.inl hp.output.value, fun _ h => by cases hhashable.symm.trans h⟩
      · next hne => exact returns_giveUp ⟨hp.shown, fun h => hne (List.isEmpty_iff.mpr h)⟩

/-! ### Records -/

/-- An entry of data, under a key that can be a key and can be shown. -/
structure FitsEntry (P : Scalar → Prop) (e : Value × Value) : Prop where
  key : e.1.Data P
  value : e.2.Data P
  hashable : e.1.isHashable = true
  legible : e.1.Legible

theorem fitsEntry_of_data {entries : Value.Entries} (hx : x.Data P)
    (hentries : x.entries? = some entries) : ∀ e ∈ entries, FitsEntry P e := by
  obtain ⟨hkeys, hfirst, hsecond⟩ := hx.entries hentries
  exact fun e he => ⟨hfirst e he, hsecond e he, hkeys.hashable (List.mem_map_of_mem he),
    hkeys.legible (List.mem_map_of_mem he)⟩

/-- A mapping is made of what has been gathered for its entries. -/
theorem returns_finishMapping (hx : x.isHashable = false)
    (hA : ∀ y : Value, y.isMapping = true → A y) {p : Progress Value.Entries}
    (hp : p.Holds (Gathering.Fits (Value.EveryEntry P)) Dataset.Stopped) :
    Returns (p.finish fun output => .ok (.ofMapping output))
      (Dataset.Fits fun y => A y ∧ x.Carries P y) := by
  refine returns_finish (fun output houtput => ⟨_, rfl, hA _ rfl, ?_, fun _ h => ?_⟩) hp
  · exact .inl (Value.every_mapping.mpr houtput)
  · cases hx.symm.trans h

theorem returns_recordStep (hP : ∀ s, P s → s.IsData = true) (hctx : ctx.Plain) {l : Label}
    (hl : l.message.isOptionalText = true) {key : Slot} {value : Validator}
    (hkey : key.validator.Total ctx P B) (hvalue : value.Total ctx P C) {e : Value × Value}
    (he : FitsEntry P e) {g : Gathering Value.Entries} (hg : g.Fits (Value.EveryEntry P)) :
    Returns (recordStep l key value ctx e g)
      (Progress.Holds (Gathering.Fits (Value.EveryEntry P)) Dataset.Stopped) := by
  unfold recordStep
  refine ((returns_entryCheck hP hctx hl (by simp [Message.requirementKeys]) he.legible hkey
    he.key).within _).bind fun r hr => ?_
  cases r with
  | inl i => exact returns_pure (holds_addIssue hg hr)
  | inr newKey =>
    have hhashable := hr.2 he.hashable
    refine (((hvalue _ (.inr he.value)).toEffect).within _).bind fun part hpart => ?_
    have htaken : (g.take ctx e.1 part fun v output => output.insert newKey.1 v).Holds
        (Gathering.Fits (Value.EveryEntry P)) Dataset.Stopped := by
      rw [Gathering.take_eq_receive]
      refine hg.receive (hpart.contribution he.legible
        (fun v (output : Value.Entries) => output.insert newKey.1 v) ?_ fun _ h => h)
      intro y hy output houtput
      exact Value.Entries.forall_insert houtput hr.1 (hy.2.every_of_data hP he.value)
    dsimp only
    rw [hhashable, Bool.not_true, Bool.and_false]
    generalize (g.take ctx e.1 part fun v output => output.insert newKey.1 v) = progress at htaken
    cases progress with
    | going g' => exact returns_pure htaken
    | stopped d => exact returns_pure htaken

theorem total_record (hP : ∀ s, P s → s.IsData = true) (hctx : ctx.Plain) {l : Label}
    (hl : l.message.isOptionalText = true) (htype : l.type = "record") {key : Slot}
    {value : Validator} (hkey : key.validator.Total ctx P B) (hvalue : value.Total ctx P C)
    (hA : ∀ y : Value, y.isMapping = true → A y) : (record l key value).Total ctx P A := by
  intro x hx
  unfold record
  split
  · exact returns_mismatch hctx hl (by simp [htype, Message.shapeKeys]) x
  · next entries hentries =>
    obtain ⟨hdata, hhashable⟩ := data_of_entries hx hentries
    have hstart : (Gathering.start (Dataset.fresh x) ([] : Value.Entries)).Fits
        (Value.EveryEntry P) :=
      ⟨fun _ hi => (by cases hi), fun h => (by cases h), fun _ he => by cases he⟩
    exact (returns_each (fun e he g hg => returns_recordStep hP hctx hl hkey hvalue he hg)
      (fitsEntry_of_data hdata hentries) hstart).bind fun p hp =>
        returns_finishMapping hhashable hA hp

/-! ### Objects -/

/-- A declared key of data, which can be shown, with a validator that returns. -/
structure Entry.Fits (ctx : Context) (P : Scalar → Prop) (e : Entry) : Prop where
  key : e.key.Every P
  legible : e.key.Legible
  total : ∃ B, e.validator.Total ctx P B

theorem returns_missingIssue (hctx : ctx.Plain) {l : Label}
    (hl : l.message.isOptionalText = true) {key : Value} (hkey : key.Legible)
    (hobject : key.isObject = false) (expects : String) :
    Returns (missingIssue l ctx key expects) Issue.Shown := by
  refine (returns_report hctx hl ?_).bind fun i hi => returns_pure (hi.under hkey)
  exact Finding.worded_of_requirement
    (Message.asks_requirement _ (by simp [Message.requirementKeys]))
    (Value.exists_text hkey hobject)

theorem returns_extraIssue (hctx : ctx.Plain) {l : Label} (hl : l.message.isOptionalText = true)
    {kind : ObjectKind} (hkind : kind ≠ .guarded) {key : Value} (hkey : key.Legible)
    (hobject : key.isObject = false) (v : Value) :
    Returns (extraIssue l kind ctx key v) Issue.Shown := by
  unfold extraIssue
  have hguarded : (kind == .guarded) = false := beq_eq_false_iff_ne.mpr hkind
  rw [hguarded]
  refine (returns_report hctx hl ?_).bind fun i hi => returns_pure (hi.under hkey)
  exact Finding.worded_of_requirement
    (Message.asks_requirement _ (by simp [Message.requirementKeys]))
    (Value.exists_text hkey hobject)

theorem everyEntry_putEntry {key v : Value} (hkey : key.Every P)
    (hv : v.Every P ∨ v.isUndefined = true) {output : Value.Entries}
    (houtput : Value.EveryEntry P output) : Value.EveryEntry P (putEntry key v output) := by
  unfold putEntry
  split
  · exact houtput
  · next hdefined =>
    intro e he
    rcases List.mem_append.mp he with he | he
    · exact houtput e he
    · rw [List.mem_singleton.mp he]
      exact ⟨hkey, hv.resolve_right hdefined⟩

theorem returns_entryStep (hP : ∀ s, P s → s.IsData = true) (hctx : ctx.Plain) {l : Label}
    (hl : l.message.isOptionalText = true) (absent : Absent) {input : Value.Entries}
    (hinput : ∀ e ∈ input, FitsEntry P e) {e : Entry} (he : e.Fits ctx P)
    {g : Gathering Value.Entries} (hg : g.Fits (Value.EveryEntry P)) :
    Returns (entryStep l absent input ctx e g)
      (Progress.Holds (Gathering.Fits (Value.EveryEntry P)) Dataset.Stopped) := by
  obtain ⟨B, htotal⟩ := he.total
  have validated {v : Value} (hv : v.Fit P) :
      Returns (do
        let part ← within g.dataset (e.validator.apply ctx v)
        return g.take ctx e.key part (putEntry e.key) : Run (Progress Value.Entries))
        (Progress.Holds (Gathering.Fits (Value.EveryEntry P)) Dataset.Stopped) := by
    refine (((htotal _ hv).toEffect).within _).bind fun part hpart => ?_
    rw [Gathering.take_eq_receive]
    refine returns_pure (hg.receive (hpart.contribution he.legible _
      (fun y hy output houtput => ?_) fun _ h => h))
    exact everyEntry_putEntry he.key (hy.2.every.imp_right fun h => h.2) houtput
  unfold entryStep
  dsimp only
  split
  · next v hfound =>
    obtain ⟨f, hf, rfl⟩ := Option.map_eq_some_iff.mp hfound
    exact validated (.inr (hinput f (List.mem_of_find?_eq_some hf)).value)
  · cases absent with
    | validate => exact validated (.inl rfl)
    | skip => exact returns_pure hg
    | reject =>
      exact ((returns_missingIssue hctx hl he.legible (he.key.isObject hP) _).within _).bind
        fun i hi => returns_pure (holds_addIssue hg hi)

theorem returns_extraStep (hP : ∀ s, P s → s.IsData = true) (hctx : ctx.Plain) {l : Label}
    (hl : l.message.isOptionalText = true) {kind : ObjectKind} (hkind : kind ≠ .guarded)
    (extra : Extra) {e : Value × Value} (he : FitsEntry P e) {g : Gathering Value.Entries}
    (hg : g.Fits (Value.EveryEntry P)) :
    Returns (extraStep l kind extra ctx e g)
      (Progress.Holds (Gathering.Fits (Value.EveryEntry P)) Dataset.Stopped) := by
  cases extra with
  | strip => exact returns_pure hg
  | loose =>
    refine returns_pure ⟨hg.shown, hg.untyped, fun f hf => ?_⟩
    rcases List.mem_append.mp hf with hf | hf
    · exact hg.output f hf
    · rw [List.mem_singleton.mp hf]
      exact ⟨he.key.every, he.value.every⟩
  | strict =>
    exact ((returns_extraIssue hctx hl hkind he.legible (he.key.every.isObject hP) _).within
      _).bind fun i hi => returns_pure (holds_addIssue hg hi)

theorem total_object (hP : ∀ s, P s → s.IsData = true) (hctx : ctx.Plain) {l : Label}
    (hl : l.message.isOptionalText = true) (htype : l.type = "object") {kind : ObjectKind}
    (hkind : kind ≠ .guarded) (extra : Extra) (absent : Absent) {entries : List Entry}
    (hentries : ∀ e ∈ entries, e.Fits ctx P) (hA : ∀ y : Value, y.isMapping = true → A y) :
    (object l kind extra absent entries).Total ctx P A := by
  intro x hx
  unfold object
  split
  · exact returns_mismatch hctx hl (by simp [htype, Message.shapeKeys]) x
  · next input hinput =>
    obtain ⟨hdata, hhashable⟩ := data_of_entries hx hinput
    have hfits := fitsEntry_of_data hdata hinput
    have hstart : (Gathering.start (Dataset.fresh x) ([] : Value.Entries)).Fits
        (Value.EveryEntry P) :=
      ⟨fun _ hi => (by cases hi), fun h => (by cases h), fun _ he => by cases he⟩
    refine (returns_each (fun e he g hg => returns_entryStep hP hctx hl absent hfits he hg)
      hentries hstart).bind fun p hp => ?_
    cases p with
    | stopped d => exact returns_finishMapping hhashable hA (p := .stopped d) hp
    | going g =>
      exact (returns_each (fun e he g hg => returns_extraStep hP hctx hl hkind extra he hg)
        (fun e he => hfits e (List.mem_filter.mp he).1) hp).bind fun p hp =>
          returns_finishMapping hhashable hA hp

end Validator

end

end Conform
