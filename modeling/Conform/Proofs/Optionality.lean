/-
  Conform/Proofs/Optionality.lean
  ===============================
  **Optional and required keys.**  What a derived object does with an absent key is all
  that sets it apart from its source, so on a mapping it differs only where keys are
  absent.  Where all keys are optional, the absent ones might as well not be declared
  (`validator_skip`); where all are required, each absent key is one issue beside those
  of the object with optional keys (`exists_required`).
-/
import Conform.Proofs.Declared
import Conform.Proofs.Derived
import Conform.Proofs.Shares

namespace Conform

open Validator

/-! ### Keys that are there -/

/-- The declared keys that a mapping has. -/
def Schema.present (entries : List (Value × Schema)) (input : Value.Entries) :
    List (Value × Schema) :=
  entries.filter fun e => input.contains e.1

section

variable {objects : Nat → Value} {entries : List (Value × Schema)} {input : Value.Entries}
  (hentries : ∀ e ∈ entries, e.1.Keyable objects) (hinput : ∀ e ∈ input, e.1.Keyable objects)

include hentries hinput

/-- A declared key is there exactly when it is among those that are. -/
theorem any_present {e : Value × Schema} (he : e ∈ entries) :
    ((Schema.present entries input).map (·.1)).any (·.keyEq e.1) = input.contains e.1 := by
  rw [Bool.eq_iff_iff, List.any_eq_true]
  constructor
  · rintro ⟨k, hk, hsame⟩
    obtain ⟨f, hf, rfl⟩ := List.mem_map.mp hk
    obtain ⟨hf, hthere⟩ := List.mem_filter.mp hf
    obtain ⟨g, hg, hgf⟩ := List.any_eq_true.mp hthere
    exact List.any_eq_true.mpr ⟨g, hg,
      Value.keyEq_trans (hinput g hg) (hentries f hf) (hentries e he) hgf hsame⟩
  · intro hthere
    obtain ⟨g, hg, hge⟩ := List.any_eq_true.mp hthere
    have hself := Value.keyEq_trans (hentries e he) (hinput g hg) (hentries e he)
      (Value.keyEq_symm (hinput g hg) (hentries e he) hge) hge
    exact ⟨e.1, List.mem_map_of_mem (List.mem_filter.mpr ⟨he, hthere⟩), hself⟩

/-- The declared keys that are there can be picked. -/
theorem pickFrom_present {m : Value} {id : Nat} {kind : ObjectKind} {extra : Extra} {absent : Absent}
    (id' : Nat) :
    Schema.pickFrom id' (.schema (.object m id kind extra absent entries))
        ((Schema.present entries input).map (·.1)) =
      .ok (.object m id' kind extra absent (Schema.present entries input)) := by
  have hkeys : ∀ k ∈ (Schema.present entries input).map (·.1), k.Keyable objects := by
    intro k hk
    obtain ⟨e, he, rfl⟩ := List.mem_map.mp hk
    exact hentries e (List.mem_of_mem_filter he)
  have hdeclared : Schema.Declared entries ((Schema.present entries input).map (·.1)) := by
    intro k hk
    obtain ⟨e, he, rfl⟩ := List.mem_map.mp hk
    obtain ⟨he, hthere⟩ := List.mem_filter.mp he
    rw [← any_present hentries hinput he] at hthere
    obtain ⟨k, hk, hsame⟩ := List.any_eq_true.mp hthere
    obtain ⟨f, hf, rfl⟩ := List.mem_map.mp hk
    exact List.any_eq_true.mpr ⟨f, List.mem_of_mem_filter hf, hsame⟩
  have hkept : entries.filter (fun e =>
      ((Schema.present entries input).map (·.1)).any (·.keyEq e.1)) = Schema.present entries input :=
    List.filter_congr fun e he => any_present hentries hinput he
  rw [Schema.pickFrom_object hentries hkeys hdeclared, hkept]

/-- A key of the mapping is declared exactly when it is among the declared keys that are there. -/
theorem undeclared_present :
    Schema.undeclared (Schema.present entries input) input = Schema.undeclared entries input := by
  refine List.filter_congr fun e he => congrArg not (Bool.eq_iff_iff.mpr ?_)
  simp only [List.any_eq_true]
  constructor
  · rintro ⟨d, hd, hsame⟩
    exact ⟨d, List.mem_of_mem_filter hd, hsame⟩
  · rintro ⟨d, hd, hsame⟩
    have hthere : input.contains d.1 = true :=
      List.any_eq_true.mpr ⟨e, he, Value.keyEq_symm (hentries d hd) (hinput e he) hsame⟩
    exact ⟨d, List.mem_filter.mpr ⟨hd, hthere⟩, hsame⟩

end

/-! ### Steps on keys that are there, and on others -/

section

variable {ctx : Context} {l : Label} {absent absent' : Absent} {input : Value.Entries} {e : Entry}

/-- What is done with absent keys has no bearing on a key that is there. -/
theorem Validator.entryStep_of_contains (h : input.contains e.key = true) :
    entryStep l absent input ctx e = entryStep l absent' input ctx e := by
  rw [Value.Entries.contains_eq_isSome, Option.isSome_iff_exists] at h
  obtain ⟨v, hv⟩ := h
  funext g
  simp only [entryStep, hv]

/-- An absent key that is optional is passed over. -/
theorem Validator.entryStep_skip (h : input.contains e.key = false) (g : Gathering Value.Entries) :
    entryStep l .skip input ctx e g = return .going g := by
  rw [Value.Entries.contains_eq_isSome, Option.isSome_eq_false_iff, Option.isNone_iff_eq_none] at h
  simp only [entryStep, h]

/-- With optional keys, the steps are those on the keys that are there. -/
theorem Validator.entrySteps_skip (declared : List Entry) (g : Gathering Value.Entries) :
    Gathering.steps (entryStep l .skip input ctx) declared g =
      Gathering.steps (entryStep l absent input ctx) (declared.filter fun e => input.contains e.key)
        g := by
  induction declared generalizing g with
  | nil => rfl
  | cons e rest ih =>
    cases hthere : input.contains e.key with
    | true =>
      rw [List.filter_cons_of_pos (p := fun e : Entry => input.contains e.key) hthere,
        Gathering.steps, Gathering.steps, entryStep_of_contains hthere]
      refine bind_congr fun p => ?_
      cases p with
      | going g' => exact ih g'
      | stopped d => rfl
    | false =>
      rw [List.filter_cons_of_neg (by simp [hthere]), Gathering.steps, entryStep_skip hthere, pure_bind]
      exact ih g

end

section

variable {ctx : Context} {m : Value} {id id' : Nat} {kind : ObjectKind} {extra : Extra} {absent : Absent}
  {entries : List (Value × Schema)} {x : Value} {input : Value.Entries}

theorem entryValidators_present (resolve : Schema → Validator) :
    Schema.entryValidators resolve (Schema.present entries input) =
      (Schema.entryValidators resolve entries).filter fun e => input.contains e.key := by
  rw [Schema.entryValidators_eq_map, Schema.entryValidators_eq_map, List.filter_map]
  rfl

theorem undeclared_entryValidators (resolve : Schema → Validator) :
    undeclared (Schema.entryValidators resolve entries) input = Schema.undeclared entries input := by
  simp only [undeclared, Schema.undeclared, Schema.entryValidators_eq_map, List.any_map]
  rfl

/-- With optional keys an object does what the object with the keys that are there does, whatever that
one does with absent keys, if a key that is not there makes no other key a declared one. -/
theorem validator_skip
    (hundeclared : Schema.undeclared (Schema.present entries input) input =
      Schema.undeclared entries input) (hx : x.entries? = some input) (n : Nat) :
    (Schema.object m id kind extra .skip entries).validatorUpTo n ctx (.fresh x) =
      (Schema.object m id' kind extra absent (Schema.present entries input)).validatorUpTo n ctx
        (.fresh x) := by
  rw [Schema.validatorUpTo_eq, Schema.validatorUpTo_eq, Schema.validator, Schema.validator]
  cases x with
  | mapping identity mappingKind _ =>
    cases hx
    rw [object_of_mapping, object_of_mapping, undeclared_entryValidators, undeclared_entryValidators,
      hundeclared, entrySteps_skip, entryValidators_present]
    rfl
  | _ => cases hx

/-- On a mapping that has all declared keys it does not matter what is done with absent ones. -/
theorem validator_of_complete {absent' : Absent} (hx : x.entries? = some input)
    (hall : ∀ e ∈ entries, input.contains e.1 = true) (n : Nat) :
    (Schema.object m id kind extra absent entries).validatorUpTo n ctx (.fresh x) =
      (Schema.object m id' kind extra absent' entries).validatorUpTo n ctx (.fresh x) := by
  have hpresent : Schema.present entries input = entries := List.filter_eq_self.mpr hall
  have hskip (absent : Absent) (id' : Nat) :
      (Schema.object m id kind extra .skip entries).validatorUpTo n ctx (.fresh x) =
        (Schema.object m id' kind extra absent (Schema.present entries input)).validatorUpTo n ctx
          (.fresh x) := validator_skip (by rw [hpresent]) hx n
  rw [hpresent] at hskip
  exact (hskip absent id).symm.trans (hskip absent' id')

end

/-! ### Required keys beside optional ones -/

/-- Two results of an object on a mapping, with optional keys and with required ones, when some key is
absent: the second has failed.  Each declared key has issues of its own, which for an absent key are the
one that it is required; beside these, both have the issues of the keys that are not declared. -/
structure Dataset.RequiredBeside (names : TypeNames) (l : Label) (entries : List (Value × Schema))
    (input : Value.Entries) (x : Value) (d d' : Dataset) : Prop where
  status : d'.status = .failure
  value : d'.value = x
  issues : ∃ (own : Value × Schema → List Issue) (others : List Issue),
    d.issues = (Schema.present entries input).flatMap own ++ others ∧
    d'.issues = entries.flatMap own ++ others ∧
    (∀ e ∈ entries, Issue.AllAt e.1 (own e)) ∧
    (∀ e ∈ entries, input.contains e.1 = false → ∃ message,
      own e = [{ (l.missing names e.1 e.2.expects).toIssue message with path := [e.1] }]) ∧
    ∀ i ∈ others, ∃ e ∈ Schema.undeclared entries input, i.path.head? = some e.1

/-- What items bring of which some bring nothing. -/
theorem flatMap_eq_of_nil {σ β : Type} {f g : σ → List β} {keep : σ → Bool} {xs : List σ}
    (hnil : ∀ s ∈ xs, keep s = false → f s = []) (hsame : ∀ s ∈ xs, keep s = true → f s = g s) :
    xs.flatMap f = (xs.filter keep).flatMap g := by
  induction xs with
  | nil => rfl
  | cons s rest ih =>
    rw [List.forall_mem_cons] at hnil hsame
    rw [List.flatMap_cons, ih hnil.2 hsame.2]
    cases hkeep : keep s with
    | true => rw [List.filter_cons_of_pos hkeep, List.flatMap_cons, hsame.1 hkeep]
    | false => rw [List.filter_cons_of_neg (by simp [hkeep]), hnil.1 hkeep, List.nil_append]

section

variable {ctx : Context} {I : Found → Prop} {R : Runs} {l : Label} {absent : Absent}
  {input : Value.Entries} {e : Value × Schema} {c : Contribution Value.Entries}

theorem get?_of_absent (h : input.contains e.1 = false) : input.get? e.1 = none := by
  rwa [Value.Entries.contains_eq_isSome, Option.isSome_eq_false_iff, Option.isNone_iff_eq_none] at h

/-- A key that is there brings the same, whatever is done with absent keys. -/
theorem DeclaredBrings.of_contains {absent' : Absent} (hthere : input.contains e.1 = true)
    (h : DeclaredBrings ctx I R l absent input e c) : DeclaredBrings ctx I R l absent' input e c := by
  rw [Value.Entries.contains_eq_isSome] at hthere
  cases h with
  | present hget hrun => exact .present hget hrun
  | validated hget | skipped hget | missing hget =>
    rw [hget] at hthere
    cases hthere

/-- An absent key that is optional brings nothing. -/
theorem DeclaredBrings.eq_plain (hmissing : input.contains e.1 = false)
    (h : DeclaredBrings ctx I R l .skip input e c) : c = .plain id := by
  have hnone := get?_of_absent hmissing
  cases h with
  | present hget => cases hnone.symm.trans hget
  | validated _ habsent => cases habsent
  | skipped => rfl
  | missing _ habsent => cases habsent

/-- An absent key that is required brings an issue. -/
theorem DeclaredBrings.exists_report (hmissing : input.contains e.1 = false)
    (h : DeclaredBrings ctx I R l .reject input e c) :
    ∃ i, Gives I (ctx.report l.message (l.missing ctx.typeNames e.1 e.2.expects)) i := by
  have hnone := get?_of_absent hmissing
  cases h with
  | present hget => cases hnone.symm.trans hget
  | validated _ habsent => cases habsent
  | skipped _ habsent => cases habsent
  | missing _ _ hi => exact ⟨_, hi⟩

end

/-- Shares in the result of an object, with other ones for the keys that are absent. -/
def amendShares (input : Value.Entries)
    (share : (Value × Schema) ⊕ (Value × Value) → Contribution Value.Entries)
    (other : Value × Schema → Contribution Value.Entries) :
    (Value × Schema) ⊕ (Value × Value) → Contribution Value.Entries
  | .inl e => if input.contains e.1 then share (.inl e) else other e
  | .inr f => share (.inr f)

section

variable {ctx : Context} {I : Found → Prop} {R : Runs} {l : Label} {kind : ObjectKind} {extra : Extra}
  {absent absent' : Absent} {entries : List (Value × Schema)} {input : Value.Entries}
  {share : (Value × Schema) ⊕ (Value × Value) → Contribution Value.Entries}
  {other : Value × Schema → Contribution Value.Entries} {e : Value × Schema}

theorem amendShares_of_contains (hthere : input.contains e.1 = true) :
    amendShares input share other (.inl e) = share (.inl e) :=
  if_pos hthere

theorem amendShares_of_absent (hmissing : input.contains e.1 = false) :
    amendShares input share other (.inl e) = other e :=
  if_neg (Bool.eq_false_iff.mp hmissing)

/-- Steps have other shares when something else is done with absent keys. -/
theorem brings_amendShares
    (hshare : ∀ s ∈ objectSteps entries input, ObjectBrings ctx I R l kind extra absent input s (share s))
    (hother : ∀ e ∈ entries, input.contains e.1 = false →
      DeclaredBrings ctx I R l absent' input e (other e)) :
    ∀ s ∈ objectSteps entries input,
      ObjectBrings ctx I R l kind extra absent' input s (amendShares input share other s) := by
  intro s hs
  have hc := hshare s hs
  cases hc with
  | @declared e _ hc =>
    cases hthere : input.contains e.1 with
    | true =>
      rw [amendShares_of_contains hthere]
      exact .declared (hc.of_contains hthere)
    | false =>
      rw [amendShares_of_absent hthere]
      exact .declared (hother e (by simpa using hs) hthere)
  | extra hc => exact .extra hc

end

/-- An object has failed if one of its contributions is an issue and nothing else. -/
theorem Gathered.failure {cs : List (Contribution Value.Entries)} {d : Dataset} (h : Gathered cs d)
    {i : Issue} (hi : i.contribution ∈ cs) : d.status = .failure := by
  have hne : d.issues.isEmpty = false := by
    rw [List.isEmpty_eq_false_iff_exists_mem, h.issues]
    exact ⟨i, List.mem_flatMap.mpr ⟨_, hi, List.mem_singleton.mpr rfl⟩⟩
  have huntyped : cs.all (·.typed) = false :=
    List.all_eq_false.mpr ⟨_, hi, Bool.false_ne_true⟩
  rw [h.status, hne, huntyped]
  rfl

/-- The issues of an object are those of its declared keys, and then those of the other keys. -/
theorem Gathered.issues_of_steps {entries : List (Value × Schema)} {input : Value.Entries}
    {share : (Value × Schema) ⊕ (Value × Value) → Contribution Value.Entries} {d : Dataset}
    (h : Gathered ((objectSteps entries input).map share) d) :
    d.issues = (entries.flatMap fun e => (share (.inl e)).issues) ++
      (Schema.undeclared entries input).flatMap fun f => (share (.inr f)).issues := by
  rw [h.issues]
  simp [objectSteps, List.flatMap_map]

section

variable {ctx : Context} {I : Found → Prop} {U : Schema → Prop} (h : ctx.Definite I U)
  (hfull : ctx.config.abortEarly = false) {m : Value} {id id' : Nat} {kind : ObjectKind} {extra : Extra}
  {entries : List (Value × Schema)} (hentries : ∀ e ∈ entries, U e.2)
  (hreport : ∀ f, Alike I (ctx.report m f)) {x : Value} {input : Value.Entries}
  (hx : x.entries? = some input) {n : Nat} {d : Dataset}

include h hfull hentries hreport hx

/-- If an object with optional keys comes to something and its absent keys can be reported, then with
required keys it comes to these reports beside that. -/
theorem exists_required (id' : Nat)
    (hd : Gives I ((Schema.object m id kind extra .skip entries).validatorUpTo n ctx (.fresh x)) d)
    (hmissing : ∃ e ∈ entries, input.contains e.1 = false)
    (hreports : ∀ e ∈ entries, input.contains e.1 = false → ∃ i, Gives I (ctx.report m
      ((Schema.object m id kind extra .skip entries).label.missing ctx.typeNames e.1 e.2.expects)) i) :
    ∃ d', Certain I ((Schema.object m id' kind extra .reject entries).validatorUpTo n ctx (.fresh x)) d' ∧
      d.RequiredBeside ctx.typeNames (Schema.object m id kind extra .skip entries).label entries input x
        d' := by
  obtain ⟨share, hshare, hgathered⟩ := exists_shares h hfull hentries hreport hx hd
  choose! issue hissue using hreports
  -- an absent key has the report that it is missing for its share
  let share' := amendShares input share fun e => ((issue e).under e.1).contribution
  have hshare' := brings_amendShares hshare fun e he hthere =>
    .missing (get?_of_absent hthere) rfl (hissue e he hthere)
  obtain ⟨d', hcertain, hgathered', hvalue⟩ :=
    certain_of_shares h hfull hentries hreport hx id' hshare'
  have hstep {e : Value × Schema} (he : e ∈ entries) : .inl e ∈ objectSteps entries input :=
    List.mem_append_left _ (List.mem_map_of_mem he)
  have hfailure : d'.status = .failure := by
    obtain ⟨e, he, hthere⟩ := hmissing
    have hshare : share' (.inl e) = ((issue e).under e.1).contribution := amendShares_of_absent hthere
    refine hgathered'.failure (i := (issue e).under e.1) ?_
    rw [← hshare]
    exact List.mem_map_of_mem (hstep he)
  have hown : (entries.flatMap fun e => (share (.inl e)).issues) =
      (Schema.present entries input).flatMap fun e => (share' (.inl e)).issues := by
    refine flatMap_eq_of_nil (fun e he hthere => ?_) fun e _ hthere => ?_
    · have hc := hshare _ (hstep he)
      cases hc with
      | declared hc => rw [hc.eq_plain hthere]; rfl
    · rw [show share' (.inl e) = _ from amendShares_of_contains hthere]
  refine ⟨d', hcertain, hfailure, hvalue hfailure, fun e => (share' (.inl e)).issues,
    (Schema.undeclared entries input).flatMap fun f => (share (.inr f)).issues, ?_,
    hgathered'.issues_of_steps, fun e he => (hshare' _ (hstep he)).at_stepKey.issues,
    fun e he hthere => ?_, fun i hi => ?_⟩
  · rw [hgathered.issues_of_steps, hown]
  · obtain ⟨message, -, hsame⟩ := gives_report (hissue e he hthere)
    refine ⟨message, ?_⟩
    dsimp only [share']
    rw [amendShares_of_absent hthere, hsame]
    rfl
  · obtain ⟨f, hf, hi⟩ := List.mem_flatMap.mp hi
    have hc := hshare (.inr f) (List.mem_append_right _ (List.mem_map_of_mem hf))
    exact ⟨f, hf, hc.at_stepKey.issues i hi⟩

/-- If an object with required keys comes to something, then its absent keys can be reported, and with
optional keys it comes to something, too. -/
theorem exists_partial (id' : Nat)
    (hd : Gives I ((Schema.object m id kind extra .reject entries).validatorUpTo n ctx (.fresh x)) d) :
    (∀ e ∈ entries, input.contains e.1 = false → ∃ i, Gives I (ctx.report m
      ((Schema.object m id' kind extra .skip entries).label.missing ctx.typeNames e.1 e.2.expects)) i) ∧
    ∃ d', Certain I ((Schema.object m id' kind extra .skip entries).validatorUpTo n ctx (.fresh x)) d' := by
  obtain ⟨share, hshare, -⟩ := exists_shares h hfull hentries hreport hx hd
  refine ⟨fun e he hthere => ?_, ?_⟩
  · have hc := hshare (.inl e) (List.mem_append_left _ (List.mem_map_of_mem he))
    cases hc with
    | declared hc => exact hc.exists_report hthere
  · obtain ⟨d', hcertain, -⟩ := certain_of_shares h hfull hentries hreport hx id'
      (brings_amendShares hshare fun e _ hthere => .skipped (get?_of_absent hthere) rfl)
    exact ⟨d', hcertain⟩

end

/-! ### Runs -/

/-- Optional and required keys in terms of the source.

On a mapping an object with optional keys does what the object with those keys does that are there,
whatever that one does with absent keys, with keys that are not declared, and with the first issue.  An
object with required keys does what its source does on a mapping that has all declared keys.  On another
mapping, when callables are pure and without early abort, it ends exactly when the object with optional
keys ends and each absent key can be reported, and then it has failed: with one issue for each absent
key, and beside these with the issues of the object with optional keys, all in the order of the keys.
Of optional and required keys the later choice counts. -/
theorem optional_required_keys {ctx : Context} {objects : Nat → Value} {m : Value} {id : Nat}
    {kind : ObjectKind} {extra : Extra} {absent : Absent} {entries : List (Value × Schema)} {x : Value}
    {input : Value.Entries} (hentries : ∀ e ∈ entries, e.1.Keyable objects)
    (hinput : ∀ e ∈ input, e.1.Keyable objects) (hx : x.entries? = some input) (i j k : Nat) :
    let s := Schema.object m id kind extra absent entries
    ∃ p q r, Schema.partialOf i (.schema s) = .ok p ∧
      Schema.pickFrom j (.schema s) ((Schema.present entries input).map (·.1)) = .ok q ∧
      Schema.requiredOf k (.schema s) = .ok r ∧
      (∀ n, p.validatorUpTo n ctx (.fresh x) = q.validatorUpTo n ctx (.fresh x)) ∧
      (∀ w, ctx.Bounded s w → p.run ctx (.fresh x) w = q.run ctx (.fresh x) w) ∧
      ((∀ e ∈ entries, input.contains e.1 = true) → r.run ctx (.fresh x) = s.run ctx (.fresh x)) ∧
      (∀ w : World, ctx.config.abortEarly = false → ctx.PureCalls (ctx.Reaches w.resolved s) →
        Schema.NumberedApart (ctx.Reaches w.resolved s) → (∃ e ∈ entries, input.contains e.1 = false) →
        ((∃ d', (r.run ctx (.fresh x) w).1 = .ok d') ↔
          (∃ d, (p.run ctx (.fresh x) w).1 = .ok d) ∧
          ∀ e ∈ entries, input.contains e.1 = false →
            ∃ f, (ctx.report m (s.label.missing ctx.typeNames e.1 e.2.expects) w).1 = .ok f) ∧
        ∀ d d', (p.run ctx (.fresh x) w).1 = .ok d → (r.run ctx (.fresh x) w).1 = .ok d' →
          d.RequiredBeside ctx.typeNames s.label entries input x d') ∧
      ∀ n, (∃ p', Schema.partialOf n (.schema r) = .ok p' ∧ p'.run = p.run) ∧
        ∃ r', Schema.requiredOf n (.schema p) = .ok r' ∧ r'.run = r.run := by
  intro s
  refine ⟨_, _, _, Schema.partialOf_object i, pickFrom_present hentries hinput j,
    Schema.requiredOf_object k, fun n => ?_, fun w hbounded => ?_, fun hall => ?_,
    fun w hfull hpure hapart hmissing => ?_, fun n => ⟨⟨_, Schema.partialOf_object n, ?_⟩,
      _, Schema.requiredOf_object n, ?_⟩⟩
  · exact validator_skip (undeclared_present hentries hinput) hx n
  · have hsub : (Schema.present entries input).Sublist entries := List.filter_sublist
    rw [← hbounded.run_of_sublist hsub x]
    exact congrFun (validator_skip (undeclared_present hentries hinput) hx _) w
  · rw [Schema.run, Schema.run, Context.bound_object]
    exact validator_of_complete hx hall _
  · have hdefinite := Context.definite_reaches hpure hapart
    have hpins : ctx.Pins (ctx.Reaches w.resolved s) w.resolved w.resolved := fun _ _ _ _ => rfl
    have hparts : ∀ e ∈ entries, ctx.Reaches w.resolved s e.2 :=
      fun e he => .part .start (List.mem_map_of_mem he)
    have hreport : ∀ f, Alike (ctx.Pins (ctx.Reaches w.resolved s) w.resolved) (ctx.report m f) :=
      fun f => hdefinite.report .start f
    -- the three are allowed equally many references on a path
    have hrun (id' : Nat) (absent' : Absent) :
        (Schema.object m id' kind extra absent' entries).run ctx (.fresh x) =
          (Schema.object m id' kind extra absent' entries).validatorUpTo (ctx.bound s x) ctx
            (.fresh x) := by
      rw [Schema.run, Context.bound_object]
      rfl
    rw [hrun i .skip, hrun k .reject]
    have hpartial {d' : Dataset} (hd' : ((Schema.object m k kind extra .reject entries).validatorUpTo
        (ctx.bound s x) ctx (.fresh x) w).1 = .ok d') :=
      exists_partial hdefinite hfull hparts hreport hx i (gives_of_fst hpins hd')
    have hrequired {d : Dataset} (hd : ((Schema.object m i kind extra .skip entries).validatorUpTo
        (ctx.bound s x) ctx (.fresh x) w).1 = .ok d) :=
      exists_required hdefinite hfull hparts hreport hx k (gives_of_fst hpins hd) hmissing
    refine ⟨⟨?_, ?_⟩, fun d d' hd hd' => ?_⟩
    · rintro ⟨d', hd'⟩
      obtain ⟨hreports, d, hd⟩ := hpartial hd'
      refine ⟨⟨d, hd.fst hpins⟩, fun e he hthere => ?_⟩
      obtain ⟨f, hf⟩ := hreports e he hthere
      exact ⟨f, ((hreport _).certain hf).fst hpins⟩
    · rintro ⟨⟨d, hd⟩, hreports⟩
      obtain ⟨d', hd', -⟩ := hrequired hd fun e he hthere => by
        obtain ⟨f, hf⟩ := hreports e he hthere
        exact ⟨f, gives_of_fst hpins hf⟩
      exact ⟨d', hd'.fst hpins⟩
    · obtain ⟨e, he, hbeside⟩ := hrequired hd (hpartial hd').1
      obtain rfl : e = d' := Except.ok.inj ((he.fst hpins).symm.trans hd')
      exact hbeside
  · exact Schema.run_renumbered
  · exact Schema.run_renumbered

/-- Of two texts one is a number and the other is absent, and another key is not declared. -/
theorem optional_required_keys_texts :
    let ctx : Context := ⟨.default, [], [], [], ⟨fun _ _ _ => .error .callable, 0⟩⟩
    let entries : List (Value × Schema) :=
      [(.str "a", .primitive .null .string), (.str "b", .primitive .null .string)]
    let s := Schema.object .null 0 .plain .strict .validate entries
    let input : Value.Entries := [(.str "b", .int 1), (.str "c", .int 2)]
    let x : Value := .ofMapping input
    ctx.Bounded s .empty ∧ ctx.PureCalls (ctx.Reaches [] s) ∧
    ∃ p q r d d', Schema.partialOf 1 (.schema s) = .ok p ∧
      Schema.pickFrom 2 (.schema s) [.str "b"] = .ok q ∧ Schema.requiredOf 3 (.schema s) = .ok r ∧
      p.run ctx (.fresh x) .empty = q.run ctx (.fresh x) .empty ∧
      (p.run ctx (.fresh x) .empty).1 = .ok d ∧ (r.run ctx (.fresh x) .empty).1 = .ok d' ∧
      d.issues.length = 2 ∧ d'.issues.length = 3 ∧
      d.RequiredBeside ctx.typeNames s.label entries input x d' := by
  intro ctx entries s input x
  have hkeys : ∀ k : String, (Value.str k).Keyable fun _ => .null := Value.keyable_str
  obtain ⟨hbounded, hpure⟩ : ctx.Bounded s .empty ∧ ctx.PureCalls (ctx.Reaches [] s) :=
    Context.bounded_of_primitives (List.forall_mem_nil _) (fun _ _ _ => rfl)
    (List.forall_mem_cons.mpr ⟨⟨_, rfl⟩, List.forall_mem_singleton.mpr ⟨_, rfl⟩⟩)
  refine ⟨hbounded, hpure, ?_⟩
  obtain ⟨p, q, r, hp, hq, hr, -, hpicked, -, hrequired, -⟩ := @optional_required_keys ctx
    (fun _ => .null) .null 0 .plain .strict .validate entries x input
    (List.forall_mem_cons.mpr ⟨hkeys _, List.forall_mem_singleton.mpr (hkeys _)⟩)
    (List.forall_mem_cons.mpr ⟨hkeys _, List.forall_mem_singleton.mpr (hkeys _)⟩) rfl 1 2 3
  obtain ⟨-, hbeside⟩ := hrequired .empty rfl hpure hbounded.apart
    ⟨_, List.mem_cons_self, by decide +kernel⟩
  obtain rfl := Except.ok.inj (hp.symm.trans (Schema.partialOf_object 1))
  obtain rfl := Except.ok.inj (hr.symm.trans (Schema.requiredOf_object 3))
  obtain ⟨d, d', hd, hd', htwo, hthree⟩ : ∃ d d',
      ((Schema.object .null 1 .plain .strict .skip entries).run ctx (.fresh x) .empty).1 = .ok d ∧
      ((Schema.object .null 3 .plain .strict .reject entries).run ctx (.fresh x) .empty).1 = .ok d' ∧
      d.issues.length = 2 ∧ d'.issues.length = 3 := by
    dsimp only [ctx, entries, x, input]
    exact ⟨_, _, rfl, rfl, rfl, rfl⟩
  have hpresent : (Schema.present entries input).map (·.1) = [.str "b"] := rfl
  rw [hpresent] at hq
  exact ⟨_, q, _, d, d', hp, hq, hr, hpicked .empty hbounded, hd, hd', htwo, hthree, hbeside d d' hd hd'⟩

/-- A callable that counts its calls, both as the message of an object and as a test: with required keys
the message is called first, and then the test that fails with optional keys is passed. -/
theorem required_keys_counted :
    let counter : Value := .scalar .shared (.callable (Stock.function Stock.counterKey))
    let ctx : Context := ⟨.default, [], [], [], Stock.host⟩
    let tested : Schema :=
      .constraint (.str "X") (.refine counter) "check()" false (.anything .null false)
    let s := Schema.object counter 0 .plain .strip .validate
      [(.str "a", .anything .null false), (.str "x", tested)]
    let x : Value := .ofMapping [(.str "x", .null)]
    ctx.config.abortEarly = false ∧
    ∃ p r d d' u u', Schema.partialOf 1 (.schema s) = .ok p ∧ Schema.requiredOf 2 (.schema s) = .ok r ∧
      p.run ctx (.fresh x) .empty = (.ok d, u) ∧ r.run ctx (.fresh x) .empty = (.ok d', u') ∧
      d.issues.length = 1 ∧ d'.issues.length = 1 := by
  intro counter ctx tested s x
  refine ⟨rfl, ?_⟩
  dsimp only [counter, ctx, tested, s, x]
  exact ⟨_, _, _, _, _, _, rfl, rfl, rfl, rfl, rfl, rfl⟩

end Conform
