/-
  Conform/Proofs/Totality.lean
  ============================
  **Validation returns.**  A schema that runs no code of a caller and suits the
  data comes to a result, whatever the data (`Engine.parse_total`): no
  comparison, no conversion, no message and no report ends in a fault.

  The outputs of an intersection are compared with the first of them until there
  are mappings to merge; so it is the first member that has to be level with the
  others.
-/
import Conform.Proofs.TotalKeys
import Conform.Proofs.FastPath

namespace Conform

section

variable {P : Scalar → Prop} {ctx : Context} {A : Value → Prop} {x : Value}

/-! ### Unions -/

namespace Validator

theorem Total.mono {B : Value → Prop} {v : Validator} (h : v.Total ctx P A)
    (hAB : ∀ y, A y → B y) : v.Total ctx P B :=
  fun x hx => (h x hx).mono fun _ hd => hd.mono fun _ hy => ⟨hAB _ hy.1, hy.2⟩

theorem returns_firstSuccess {members : List Validator} (hm : ∀ m ∈ members, m.Total ctx P A)
    (hx : x.Fit P) (issues : List Issue) :
    Returns (firstSuccess ctx x members issues)
      (Sum.elim (fun y => A y ∧ x.Carries P y) fun _ => True) := by
  induction members generalizing issues with
  | nil => exact returns_pure trivial
  | cons m rest ih =>
    rw [List.forall_mem_cons] at hm
    unfold firstSuccess
    refine (hm.1 x hx).toEffect.bind fun d hd => ?_
    split
    · next hstatus =>
      exact returns_pure (hd.typed (by rw [Dataset.isTyped, eq_of_beq hstatus]; rfl))
    · exact ih hm.2 _

theorem total_union (hctx : ctx.Plain) {l : Label} (hl : l.message.isOptionalText = true)
    (htype : l.type = "union") {members : List Validator}
    (hm : ∀ m ∈ members, m.Total ctx P A) : (union l members).Total ctx P A := by
  intro x hx
  refine ((returns_firstSuccess hm hx []).within _).bind fun r hr => ?_
  cases r with
  | inl y => exact returns_pure (Dataset.fits_valid hr)
  | inr issues =>
    refine returns_reject hctx hl (Finding.worded_of_shape ?_) fun _ hi => by cases hi
    simp [Label.finding, htype, Message.shapeKeys]

/-! ### Intersections -/

theorem forall_insertAll {entries more : Value.Entries} (h : Value.EveryEntry P entries)
    (hmore : Value.EveryEntry P more) : Value.EveryEntry P (entries.insertAll more) := by
  unfold Value.Entries.insertAll
  induction more generalizing entries with
  | nil => exact h
  | cons e rest ih =>
    obtain ⟨he, hrest⟩ := List.forall_mem_cons.mp hmore
    exact ih (Value.Entries.forall_insert h he.1 he.2) hrest

/-- A mapping has no type in common with what is no mapping. -/
theorem typeOf_mapping_ne {id : Identity} {kind : MappingKind} {entries : Value.Entries}
    {z : Value} (hz : z.isMapping = false) : (Value.mapping id kind entries).typeOf ≠ z.typeOf := by
  intro htype
  cases z with
  | mapping => cases hz
  | scalar id' s =>
    change _ = s.typeOf at htype
    unfold Scalar.typeOf at htype
    split at htype <;> cases kind <;> cases htype
  | list id' flavor items => cases kind <;> cases flavor <;> cases htype
  | tuple id' items => cases kind <;> cases htype
  | set id' frozen items => cases kind <;> cases frozen <;> cases htype

/-- Merging into a mapping comes to a mapping, or to nothing. -/
theorem exists_mergeAll_mapping {id : Identity} {kind : MappingKind} {entries : Value.Entries}
    (h : Value.EveryEntry P entries) {rest : List Value}
    (hrest : ∀ z ∈ rest, z.Every P ∨ z.isUndefined = true) :
    ∃ r, mergeAll? (.mapping id kind entries) rest = .ok r ∧
      ∀ y ∈ r, y.isMapping = true ∧ y.Every P := by
  induction rest generalizing id kind entries with
  | nil =>
    refine ⟨_, rfl, fun y hy => ?_⟩
    obtain rfl := Option.some.inj hy
    exact ⟨rfl, Value.every_mapping.mpr h⟩
  | cons z rest ih =>
    rw [List.forall_mem_cons] at hrest
    unfold mergeAll?
    cases hentries : z.entries? with
    | some more =>
      have hmore : Value.EveryEntry P more := by
        cases z with
        | mapping id' kind' es =>
          obtain rfl := Option.some.inj hentries
          exact Value.every_mapping.mp (hrest.1.resolve_right fun h => by cases h)
        | _ => cases hentries
      have hmerge : merge? (.mapping id kind entries) z =
          .ok (some (.ofMapping (entries.insertAll more))) := by
        unfold merge?
        rw [hentries]
        rfl
      rw [hmerge]
      exact ih (forall_insertAll h hmore) hrest.2
    | none =>
      have hz : z.isMapping = false := by rw [Value.isMapping, hentries]; rfl
      obtain ⟨agree, hagree⟩ := Value.exists_strictEq
        (x := .mapping id kind entries) fun htype => (typeOf_mapping_ne hz htype).elim
      have hmerge : merge? (.mapping id kind entries) z =
          .ok (if agree then some (.mapping id kind entries) else none) := by
        unfold merge?
        rw [hentries, hagree]
        rfl
      rw [hmerge]
      cases agree with
      | true => exact ih h hrest.2
      | false => exact ⟨none, rfl, fun _ hy => by cases hy⟩

/-- Outputs of which the first is level with the others can be merged: into the first, or into a
mapping if the first is one. -/
theorem exists_mergeAll {first : Value} (hfirst : first.Every P ∨ first.isUndefined = true)
    {rest : List Value} (hrest : ∀ z ∈ rest, z.Every P ∨ z.isUndefined = true)
    (hlevel : ∀ z ∈ rest, first.typeOf = z.typeOf → first.Level z) :
    ∃ r, mergeAll? first rest = .ok r ∧
      ∀ y ∈ r, y = first ∨ (first.isMapping = true ∧ y.isMapping = true ∧ y.Every P) := by
  cases hentries : first.entries? with
  | some entries =>
    cases first with
    | mapping id kind es =>
      have hevery := Value.every_mapping.mp (hfirst.resolve_right fun h => by cases h)
      obtain ⟨r, hr, hmerged⟩ := exists_mergeAll_mapping hevery hrest
      exact ⟨r, hr, fun y hy => .inr ⟨rfl, hmerged y hy⟩⟩
    | _ => cases hentries
  | none =>
    induction rest with
    | nil => exact ⟨_, rfl, fun y hy => .inl (Option.some.inj hy).symm⟩
    | cons z rest ih =>
      rw [List.forall_mem_cons] at hrest hlevel
      obtain ⟨agree, hagree⟩ := Value.exists_strictEq hlevel.1
      have hmerge : merge? first z = .ok (if agree then some first else none) := by
        unfold merge?
        rw [hentries, hagree]
        rfl
      unfold mergeAll?
      rw [hmerge]
      cases agree with
      | true => exact ih hrest.2 hlevel.2
      | false => exact ⟨none, rfl, fun _ hy => by cases hy⟩

/-- The issues of the members so far can be shown, there are some if one is not typed, and else
every member has an output. -/
structure Merging (P : Scalar → Prop) (x : Value) (done : List Schema)
    (g : Gathering (List Value)) : Prop where
  shown : ∀ i ∈ g.dataset.issues, i.Shown
  untyped : g.typed = false → g.dataset.issues ≠ []
  outputs : g.typed = true →
    List.Forall₂ (fun s y => s.Admits y ∧ x.Carries P y) done g.output

theorem returns_memberStep {m : Validator} {s : Schema} (hm : m.Total ctx P s.Admits)
    (hx : x.Fit P) {done : List Schema} {g : Gathering (List Value)} (hg : Merging P x done g) :
    Returns (memberStep x ctx m g)
      (Progress.Holds (Merging P x (done ++ [s])) Dataset.Stopped) := by
  unfold memberStep
  refine ((hm x hx).toEffect.within _).bind fun part hpart => ?_
  have hshown : ∀ i ∈ (g.dataset.addAll part.issues).issues, i.Shown := by
    intro i hi
    exact (List.mem_append.mp hi).elim (hg.shown i) (hpart.shown i)
  have hleft (h : g.typed = false) : (g.dataset.addAll part.issues).issues ≠ [] := by
    have hne := hg.untyped h
    simp [Dataset.addAll, hne]
  have hright (h : part.issues ≠ []) : (g.dataset.addAll part.issues).issues ≠ [] := by
    simp [Dataset.addAll, h]
  dsimp only
  split
  · next hstop =>
    rw [Bool.and_eq_true] at hstop
    exact returns_pure ⟨hshown, hright (by simpa using hstop.1)⟩
  · split
    · next htyped =>
      exact returns_pure ⟨hshown, hleft, fun h =>
        List.rel_append (hg.outputs h) (.cons (hpart.typed htyped) .nil)⟩
    · next huntyped =>
      refine returns_pure ⟨hshown, fun _ => hright (hpart.failed fun hstatus => ?_),
        fun h => by cases h⟩
      rw [Dataset.isTyped, hstatus] at huntyped
      exact huntyped rfl

theorem exists_left_of_mem {α β : Type} {R : α → β → Prop} {xs : List α} {ys : List β}
    (h : List.Forall₂ R xs ys) {y : β} (hy : y ∈ ys) : ∃ x ∈ xs, R x y := by
  induction h with
  | nil => cases hy
  | @cons x z xs ys hrel _ ih =>
    rcases List.mem_cons.mp hy with rfl | hy
    · exact ⟨x, List.mem_cons_self, hrel⟩
    · obtain ⟨t, ht, hrel⟩ := ih hy
      exact ⟨t, List.mem_cons_of_mem x ht, hrel⟩

theorem total_intersection (hctx : ctx.Plain) {l : Label} (hl : l.message.isOptionalText = true)
    (htype : l.type = "intersection") {members : List Schema} (hlength : 2 ≤ members.length)
    (hlevel : ∀ s ∈ members.head?, ∀ t ∈ members.tail, ∀ y z : Value,
      y.Every P → z.Every P → s.Admits y → t.Admits z → y.typeOf = z.typeOf → y.Level z)
    {run : Schema → Validator} (hm : ∀ s ∈ members, (run s).Total ctx P s.Admits)
    (hA : ∀ s ∈ members, ∀ y, s.Admits y → A y) (hmerged : ∀ y : Value, y.isMapping = true → A y) :
    (intersection l (members.map run)).Total ctx P A := by
  intro x hx
  unfold intersection
  have hstart : Merging P x [] (.start (.fresh x) []) :=
    ⟨fun _ hi => (by cases hi), fun h => (by cases h), fun _ => .nil⟩
  have hsteps : Returns
      (Gathering.steps (memberStep x ctx) (members.map run) (.start (.fresh x) []))
      (Progress.Holds (Merging P x members) Dataset.Stopped) := by
    rw [Gathering.steps_map]
    refine (returns_steps (J := fun rest g => ∃ done, done ++ rest = members ∧ Merging P x done g)
      (K := Dataset.Stopped) ?_ ⟨[], rfl, hstart⟩).mono fun p hp => hp.mono ?_
    · rintro s rest g ⟨done, rfl, hg⟩
      have hs := hm s (List.mem_append_right done List.mem_cons_self)
      exact (returns_memberStep hs hx hg).mono fun p hp => hp.mono fun _ h =>
        ⟨done ++ [s], by rw [List.append_assoc]; rfl, h⟩
    · rintro g ⟨done, rfl, hg⟩
      rwa [List.append_nil]
  refine hsteps.bind fun p hp => ?_
  cases p with
  | stopped d => exact returns_giveUp hp
  | going g =>
    dsimp only
    split
    · next first rest htyped houtput =>
      have houtputs := hp.outputs htyped
      rw [houtput] at houtputs
      cases houtputs with
      | @cons s _ schemas _ hs hrest =>
        have hdata {y : Value} (h : x.Carries P y) : y.Every P ∨ y.isUndefined = true :=
          h.every.imp_right fun h => h.2
        obtain ⟨r, hr, hmerge⟩ := exists_mergeAll (hdata hs.2)
          (fun z hz => by
            obtain ⟨t, -, ht⟩ := exists_left_of_mem hrest hz
            exact hdata ht.2)
          fun z hz htype => by
            obtain ⟨t, ht, hz⟩ := exists_left_of_mem hrest hz
            rcases hdata hs.2 with hy | hy
            · rcases hdata hz.2 with hz' | hz'
              · exact hlevel s rfl t ht _ _ hy hz' hs.1 hz.1 htype
              · exact level_of_isUndefined (isUndefined_of_typeOf hz' htype) htype
            · exact level_of_isUndefined hy htype
        refine (returns_withinExcept (Q := (· = r)) ⟨r, hr, rfl⟩ _).bind fun r' hr' => ?_
        subst hr'
        cases r' with
        | none =>
          refine returns_reject hctx hl (Finding.worded_of_shape ?_) hp.shown
          simp [Label.finding, htype, Message.shapeKeys]
        | some y =>
          have hy : A y ∧ x.Carries P y := by
            rcases hmerge y rfl with rfl | ⟨hfirst, hmapping, hevery⟩
            · exact ⟨hA s List.mem_cons_self _ hs.1, hs.2⟩
            · refine ⟨hmerged y hmapping, .inl hevery, fun hx hhashable => ?_⟩
              have hfalse := hs.2.hashable hx hhashable
              cases first with
              | mapping => cases hfalse
              | _ => cases hfirst
          dsimp only
          split
          · exact returns_pure ⟨hp.shown, fun h => (h rfl).elim, fun _ => hy⟩
          · next hne =>
            exact returns_pure ⟨hp.shown, fun _ h => hne (List.isEmpty_iff.mpr h), fun _ => hy⟩
    · next hother =>
      refine returns_giveUp ⟨hp.shown, ?_⟩
      cases htyped : g.typed with
      | false => exact hp.untyped htyped
      | true =>
        have houtputs := hp.outputs htyped
        cases houtput : g.output with
        | nil =>
          rw [houtput, List.forall₂_nil_right_iff] at houtputs
          rw [houtputs] at hlength
          cases hlength
        | cons first rest => exact (hother first rest htyped houtput).elim

end Validator

/-! ### Schemas -/

namespace Schema

/-- A schema is well built, runs no code of a caller, and suits values of scalars of some kinds. -/
structure IsApt (P : Scalar → Prop) (s : Schema) : Prop where
  built : s.IsBuilt
  plain : s.IsPlain
  suits : s.Suits P

theorem IsPlain.constraint {m : Value} {check : Check} {name : String} {abort : Bool}
    {inner : Schema} (h : (constraint m check name abort inner).IsPlain) :
    (∀ p, check ≠ .refine p) ∧ check.requirement.isObject = false := by
  cases check with
  | refine p => exact h.2.elim
  | _ => exact ⟨fun _ h => (by cases h), h.2⟩

theorem exists_limitText {limits : Limits}
    (hbuilt : ∀ limit, limit ∈ limits.least ∨ limit ∈ limits.most →
      limit.requirement.toInt? = some (limit.count : Int))
    (hlegible : ∀ limit, limit ∈ limits.least ∨ limit ∈ limits.most → limit.requirement.Legible)
    (limit : Limit) (h : limit ∈ limits.least ∨ limit ∈ limits.most) :
    ∃ t, limit.requirement.text = .ok t := by
  refine Value.exists_text (hlegible limit h) ?_
  have hcount := hbuilt limit h
  cases hvalue : limit.requirement with
  | scalar id s =>
    rw [hvalue] at hcount
    cases s <;> first | rfl | cases hcount
  | _ => rfl

/-- The validator of a schema returns when all parts of the schema are apt. -/
theorem total_validator (hP : ∀ a, P a → a.IsData = true) (hctx : ctx.Plain)
    (resolve : Schema → Validator) {s : Schema} (hs : ∀ t : Schema, t.Part s → t.IsApt P) :
    (s.validator resolve).Total ctx P s.Admits := by
  have judged {s : Schema} {j : Judgement} (hs : s.IsApt P) (hj : s.judgement? = some j) :
      (s.validator resolve).Total ctx P s.Admits := by
    rw [validator_eq_judge hj]
    exact Validator.total_judge hctx hs.plain.1 fun x hx => exists_judgement hP hs.suits hj hx
  induction s with
  | primitive m p => exact judged (hs _ .self) rfl
  | anything m unknown => exact judged (hs _ .self) rfl
  | never m => exact judged (hs _ .self) rfl
  | coerce m t => exact judged (hs _ .self) rfl
  | literal m v expects => exact judged (hs _ .self) rfl
  | enum m keys values expects => exact judged (hs _ .self) rfl
  | nativeEnum m e => exact judged (hs _ .self) rfl
  | constraint m check name abort inner ih =>
    obtain ⟨hbuilt, hplain, hsuits⟩ := hs _ .self
    obtain ⟨hrefine, hobject⟩ := hplain.constraint
    have hinner := ih fun t ht => hs t (.child List.mem_cons_self ht)
    exact (Validator.total_constraint hctx hplain.1 hrefine hbuilt hobject hsuits abort
      hinner).mono fun _ => .constraint
  | wrapper m w inner ih =>
    obtain ⟨-, hplain, hsuits⟩ := hs _ .self
    have hinner := ih fun t ht => hs t (.child List.mem_cons_self ht)
    refine Validator.total_wrapper hP (fun v hv => ?_) (fun _ _ => .spared)
      (hinner.mono fun _ => .wrapper)
    subst hv
    exact ⟨hplain.2, hsuits⟩
  | overwrite m transform inner ih => exact (hs _ .self).plain.2.elim
  | lazy m id getter => exact (hs _ .self).plain.2.elim
  | object m id kind extra absent entries ih =>
    obtain ⟨hbuilt, hplain, hsuits⟩ := hs _ .self
    unfold validator
    rw [entryValidators_eq_map]
    refine Validator.total_object hP hctx hplain.1 rfl hplain.2 extra absent (fun e he => ?_)
      fun _ => .object
    obtain ⟨f, hf, rfl⟩ := List.mem_map.mp he
    have hchild := ih f hf fun t ht => hs t (.child (List.mem_map_of_mem hf) ht)
    exact ⟨hsuits f hf, hbuilt f hf, _, hchild⟩
  | array m limits item ih =>
    obtain ⟨hbuilt, hplain, hsuits⟩ := hs _ .self
    have hitem := ih fun t ht => hs t (.child List.mem_cons_self ht)
    exact Validator.total_array hP hctx hplain.1 rfl (exists_limitText hbuilt hsuits) hitem
      fun _ => .array
  | set m limits item ih =>
    obtain ⟨hbuilt, hplain, hsuits⟩ := hs _ .self
    have hitem := ih fun t ht => hs t (.child List.mem_cons_self ht)
    exact Validator.total_set hP hctx hplain.1 rfl (exists_limitText hbuilt hsuits) hitem
      fun _ _ => .set
  | tuple m items rest ihItems ihRest =>
    obtain ⟨-, hplain, hsuits⟩ := hs _ .self
    rw [validator_tuple]
    refine Validator.total_tuple hP hctx hplain.1 rfl (by rwa [List.length_map])
      (fun v hv => ?_)
      (fun v hv => ?_) fun _ => .tuple
    · obtain ⟨t, ht, rfl⟩ := List.mem_map.mp hv
      exact ⟨_, ihItems t ht fun u hu => hs u (.child (List.mem_append_left _ ht) hu)⟩
    · obtain ⟨t, ht, rfl⟩ := Option.map_eq_some_iff.mp hv
      exact ⟨_, ihRest t ht fun u hu =>
        hs u (.child (List.mem_append_right _ (Option.mem_toList.mpr ht)) hu)⟩
  | map m limits key value ihKey ihValue =>
    obtain ⟨hbuilt, hplain, hsuits⟩ := hs _ .self
    have hkey := ihKey fun t ht => hs t (.child List.mem_cons_self ht)
    have hvalue := ihValue fun t ht => hs t (.child (List.mem_cons_of_mem _ List.mem_cons_self) ht)
    exact Validator.total_map hP hctx hplain.1 rfl (exists_limitText hbuilt hsuits) hkey hvalue
      fun _ => .map
  | record m key value ihKey ihValue =>
    have hkey := ihKey fun t ht => hs t (.child List.mem_cons_self ht)
    have hvalue := ihValue fun t ht => hs t (.child (List.mem_cons_of_mem _ List.mem_cons_self) ht)
    exact Validator.total_record hP hctx (hs _ .self).plain.1 rfl hkey hvalue fun _ => .record
  | union m members ih =>
    unfold validator
    rw [validators_eq_map]
    refine Validator.total_union hctx (hs _ .self).plain.1 rfl fun v hv => ?_
    obtain ⟨t, ht, rfl⟩ := List.mem_map.mp hv
    exact (ih t ht fun u hu => hs u (.child ht hu)).mono fun _ => .union ht
  | intersection m members ih =>
    obtain ⟨hbuilt, hplain, hsuits⟩ := hs _ .self
    unfold validator
    rw [validators_eq_map]
    exact Validator.total_intersection hctx hplain.1 rfl hbuilt hsuits
      (fun t ht => ih t ht fun u hu => hs u (.child ht hu)) (fun t ht _ => .intersection ht)
      fun _ => .merged

/-- A run of a schema returns when all parts of the schema are apt. -/
theorem returns_run (hP : ∀ a, P a → a.IsData = true) (hctx : ctx.Plain) {s : Schema}
    (hs : ∀ t : Schema, t.Part s → t.IsApt P) (hx : x.Fit P) :
    Returns (s.run ctx (.fresh x)) (Dataset.Fits fun y => s.Admits y ∧ x.Carries P y) := by
  unfold run
  cases ctx.bound s (Dataset.fresh x).value with
  | zero => exact total_validator hP hctx _ hs x hx
  | succ n => exact total_validator hP hctx _ hs x hx

end Schema

/-! ### What a constraint must suit -/

theorem Scalar.relate_of_not_clear {r : Relation} {a b : Scalar} (h : ¬a.Clear b) :
    a.relate r b = .error .decimal := by
  have refused : ∃ p q, a.quantity? = some p ∧ b.quantity? = some q ∧ p.compare? q = none ∧
      (a.isDecimal || b.isDecimal) = true := by
    refine Classical.byContradiction fun hnone => h fun p q hp hq hcompare => ?_
    refine Bool.or_eq_false_iff.mp (Bool.eq_false_iff.mpr fun hdecimal => hnone ?_)
    exact ⟨p, q, hp, hq, hcompare, hdecimal⟩
  obtain ⟨p, q, hp, hq, hcompare, hdecimal⟩ := refused
  unfold relate
  simp only [hp, hq, hcompare, hdecimal, if_true]

theorem relate_of_ifComparable {r : Except Fault Bool} (h : ifComparable r = .ok true) :
    r = .ok true := by
  unfold ifComparable at h
  split at h
  · split at h <;> cases h
  · exact h

theorem error_formatted {v : Value} (h : v.takesDate = false) {format : List Char}
    (hformat : format.isEmpty = false) : ∃ f, Message.formatted v format = .error f := by
  unfold Message.formatted
  rw [hformat]
  cases v with
  | scalar id s => cases s <;> first | exact ⟨_, rfl⟩ | cases h
  | _ => exact ⟨_, rfl⟩

theorem error_quoted {v : Value} (h : ¬v.Legible) : ∃ f, v.quoted = .error f := by
  rcases hquoted : v.quoted with f | t
  · exact ⟨f, rfl⟩
  · exact (h ⟨t, hquoted⟩).elim

namespace Validator

variable {message : Value} {check : Check} {name : String} {abort : Bool}

theorem faults_of_test (h : Faults (check.test ctx x)) :
    Faults (constraint message check name abort anything ctx (.fresh x)) :=
  (h.within _).bind _

theorem faults_of_violation (htest : Returns (check.test ctx x) (· = false))
    (hreport : ∀ f, check.finding ctx.typeNames name x = .ok f → Faults (ctx.report message f)) :
    Faults (constraint message check name abort anything ctx (.fresh x)) := by
  refine (htest.within _).faults fun b hb => ?_
  subst hb
  rcases hfinding : check.finding ctx.typeNames name x with e | f
  · exact ((faults_ofExcept (r := check.finding ctx.typeNames name x) hfinding).within _).bind _
  · refine (returns_withinExcept ⟨f, hfinding, rfl⟩ _).faults fun _ hf => ?_
    subst hf
    exact ((hreport f hfinding).within _).bind _

/-- A constraint that does not suit a scalar ends in a fault. -/
theorem faults_constraint (hctx : ctx.Plain) (hplain : ∀ p, check ≠ .refine p)
    (hrequirement : ∃ id b, check.requirement = .scalar id b) {id : Identity} {a : Scalar}
    (h : ¬check.Suits (.scalar id a)) :
    Faults (constraint message check name abort anything ctx (.fresh (.scalar id a))) := by
  have unshown {y : Value} (hy : ¬y.Legible) (hreceived : check.received ctx.typeNames y = y.quoted)
      (f : Finding) (hf : check.finding ctx.typeNames name y = .ok f) :
      Faults (ctx.report message f) := by
    obtain ⟨e, he⟩ := error_quoted hy
    unfold Check.finding at hf
    rw [hreceived, he] at hf
    cases hf
  cases check with
  | refine p => exact (hplain p rfl).elim
  | pattern regex program =>
    refine faults_of_test ?_
    unfold Check.test
    simp only [Check.Suits, Classical.not_imp, Option.isSome_iff_exists] at h
    obtain ⟨⟨s, hs⟩, hbytes⟩ := h
    simp only [hs, Option.isSome_iff_ne_none.mpr hbytes, if_true]
    exact fun w => ⟨_, w, rfl⟩
  | order relation limit =>
    obtain ⟨id', b, rfl⟩ : ∃ id b, limit = .scalar id b := hrequirement
    by_cases hclear : a.Clear b
    · obtain ⟨holds, hholds⟩ := Value.exists_ifComparable (r := relation)
        (x := .scalar id a) (y := .scalar id' b) hclear
      cases holds with
      | true => exact (h ⟨hclear, .inl (relate_of_ifComparable hholds)⟩).elim
      | false =>
        refine faults_of_violation (returns_ofExcept ⟨false, hholds, rfl⟩) ?_
        by_cases hmoment : (Value.scalar id a).toDateTime?.isSome = true
        · intro f hf
          have hdate : (Value.scalar id' b).takesDate = false :=
            Bool.eq_false_iff.mpr fun hdate => h ⟨hclear, .inr (by rwa [if_pos hmoment])⟩
          obtain ⟨d, hd⟩ := Option.isSome_iff_exists.mp hmoment
          simp only [Check.finding, Check.received, hd] at hf
          cases hf
          have hformat : Message.Field.moment.format.isEmpty = false := rfl
          obtain ⟨e, he⟩ := error_formatted hdate hformat
          refine faults_report hctx message (show Message.has _ .moment = true from ?_) he
          refine Message.has_moment _ ?_
          simp only [Check.messageKey, hd, Option.isSome_some, if_true]
          cases relation <;> simp [Check.type, Message.momentKeys]
        · refine unshown (fun hlegible => h ⟨hclear, .inr (by rwa [if_neg hmoment])⟩) ?_
          rw [Option.not_isSome_iff_eq_none] at hmoment
          simp only [Check.received, hmoment]
    · refine faults_of_test (faults_ofExcept (f := .decimal) ?_)
      change ifComparable (a.relate relation b) = _
      rw [Scalar.relate_of_not_clear hclear]
      rfl
  | multipleOf divisor =>
    obtain ⟨hfails, hlegible⟩ := not_or.mp h
    exact faults_of_violation (returns_pure (Bool.eq_false_iff.mpr hfails)) (unshown hlegible rfl)
  | positive =>
    obtain ⟨hfails, hlegible⟩ := not_or.mp h
    exact faults_of_violation (returns_pure (beq_eq_false_iff_ne.mpr hfails)) (unshown hlegible rfl)
  | negative =>
    obtain ⟨hfails, hlegible⟩ := not_or.mp h
    exact faults_of_violation (returns_pure (beq_eq_false_iff_ne.mpr hfails)) (unshown hlegible rfl)
  | _ => exact (h trivial).elim

end Validator

/-! ### Engines -/

theorem exists_ofDataset {d : Dataset} (hd : d.Fits A) : ∃ r, Result.ofDataset d = .ok r := by
  have hfailed (hstatus : d.status ≠ .success) :
      ∃ r, (Report.ofIssues d.issues).map Result.failure = .ok r := by
    obtain ⟨report, hreport⟩ := Report.exists_ofIssues (hd.failed hstatus) hd.shown
    exact ⟨.failure report, by rw [hreport]; rfl⟩
  unfold Result.ofDataset
  split
  · exact ⟨_, rfl⟩
  · next hstatus => exact hfailed hstatus

end

namespace Engine

variable {ctx : Context} {s : Schema} {x : Value} {objects : Nat → Schema} {st : State}

theorem exists_parse (hs : s.Numbered objects) (hst : st.Sound objects) (e : Engine)
    {A : Value → Prop} (h : Returns (s.run ctx (.fresh x)) (Dataset.Fits A)) :
    ∃ r, (e.parse ctx s x st).1 = .ok r := by
  obtain ⟨d, w, hrun, hd⟩ := h.toEffect st.world
  obtain ⟨r, hr⟩ := exists_ofDataset hd
  refine ⟨r, ?_⟩
  rw [(parse_alike ctx hs ⟨hst, hst, rfl⟩ e x).1, parse_slow, hrun]
  exact hr

theorem parse_of_faults (hs : s.Numbered objects) (hst : st.Sound objects) (e : Engine)
    (h : Faults (s.run ctx (.fresh x))) : ∃ f, (e.parse ctx s x st).1 = .error f := by
  obtain ⟨f, w, hrun⟩ := h.toEffect st.world
  refine ⟨f, ?_⟩
  rw [(parse_alike ctx hs ⟨hst, hst, rfl⟩ e x).1, parse_slow, hrun]
  rfl

/-- **Validation returns.**  In every state that a sequence of operations leads to, with a fast path
and without, a schema of which all parts are well built, run no code of a caller and suit the data
comes to a result on all data.  What a constraint has to suit cannot be weakened: on scalars it
returns for those that it suits, and for no others. -/
theorem parse_total {P : Scalar → Prop} (hP : ∀ a, P a → a.IsData = true) (hctx : ctx.Plain)
    (objects : Nat → Schema) (ops : List Operation)
    (hops : ∀ op ∈ ops, ∀ s ∈ op.schema?, s.Numbered objects) (e : Engine) :
    let st := (Operation.performAll ops .empty).2
    (∀ s : Schema, s.Numbered objects → (∀ t : Schema, t.Part s → t.IsApt P) →
      ∀ x : Value, x.Data P → ∃ r, (e.parse ctx s x st).1 = .ok r) ∧
    ∀ (message m : Value) (check : Check) (name : String) (abort unknown : Bool) (id : Identity)
      (a : Scalar), let s := Schema.constraint message check name abort (.anything m unknown)
      s.IsBuilt → s.IsPlain → (∃ id b, check.requirement = .scalar id b) →
        ((∃ r, (e.parse ctx s (.scalar id a) st).1 = .ok r) ↔ check.Suits (.scalar id a)) := by
  have hempty : State.empty.Alike objects .empty := ⟨State.sound_empty, State.sound_empty, rfl⟩
  have hst := (Operation.performAll_alike hops hempty).2.left
  refine ⟨fun s hs hapt x hx => exists_parse hs hst e (s.returns_run hP hctx hapt (.inr hx)), ?_⟩
  intro message m check name abort unknown id a s hbuilt hplain hrequirement
  obtain ⟨hrefine, hobject⟩ := hplain.constraint
  have hnumbered : s.Numbered objects := by
    refine Schema.numbered_iff.mpr ⟨fun _ hid => (by cases hid), fun c hc => ?_⟩
    obtain rfl : c = .anything m unknown := List.mem_singleton.mp hc
    exact Schema.numbered_iff.mpr ⟨fun _ hid => (by cases hid), fun _ hc => (by cases hc)⟩
  have hrun : s.run ctx (.fresh (.scalar id a)) =
      Validator.constraint message check name abort .anything ctx (.fresh (.scalar id a)) := by
    unfold Schema.run
    cases ctx.bound s (Dataset.fresh (.scalar id a)).value <;> rfl
  constructor
  · rintro ⟨r, hr⟩
    refine Classical.byContradiction fun hsuits => ?_
    have hfaults : Faults
        (Validator.constraint message check name abort .anything ctx (.fresh (.scalar id a))) :=
      Validator.faults_constraint hctx hrefine hrequirement hsuits
    obtain ⟨f, hf⟩ := parse_of_faults hnumbered hst e (hrun ▸ hfaults)
    cases hf.symm.trans hr
  · intro hsuits
    refine exists_parse hnumbered hst e (A := (· = .scalar id a)) ?_
    rw [hrun]
    refine Validator.returns_constraint hctx hplain.1 hrefine hbuilt hobject (fun y hy => ?_) abort
      (returns_pure (Dataset.fits_valid rfl))
    rw [hy]
    exact hsuits

/-- An object with a number that is too small and a decimal that is "not a number", which nothing is
compared with; and the comparison that such a decimal does not suit. -/
theorem parse_total_person :
    let kind : Scalar → Prop := fun a => a.IsData = true ∧ a.IsShort
    let age : Schema :=
      .constraint .null (.order .ge (.int 0)) "min_value(0)" false (.primitive .null .number)
    let note : Schema := .anything .null false
    let person : Schema :=
      .object .null 0 .strict .strict .reject [(.str "age", age), (.str "note", note)]
    let small : Schema := .constraint .null (.order .lt (.int 1)) "less_than(1)" false note
    let ctx : Context := ⟨.default, [], [], [], ⟨fun _ _ _ => .error .callable, 0⟩⟩
    let nan : Value := .scalar .fresh (.decimal (.nan false false 0))
    let input : Value := .ofMapping [(.str "age", .int (-1)), (.str "note", nan)]
    let st := (Operation.performAll [.fetch 0 person] .empty).2
    ctx.Plain ∧ person.Numbered (fun _ => person) ∧ (∀ t : Schema, t.Part person → t.IsApt kind) ∧
      input.Data kind ∧ (∃ r, (Engine.parse ⟨true, 0⟩ ctx person input st).1 = .ok r) ∧
      small.IsBuilt ∧ small.IsPlain ∧
      ((∃ r, (Engine.parse ⟨true, 0⟩ ctx small nan st).1 = .ok r) ↔
        (Check.order .lt (.int 1)).Suits nan) := by
  intro kind age note person small ctx nan input st
  have hctx : ctx.Plain := ⟨rfl, rfl, rfl⟩
  have hkeys : ∀ e ∈ [(Value.str "age", age), (.str "note", note)],
      e.1.Legible ∧ e.1.Every kind := by
    refine List.forall_mem_cons.mpr ⟨?_, List.forall_mem_singleton.mpr ?_⟩ <;>
      exact ⟨⟨_, rfl⟩, .scalar ⟨rfl, trivial⟩⟩
  have hname : (Check.order .ge (.int 0)).name = .ok "min_value(0)" := by decide +kernel
  have hsmall : (Check.order .lt (.int 1)).name = .ok "less_than(1)" := by decide +kernel
  have hage : age.IsApt kind := by
    refine ⟨hname, ⟨rfl, rfl⟩, fun y hy hadmits => ?_⟩
    cases hadmits with
    | primitive haccepts =>
      have hlegible : y.Legible := (Value.legible_iff y).mpr (hy.mono fun _ h => h.2)
      cases y with
      | scalar id a =>
        have hmoment : (Value.scalar id a).toDateTime? = none := by
          cases a <;> first | rfl | cases haccepts
        refine ⟨fun p q _ _ _ => ⟨?_, rfl⟩, .inr ?_⟩
        · cases a <;> first | rfl | cases haccepts
        · rw [hmoment]
          exact hlegible
      | _ => cases haccepts
  have hapt : ∀ t : Schema, t.Part person → t.IsApt kind := by
    have hnumber : (Schema.primitive .null .number).IsApt kind := ⟨trivial, ⟨rfl, trivial⟩, trivial⟩
    have hnote : note.IsApt kind := ⟨trivial, ⟨rfl, trivial⟩, trivial⟩
    refine Schema.forall_part_iff.mpr ⟨⟨fun e he => (hkeys e he).1, ⟨rfl, fun h => by cases h⟩,
      fun e he => (hkeys e he).2⟩, List.forall_mem_cons.mpr ⟨?_, List.forall_mem_singleton.mpr ?_⟩⟩
    · refine Schema.forall_part_iff.mpr ⟨hage, List.forall_mem_singleton.mpr ?_⟩
      exact Schema.forall_part_iff.mpr ⟨hnumber, fun _ hc => by cases hc⟩
    · exact Schema.forall_part_iff.mpr ⟨hnote, fun _ hc => by cases hc⟩
  have hnumbered : person.Numbered fun _ => person := by
    have leaf {s : Schema} (hid : s.number? = none) (hc : s.children = []) :
        s.Numbered fun _ => person :=
      Schema.numbered_iff.mpr ⟨fun id h => (by cases hid.symm.trans h), fun c h => (by
        rw [hc] at h
        cases h)⟩
    refine Schema.numbered_iff.mpr ⟨fun _ _ => rfl,
      List.forall_mem_cons.mpr ⟨?_, List.forall_mem_singleton.mpr (leaf rfl rfl)⟩⟩
    exact Schema.numbered_iff.mpr ⟨fun _ hid => (by cases hid),
      List.forall_mem_singleton.mpr (leaf rfl rfl)⟩
  have hinput : input.Data kind := by
    refine .mapping ⟨?_, ?_, ?_, ?_⟩ ?_ ?_
    · exact List.pairwise_pair.mpr ⟨rfl, rfl⟩
    · exact fun hx => (by simp at hx; rcases hx with rfl | rfl <;> rfl)
    · exact fun hx => (by simp at hx; rcases hx with rfl | rfl <;> rfl)
    · exact fun hx => (by simp at hx; rcases hx with rfl | rfl <;> exact ⟨_, rfl⟩)
    · refine List.forall_mem_cons.mpr ⟨?_, List.forall_mem_singleton.mpr ?_⟩ <;>
        exact .scalar ⟨rfl, trivial⟩
    · refine List.forall_mem_cons.mpr ⟨.scalar ⟨rfl, ?_⟩,
        List.forall_mem_singleton.mpr (.scalar ⟨rfl, trivial⟩)⟩
      have hpos := Number.tenPow_pos 4299
      change 1 < Number.tenPow (4299 + 1)
      rw [Number.tenPow_succ]
      omega
  have htotal := parse_total (P := kind) (fun _ h => h.1) hctx (fun _ => person)
    [.fetch 0 person] (by simpa [Operation.schema?] using hnumbered) ⟨true, 0⟩
  exact ⟨hctx, hnumbered, hapt, hinput, htotal.1 person hnumbered hapt input hinput,
    hsmall, ⟨rfl, rfl⟩,
    htotal.2 .null .null _ _ false false .fresh _ hsmall ⟨rfl, rfl⟩ ⟨_, _, rfl⟩⟩

/-- A comparison with a decimal that is "not a number" ends in a fault, though the schema is well
built and runs no code of a caller. -/
theorem parse_lessThan_nan :
    let s : Schema := .constraint .null (.order .lt (.int 1)) "less_than(1)" false
      (.anything .null false)
    let ctx : Context := ⟨.default, [], [], [], ⟨fun _ _ _ => .error .callable, 0⟩⟩
    let nan : Value := .scalar .fresh (.decimal (.nan false false 0))
    ctx.Plain ∧ (∀ t : Schema, t.Part s → t.IsBuilt ∧ t.IsPlain) ∧
      nan.Data (fun a => a.IsData = true) ∧
      (Engine.parse ⟨false, 0⟩ ctx s nan .empty).1 = .error .decimal := by
  intro s ctx nan
  have hname : (Check.order .lt (.int 1)).name = .ok "less_than(1)" := by decide +kernel
  refine ⟨⟨rfl, rfl, rfl⟩, Schema.forall_part_iff.mpr ⟨⟨hname, rfl, rfl⟩, ?_⟩, .scalar rfl, rfl⟩
  refine List.forall_mem_singleton.mpr (Schema.forall_part_iff.mpr ⟨⟨trivial, rfl, trivial⟩, ?_⟩)
  exact fun _ hc => by cases hc

end Engine

end Conform
