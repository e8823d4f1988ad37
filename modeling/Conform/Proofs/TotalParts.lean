/-
  Conform/Proofs/TotalParts.lean
  ==============================
  **Schemas of values, and containers of parts, return.**  A constraint, a
  wrapper, a list, a tuple or a set comes to a result when its part does.

  With the outcome of a part goes what the whole needs to know of it
  (`Dataset.Fits`, `Value.Carries`): that its issues can be shown, and there are
  some if it is not valid; and that its value has the shape of the part, is made
  of data, and can be a key where the value before could.
-/
import Conform.Proofs.Suitability

namespace Conform

section

variable {P : Scalar → Prop} {ctx : Context} {A : Value → Prop} {x : Value}

/-! ### Schemas without parts -/

namespace Validator

theorem returns_reject (hctx : ctx.Plain) {message : Value}
    (hmessage : message.isOptionalText = true) {f : Finding} (hf : f.Worded) {d : Dataset}
    (hd : ∀ i ∈ d.issues, i.Shown) : Returns (reject ctx d message f) (Dataset.Fits A) :=
  ((returns_report hctx hmessage hf).within d).bind fun _ hi =>
    returns_pure (Dataset.fits_failWith hd hi)

theorem total_judge (hctx : ctx.Plain) {message : Value}
    (hmessage : message.isOptionalText = true) {j : Judgement}
    (hj : ∀ x, x.Fit P → ∃ r, j ctx.typeNames x = .ok r ∧
      Sum.elim (fun y => A y ∧ x.Carries P y) Finding.Worded r) :
    (judge message j).Total ctx P A := by
  intro x hx
  obtain ⟨r, hr, hfits⟩ := hj x hx
  refine (returns_withinExcept ⟨r, hr, hfits⟩ _).bind fun r hfits => ?_
  cases r with
  | inl y => exact returns_pure (Dataset.fits_valid hfits)
  | inr f => exact returns_reject hctx hmessage hfits fun _ hi => by cases hi

/-! ### Constraints and wrappers -/

theorem suits_of_isUndefined (check : Check) (h : x.isUndefined = true) : check.Suits x := by
  have hlegible : x.Legible := (Value.legible_iff x).mpr (Value.every_of_isUndefined h trivial)
  cases x with
  | scalar id s =>
    cases s with
    | undefined =>
      cases check with
      | pattern regex program => exact fun htext => by cases htext
      | order relation limit =>
        refine ⟨Value.clear_of_every (.scalar (Value.every_of_forall (fun b => ?_) limit)),
          .inr hlegible⟩
        exact ⟨fun p q hp => (by cases hp), fun hs => (by cases hs), fun _ => rfl⟩
      | multipleOf divisor => exact .inr hlegible
      | positive => exact .inr hlegible
      | negative => exact .inr hlegible
      | _ => trivial
    | _ => cases h
  | _ => cases h

/-- A constraint that suits a value has an answer, and when it is no it can be said why. -/
theorem returns_test {check : Check} (hplain : ∀ p, check ≠ .refine p) {y : Value}
    (hsuits : check.Suits y) (names : TypeNames) :
    Returns (check.test ctx y) fun b => b = false →
      (∃ r, check.received names y = .ok r) ∧ ∀ relation limit, check = .order relation limit →
        y.toDateTime?.isSome = true → limit.takesDate = true := by
  cases check with
  | refine p => exact (hplain p rfl).elim
  | size bound limit requirement =>
    refine returns_pure fun _ => ⟨?_, fun _ _ h => by cases h⟩
    unfold Check.received
    dsimp only
    split <;> exact ⟨_, rfl⟩
  | pattern regex program =>
    unfold Check.test
    dsimp only
    split
    · next s htext =>
      rw [hsuits (by rw [htext]; rfl)]
      exact returns_pure fun _ => ⟨⟨_, rfl⟩, fun _ _ h => by cases h⟩
    · exact returns_pure fun _ => ⟨⟨_, rfl⟩, fun _ _ h => by cases h⟩
  | order relation limit =>
    obtain ⟨hclear, hwords⟩ := hsuits
    obtain ⟨b, hb⟩ := Value.exists_ifComparable (r := relation) hclear
    refine returns_ofExcept ⟨b, hb, fun hfalse => ?_⟩
    subst hfalse
    have hwords := hwords.resolve_left fun htrue => by
      rw [htrue] at hb
      cases hb
    by_cases hmoment : y.toDateTime?.isSome = true
    · rw [if_pos hmoment] at hwords
      obtain ⟨d, hd⟩ := Option.isSome_iff_exists.mp hmoment
      refine ⟨⟨_, by simp only [Check.received, hd]; rfl⟩, fun _ _ h _ => ?_⟩
      cases h
      exact hwords
    · rw [if_neg hmoment] at hwords
      refine ⟨?_, fun _ _ _ h => (hmoment h).elim⟩
      rw [Option.not_isSome_iff_eq_none] at hmoment
      simp only [Check.received, hmoment]
      exact hwords
  | multipleOf divisor =>
    refine returns_pure fun hfalse => ⟨hsuits.resolve_left ?_, fun _ _ h => by cases h⟩
    rw [hfalse]
    exact Bool.false_ne_true
  | positive =>
    refine returns_pure fun hfalse => ⟨hsuits.resolve_left fun h => ?_, fun _ _ h => by cases h⟩
    rw [h] at hfalse
    cases hfalse
  | negative =>
    refine returns_pure fun hfalse => ⟨hsuits.resolve_left fun h => ?_, fun _ _ h => by cases h⟩
    rw [h] at hfalse
    cases hfalse
  | _ => exact returns_pure fun _ => ⟨⟨_, rfl⟩, fun _ _ h => by cases h⟩

/-- A constraint that suits whatever comes of the schema before it returns. -/
theorem returns_constraint (hctx : ctx.Plain) {message : Value}
    (hmessage : message.isOptionalText = true) {check : Check} {name : String}
    (hplain : ∀ p, check ≠ .refine p) (hname : check.name = .ok name)
    (hobject : check.requirement.isObject = false) (hsuits : ∀ y, A y → check.Suits y)
    (abort : Bool) {inner : Validator} (hinner : Returns (inner ctx (.fresh x)) (Dataset.Fits A)) :
    Returns (constraint message check name abort inner ctx (.fresh x)) (Dataset.Fits A) := by
  unfold constraint
  refine hinner.bind fun d hd => ?_
  cases htyped : d.isTyped with
  | false => exact returns_pure hd
  | true =>
    have hvalue := hd.typed htyped
    refine ((returns_test hplain (hsuits _ hvalue) ctx.typeNames).within d).bind fun b hb => ?_
    cases b with
    | true => exact returns_pure hd
    | false =>
      obtain ⟨⟨received, hreceived⟩, hdate⟩ := hb rfl
      obtain ⟨f, hf⟩ : ∃ f, check.finding ctx.typeNames name d.value = .ok f := by
        unfold Check.finding
        rw [hreceived]
        exact ⟨_, rfl⟩
      have hworded := Check.worded hplain hname hobject hdate hf
      refine (returns_withinExcept ⟨f, hf, hworded⟩ d).bind fun f hworded => ?_
      refine ((returns_report hctx hmessage hworded).within d).bind fun i hi => ?_
      split
      · exact returns_pure (Dataset.fits_failWith hd.shown hi)
      · refine returns_pure ⟨?_, fun _ => ?_, fun _ => hvalue⟩
        · intro j hj
          rcases List.mem_append.mp hj with hj | hj
          · exact hd.shown j hj
          · rwa [List.mem_singleton.mp hj]
        · simp

theorem total_constraint (hctx : ctx.Plain) {message : Value}
    (hmessage : message.isOptionalText = true) {check : Check} {name : String}
    (hplain : ∀ p, check ≠ .refine p) (hname : check.name = .ok name)
    (hobject : check.requirement.isObject = false)
    (hsuits : ∀ y : Value, y.Every P → A y → check.Suits y) (abort : Bool) {inner : Validator}
    (hinner : inner.Total ctx P A) :
    (constraint message check name abort inner).Total ctx P A := by
  intro x hx
  refine returns_constraint hctx hmessage hplain hname hobject (fun y hy => ?_) abort (hinner x hx)
  exact hy.2.every.elim (hsuits y · hy.1) fun h => suits_of_isUndefined check h.2

/-- Nothing but the absence of a value becomes of what a wrapper accepts without its schema. -/
theorem carries_of_spared {w : Wrapping} (hx : x.Fit P) {y : Value}
    (h : w.spared? x = some y) : x.Carries P y := by
  unfold Wrapping.spared? at h
  split at h
  · split at h
    · cases h
      exact hx.carries
    · cases h
  · split at h
    · next hnull =>
      cases h
      refine ⟨?_, fun _ _ => rfl⟩
      cases x with
      | scalar id s =>
        cases s with
        | null =>
          rcases hx with hx | hx
          · cases hx
          · cases hx with
            | scalar hs => exact .inl (.scalar hs)
        | _ => cases hnull
      | _ => cases hnull
    · cases h
  · split at h
    · cases h
      exact hx.carries
    · cases h
  · cases h
  · cases h

theorem total_wrapper (hP : ∀ s, P s → s.IsData = true) {w : Wrapping}
    (hdefault : ∀ v, w = .default v → v.isCallable = false ∧ v.Data P)
    (hspared : ∀ x y, w.spared? x = some y → A y) {inner : Validator}
    (hinner : inner.Total ctx P A) : (wrapper w inner).Total ctx P A := by
  intro x hx
  have spare {y : Value} (h : w.spared? x = some y) :
      Returns (pure ((Dataset.fresh x).succeed y) : Run Dataset)
        (Dataset.Fits fun y => A y ∧ x.Carries P y) :=
    returns_pure (Dataset.fits_valid ⟨hspared _ _ h, carries_of_spared hx h⟩)
  unfold wrapper
  cases w with
  | optional =>
    dsimp only
    split
    · next hundefined => exact spare (if_pos hundefined)
    · exact hinner x hx
  | nullable =>
    dsimp only
    split
    · next hnull => exact spare (if_pos hnull)
    · exact hinner x hx
  | nullish =>
    dsimp only
    split
    · next heither => exact spare (if_pos heither)
    · exact hinner x hx
  | readonly => exact hinner x hx
  | default v =>
    obtain ⟨hcallable, hdata⟩ := hdefault v rfl
    dsimp only
    split
    · next hundefined =>
      have hsupply : Returns (supply ctx v) (· = v) := by
        unfold supply
        rw [hcallable]
        exact returns_pure rfl
      refine (hsupply.within _).bind fun y hy => ?_
      subst hy
      refine (hinner y (.inr hdata)).mono fun d hd => hd.mono fun z hz => ⟨hz.1, ?_, fun h => ?_⟩
      · exact .inl (hz.2.every.resolve_right fun h => by
          rw [hdata.isUndefined hP] at h
          cases h.1)
      · cases h.symm.trans hundefined
    · exact hinner x hx

/-! ### Gathering -/

end Validator

/-- What has been gathered fits: its issues can be shown, there are some if a part is not typed, and
the output has a property. -/
structure Gathering.Fits {α : Type} (O : α → Prop) (g : Gathering α) : Prop where
  shown : ∀ i ∈ g.dataset.issues, i.Shown
  untyped : g.typed = false → g.dataset.issues ≠ []
  output : O g.output

/-- A dataset at which gathering stops has issues, which can be shown. -/
structure Dataset.Stopped (d : Dataset) : Prop where
  shown : ∀ i ∈ d.issues, i.Shown
  failed : d.issues ≠ []

/-- A contribution fits: its issues can be shown, there are some if it is not typed, and what it
writes if it is keeps a property of the output. -/
structure Contribution.Fits {α : Type} (O O' : α → Prop) (c : Contribution α) : Prop where
  shown : ∀ i ∈ c.issues, i.Shown
  untyped : c.typed = false → c.issues ≠ []
  put : c.typed = true → ∀ output, O output → O' (c.put output)
  keep : c.typed = false → ∀ output, O output → O' output

theorem Gathering.Fits.mono {α : Type} {O O' : α → Prop} {g : Gathering α} (h : g.Fits O)
    (hO : ∀ output, O output → O' output) : g.Fits O' :=
  ⟨h.shown, h.untyped, hO _ h.output⟩

theorem Gathering.Fits.receive {α : Type} {O O' : α → Prop} {g : Gathering α} (hg : g.Fits O)
    {c : Contribution α} (hc : c.Fits O O') :
    (g.receive ctx c).Holds (Gathering.Fits O') Dataset.Stopped := by
  have hshown : ∀ i ∈ (g.dataset.addAll c.issues).issues, i.Shown := by
    intro i hi
    rcases List.mem_append.mp hi with hi | hi
    · exact hg.shown i hi
    · exact hc.shown i hi
  have hright (h : c.issues ≠ []) : (g.dataset.addAll c.issues).issues ≠ [] := by
    simp [Dataset.addAll, h]
  unfold Gathering.receive
  split
  · next hstop =>
    rw [Bool.and_eq_true] at hstop
    exact ⟨hshown, hright (by simpa using hstop.1)⟩
  · refine ⟨hshown, fun huntyped => ?_, ?_⟩
    · rcases Bool.and_eq_false_iff.mp huntyped with h | h
      · have hne := hg.untyped h
        simp [Dataset.addAll, hne]
      · exact hright (hc.untyped h)
    · change O' (if c.typed then c.put g.output else g.output)
      split
      · next h => exact hc.put h _ hg.output
      · next h => exact hc.keep (Bool.eq_false_iff.mpr h) _ hg.output

theorem Validator.returns_giveUp {d : Dataset} (hd : d.Stopped) :
    Returns (giveUp d) (Dataset.Fits A) :=
  returns_withinExcept ⟨_, Dataset.fail_eq_ok_iff.mpr ⟨hd.failed, rfl⟩,
    ⟨hd.shown, fun _ => hd.failed, fun h => by cases h⟩⟩ d

/-- A container of parts that fit ends without a fault. -/
theorem returns_finish {α : Type} {O : α → Prop} {make : α → Except Fault Value}
    (hmake : ∀ output, O output → ∃ y, make output = .ok y ∧ A y) {p : Progress α}
    (hp : p.Holds (Gathering.Fits O) Dataset.Stopped) :
    Returns (p.finish make) (Dataset.Fits A) := by
  cases p with
  | stopped d => exact Validator.returns_giveUp hp
  | going g =>
    obtain ⟨y, hy, hA⟩ := hmake _ hp.output
    refine (returns_withinExcept ⟨y, hy, hA⟩ _).bind fun y hA => ?_
    refine returns_withinExcept ?_ _
    unfold Dataset.finish
    split
    · next hclean =>
      exact ⟨_, rfl, hp.shown, fun h => (h rfl).elim, fun _ => hA⟩
    · next hne =>
      rw [List.isEmpty_iff] at hne
      split
      · exact ⟨_, rfl, hp.shown, fun _ => hne, fun _ => hA⟩
      · exact ⟨_, Dataset.fail_eq_ok_iff.mpr ⟨hne, rfl⟩, hp.shown, fun _ => hne, fun h => by cases h⟩

theorem Value.Carries.every_of_data (hP : ∀ s, P s → s.IsData = true) {x y : Value}
    (hx : x.Data P) (h : x.Carries P y) : y.Every P :=
  h.every.resolve_right fun hundefined => by cases (hx.isUndefined hP).symm.trans hundefined.1

/-- The contribution of a validated part. -/
theorem Dataset.Fits.contribution {α : Type} {O O' : α → Prop} {B : Value → Prop} {part : Dataset}
    (hpart : part.Fits B) {key : Value} (hkey : key.Legible) (put : Value → α → α)
    (hput : ∀ y, B y → ∀ output, O output → O' (put y output))
    (hkeep : ∀ output, O output → O' output) :
    (part.contribution key put).Fits O O' where
  shown := by
    intro i hi
    obtain ⟨j, hj, rfl⟩ := List.mem_map.mp hi
    exact (hpart.shown j hj).under hkey
  untyped := by
    intro huntyped
    have hne := hpart.failed fun hstatus => by
      simp [Dataset.contribution, Dataset.isTyped, hstatus, Status.isTyped] at huntyped
    simp [Dataset.contribution, hne]
  put := fun htyped => hput _ (hpart.typed htyped)
  keep := fun _ => hkeep

/-- The contribution of an issue. -/
theorem Issue.Shown.contribution {α : Type} {O : α → Prop} {i : Issue} (hi : i.Shown) :
    (i.contribution : Contribution α).Fits O O where
  shown := fun j hj => by rwa [List.mem_singleton.mp hj]
  untyped := fun _ => List.cons_ne_nil _ _
  put := fun h => by cases h
  keep := fun _ _ h => h

namespace Validator

/-! ### Lists, tuples and sets -/

/-- A part of data, under a key that can be shown. -/
structure Part.Fits (H : Prop) (ctx : Context) (P : Scalar → Prop) (p : Part) : Prop where
  key : p.key.Legible
  data : p.value.Data P
  hashable : H → p.value.isHashable = true
  total : ∃ B, p.validator.Total ctx P B

/-- Validated items, which can be keys if `H` holds. -/
def Outputs (H : Prop) (P : Scalar → Prop) (output : List Value) : Prop :=
  ∀ y ∈ output, y.Every P ∧ (H → y.isHashable = true)

theorem Outputs.append {H : Prop} {output : List Value} (h : Outputs H P output) {y : Value}
    (hevery : y.Every P) (hhashable : H → y.isHashable = true) : Outputs H P (output ++ [y]) := by
  intro z hz
  rcases List.mem_append.mp hz with hz | hz
  · exact h z hz
  · rw [List.mem_singleton.mp hz]
    exact ⟨hevery, hhashable⟩

theorem returns_parts (hP : ∀ s, P s → s.IsData = true) {H : Prop} {list : List Part}
    (hparts : ∀ p ∈ list, p.Fits H ctx P) (x : Value) :
    Returns (parts ctx (.fresh x) list)
      (Progress.Holds (Gathering.Fits (Outputs H P)) Dataset.Stopped) := by
  have hstart : (Gathering.start (Dataset.fresh x) ([] : List Value)).Fits (Outputs H P) :=
    ⟨fun _ hi => (by cases hi), fun h => (by cases h), fun _ hy => by cases hy⟩
  refine returns_each (E := Part.Fits H ctx P) (fun p hp g hg => ?_) hparts hstart
  obtain ⟨B, htotal⟩ := hp.total
  refine (((htotal _ (.inr hp.data)).toEffect).within _).bind fun part hpart => ?_
  rw [Gathering.take_eq_receive]
  refine returns_pure (hg.receive (hpart.contribution hp.key (fun v output => output ++ [v])
    ?_ fun _ h => h))
  intro y hy output houtput
  refine houtput.append (hy.2.every_of_data hP hp.data) fun hH => ?_
  exact hy.2.hashable (hp.data.isUndefined hP) (hp.hashable hH)

theorem returns_mismatch (hctx : ctx.Plain) {l : Label} (hl : l.message.isOptionalText = true)
    (htype : l.type ∈ Message.shapeKeys) (x : Value) :
    Returns (mismatch l ctx (.fresh x)) (Dataset.Fits A) :=
  returns_reject hctx hl (Finding.worded_of_shape htype) fun _ hi => by cases hi

theorem exists_sizeFinding? {l : Label} (htype : l.type ∈ ["string", "array", "set", "map"])
    {limits : Limits}
    (hlimits : ∀ limit, limit ∈ limits.least ∨ limit ∈ limits.most →
      ∃ t, limit.requirement.text = .ok t) (x : Value) (size : Nat) :
    ∃ r, sizeFinding? l limits x size = .ok r ∧ ∀ f ∈ r, f.Worded := by
  have found {limit : Limit} (hlimit : ∃ t, limit.requirement.text = .ok t) {type : String}
      (hbound : type ∈ ["min_length", "max_length", "length"]) :
      ∃ r, (sizeFinding l x type limit size).map some = .ok r ∧ ∀ f ∈ r, f.Worded := by
    obtain ⟨t, ht⟩ := hlimit
    unfold sizeFinding
    rw [ht]
    refine ⟨_, rfl, fun f hf => ?_⟩
    cases hf
    exact Finding.worded_of_requirement (Message.asks_size _ htype _ hbound) ⟨t, ht⟩
  have none : ∃ r, (.ok none : Except Fault (Option Finding)) = .ok r ∧ ∀ f ∈ r, f.Worded :=
    ⟨_, rfl, fun _ hf => by cases hf⟩
  have most : ∃ r, sizeFinding? l ⟨.none, limits.most⟩ x size = .ok r ∧ ∀ f ∈ r, f.Worded := by
    unfold sizeFinding?
    dsimp only
    split
    · next limit hmost =>
      split
      · exact found (hlimits limit (.inr hmost)) (by simp)
      · exact none
    · exact none
  unfold sizeFinding?
  dsimp only
  split
  · next limit hleast =>
    split
    · exact found (hlimits limit (.inl hleast)) (by simp)
    · exact most
  · exact most

theorem returns_ifSized (hctx : ctx.Plain) {l : Label} (hl : l.message.isOptionalText = true)
    (htype : l.type ∈ ["string", "array", "set", "map"]) {limits : Limits}
    (hlimits : ∀ limit, limit ∈ limits.least ∨ limit ∈ limits.most →
      ∃ t, limit.requirement.text = .ok t) {next : Run Dataset}
    (hnext : Returns next (Dataset.Fits A)) (x : Value) (size : Nat) :
    Returns (ifSized l limits size ctx (.fresh x) next) (Dataset.Fits A) := by
  refine (returns_withinExcept (exists_sizeFinding? htype hlimits x size) _).bind fun r hr => ?_
  cases r with
  | none => exact hnext
  | some f => exact returns_reject hctx hl (hr f rfl) fun _ hi => by cases hi

theorem legible_index {i n : Nat} (hi : i < n) (hn : n ≤ Number.tenPow Number.digitLimit) :
    (Value.int i).Legible :=
  (Value.legible_iff _).mpr (.scalar (Nat.lt_of_lt_of_le hi hn))

theorem total_array (hP : ∀ s, P s → s.IsData = true) (hctx : ctx.Plain) {l : Label}
    (hl : l.message.isOptionalText = true) (htype : l.type = "array") {limits : Limits}
    (hlimits : ∀ limit, limit ∈ limits.least ∨ limit ∈ limits.most →
      ∃ t, limit.requirement.text = .ok t) {item : Validator} {B : Value → Prop}
    (hitem : item.Total ctx P B) (hA : ∀ ys, A (.ofList ys)) :
    (array l limits item).Total ctx P A := by
  intro x hx
  unfold array
  split
  · next id flavor items hvalue =>
    obtain rfl : x = .list id flavor items := hvalue
    refine returns_ifSized hctx hl (by simp [htype]) hlimits ?_ _ _
    rcases hx with hx | hx
    · cases hx
    · cases hx with
      | list hlength hdata =>
        refine (returns_parts (H := False) hP (fun p hp => ?_) _).bind fun p hp =>
          returns_finish (fun output houtput => ?_) hp
        · obtain ⟨i, hi, rfl⟩ := List.mem_mapIdx.mp hp
          exact ⟨legible_index hi hlength, hdata _ (List.getElem_mem hi), False.elim, B, hitem⟩
        · refine ⟨_, rfl, hA output, .inl (.list fun y hy => (houtput y hy).1), fun _ h => ?_⟩
          cases h
  · exact returns_mismatch hctx hl (by simp [htype, Message.shapeKeys]) x

theorem mem_of_mem_members {xs : List Value} {y : Value} (h : y ∈ Value.members xs) : y ∈ xs := by
  have fold : ∀ (xs acc : List Value), y ∈ xs.foldl Value.addMember acc → y ∈ acc ∨ y ∈ xs := by
    intro xs
    induction xs with
    | nil => exact fun acc h => .inl h
    | cons x rest ih =>
      intro acc h
      rcases ih _ h with h | h
      · unfold Value.addMember at h
        split at h
        · exact .inl h
        · rcases List.mem_append.mp h with h | h
          · exact .inl h
          · exact .inr (List.mem_cons.mpr (.inl (List.mem_singleton.mp h)))
      · exact .inr (List.mem_cons_of_mem x h)
  exact (fold xs [] h).resolve_left fun h => by cases h

theorem total_set (hP : ∀ s, P s → s.IsData = true) (hctx : ctx.Plain) {l : Label}
    (hl : l.message.isOptionalText = true) (htype : l.type = "set") {limits : Limits}
    (hlimits : ∀ limit, limit ∈ limits.least ∨ limit ∈ limits.most →
      ∃ t, limit.requirement.text = .ok t) {item : Validator} {B : Value → Prop}
    (hitem : item.Total ctx P B) (hA : ∀ frozen ys, A (.ofSet frozen ys)) :
    (set l limits item).Total ctx P A := by
  intro x hx
  unfold set
  split
  · next id frozen items hvalue =>
    obtain rfl : x = .set id frozen items := hvalue
    refine returns_ifSized hctx hl (by simp [htype]) hlimits ?_ _ _
    rcases hx with hx | hx
    · cases hx
    · cases hx with
      | set hkeys hdata =>
        refine (returns_parts (H := True) hP (fun p hp => ?_) _).bind fun p hp =>
          returns_finish (fun output houtput => ?_) hp
        · obtain ⟨y, hy, rfl⟩ := List.mem_map.mp hp
          exact ⟨hkeys.legible hy, hdata y hy, fun _ => hkeys.hashable hy, B, hitem⟩
        · have hhashable : Value.allHashable output = true :=
            Value.allHashable_of fun y hy => (houtput y hy).2 trivial
          refine ⟨.ofSet frozen (Value.members output), ?_, hA _ _, ?_, fun _ h => ?_⟩
          · unfold Value.toMembers
            rw [if_pos hhashable]
            rfl
          · exact .inl (.set fun y hy => (houtput y (mem_of_mem_members hy)).1)
          · exact h
  · exact returns_mismatch hctx hl (by simp [htype, Message.shapeKeys]) x

theorem mem_of_positional {items : List Validator} {rest : Option Validator} {i : Nat}
    {xs : List Value} {p : Part} (h : p ∈ positional items rest i xs) :
    p.value ∈ xs ∧ ∃ k, i ≤ k ∧ k < i + xs.length ∧ p.key = .int k := by
  fun_induction positional items rest i xs with
  | case1 => cases h
  | case2 _ _ _ _ _ _ ih =>
    rcases List.mem_cons.mp h with rfl | h
    · exact ⟨List.mem_cons_self, _, Nat.le_refl _, by simp, rfl⟩
    · obtain ⟨hvalue, k, hlow, hhigh, hkey⟩ := ih h
      exact ⟨List.mem_cons_of_mem _ hvalue, k, by omega, by simp only [List.length_cons]; omega, hkey⟩
  | case3 _ _ _ _ ih =>
    rcases List.mem_cons.mp h with rfl | h
    · exact ⟨List.mem_cons_self, _, Nat.le_refl _, by simp, rfl⟩
    · obtain ⟨hvalue, k, hlow, hhigh, hkey⟩ := ih h
      exact ⟨List.mem_cons_of_mem _ hvalue, k, by omega, by simp only [List.length_cons]; omega, hkey⟩
  | case4 => cases h

theorem total_tuple (hP : ∀ s, P s → s.IsData = true) (hctx : ctx.Plain) {l : Label}
    (hl : l.message.isOptionalText = true) (htype : l.type = "tuple") {items : List Validator}
    (hlength : items.length < Number.tenPow Number.digitLimit) {rest : Option Validator}
    (hitems : ∀ v ∈ items, ∃ B, v.Total ctx P B) (hrest : ∀ v ∈ rest, ∃ B, v.Total ctx P B)
    (hA : ∀ ys, A (.ofTuple ys)) : (tuple l items rest).Total ctx P A := by
  intro x hx
  unfold tuple
  split
  · exact returns_mismatch hctx hl (by simp [htype, Message.shapeKeys]) x
  · next values hvalues =>
    have refuse {key : String} (hkey : key ∈ Message.requirementKeys) :
        Returns (reject ctx (.fresh x) l.message
          (lengthFinding l ctx.typeNames x items.length values.length key))
          (Dataset.Fits fun y => A y ∧ x.Carries P y) := by
      refine returns_reject hctx hl ?_ fun _ hi => by cases hi
      refine Finding.worded_of_requirement (Message.asks_requirement _ hkey) ?_
      exact Value.exists_text ((Value.legible_iff _).mpr (.scalar hlength)) rfl
    dsimp only
    split
    · exact refuse (by simp [Message.requirementKeys])
    · split
      · exact refuse (by simp [Message.requirementKeys])
      · have hdata : values.length ≤ Number.tenPow Number.digitLimit ∧
            (∀ y ∈ values, y.Data P) ∧
            (x.isHashable = true → ∀ y ∈ values, y.isHashable = true) := by
          rcases hx with hx | hx
          · cases x with
            | scalar id s => cases hvalues
            | _ => cases hx
          · cases hx with
            | list hlength hdata =>
              cases hvalues
              exact ⟨hlength, hdata, fun h => by cases h⟩
            | tuple hlength hdata =>
              cases hvalues
              exact ⟨hlength, hdata, fun h y hy => Value.isHashable_of_allHashable h hy⟩
            | _ => cases hvalues
        refine (returns_parts (H := x.isHashable = true) hP (fun p hp => ?_) _).bind fun p hp =>
          returns_finish (fun output houtput => ?_) hp
        · obtain ⟨hvalue, k, -, hk, hkey⟩ := mem_of_positional hp
          refine ⟨?_, hdata.2.1 _ hvalue, fun h => hdata.2.2 h _ hvalue, ?_⟩
          · rw [hkey]
            exact legible_index (by simpa using hk) hdata.1
          · rcases validator_of_positional hp with h | h
            · exact hitems _ h
            · exact hrest _ h
        · refine ⟨_, rfl, hA output, .inl (.tuple fun y hy => (houtput y hy).1), fun _ h => ?_⟩
          exact Value.allHashable_of fun y hy => (houtput y hy).2 h

end Validator

end

end Conform
