/-
  Conform/Proofs/Inversion.lean
  =============================
  **Every run ends by the rules.**  For each validator: when it gives a dataset,
  one of the rules of `Schema.Outcome` says why.

  `Context.Yields` is what a run yields on a value that is not validated yet.
  It is inverted by `outcome_of_yields`, and `yields_induction` is the induction
  over the run.
-/
import Conform.Proofs.Outcome

namespace Conform

section

variable {ctx : Context} {I : Found → Prop} {R : Runs}

namespace Validator

/-- A validator keeps `I`, and what it gives is known as a run of a schema. -/
structure Follows (ctx : Context) (I : Found → Prop) (R : Runs) (v : Validator) (s : Schema) :
    Prop where
  keeps : ∀ d, Keeps I (v ctx d)
  gives : ∀ x d, Gives I (v ctx (.fresh x)) d → R s x d

theorem Follows.apply {v : Validator} {s : Schema} (h : Follows ctx I R v s) {x : Value}
    {d : Dataset} (hrun : Gives I (v.apply ctx x) d) : R s x d :=
  h.gives x d (gives_toEffect hrun)

theorem gives_reject {d e : Dataset} {message : Value} {f : Finding}
    (h : Gives I (reject ctx d message f) e) :
    ∃ i, Gives I (ctx.report message f) i ∧ e = d.failWith i := by
  obtain ⟨i, hi, h⟩ := gives_bind (keeps_within d (keeps_report ctx message f)) h
  exact ⟨i, gives_within hi, gives_pure h⟩

/-! ### Schemas without parts, and wrappers -/

theorem outcome_of_judge {s : Schema} {j : Judgement} (hj : s.judgement? = some j) {x : Value}
    {d : Dataset} (h : Gives I (judge s.message j ctx (.fresh x)) d) : s.Outcome ctx I R x d := by
  obtain ⟨verdict, hverdict, h⟩ := gives_bind (keeps_withinExcept _ _) h
  have hverdict := gives_withinExcept hverdict
  cases verdict with
  | inl y =>
    rw [gives_pure h]
    exact .accepted hj hverdict
  | inr f =>
    obtain ⟨i, hi, rfl⟩ := gives_reject h
    exact .rejected hj hverdict hi

theorem outcome_of_constraint {inner : Schema} {v : Validator} (hv : Follows ctx I R v inner)
    {m : Value} {check : Check} {name : String} {abort : Bool} {x : Value} {d : Dataset}
    (h : Gives I (constraint m check name abort v ctx (.fresh x)) d) :
    (Schema.constraint m check name abort inner).Outcome ctx I R x d := by
  unfold constraint at h
  obtain ⟨e, he, h⟩ := gives_bind (hv.keeps _) h
  have hrun := hv.gives x e he
  cases htyped : e.isTyped with
  | false =>
    rw [htyped] at h
    rw [gives_pure h]
    exact .untyped hrun htyped
  | true =>
    rw [htyped] at h
    obtain ⟨passed, hpassed, h⟩ := gives_bind (keeps_within e (keeps_test check _)) h
    have hpassed := gives_within hpassed
    cases passed with
    | true =>
      rw [gives_pure h]
      exact .passed hrun htyped hpassed
    | false =>
      obtain ⟨f, hf, h⟩ := gives_bind (keeps_withinExcept e _) h
      obtain ⟨i, hi, h⟩ := gives_bind (keeps_within e (keeps_report ctx m f)) h
      have hd : d = e.violate (abort || ctx.config.abortEarly) i := by
        unfold Dataset.violate
        split at h
        · next habort => rw [if_pos habort, gives_pure h]
        · next habort => rw [if_neg habort, gives_pure h]
      rw [hd]
      exact .violated hrun htyped hpassed (gives_withinExcept hf) (gives_within hi)

theorem wrapper_fresh (w : Wrapping) (v : Validator) (ctx : Context) (x : Value) :
    wrapper w v ctx (.fresh x) =
      match w.spared? x, w.default? x with
      | some y, _ => return .valid y
      | none, some given => within (.fresh x) (supply ctx given) >>= fun y => v ctx (.fresh y)
      | none, none => v ctx (.fresh x) := by
  cases w with
  | optional => cases hx : x.isUndefined <;> simp [wrapper, Wrapping.spared?, Wrapping.default?,
      Dataset.fresh, Dataset.succeed, Dataset.valid, hx]
  | nullable => cases hx : x.isNull <;> simp [wrapper, Wrapping.spared?, Wrapping.default?,
      Dataset.fresh, Dataset.succeed, Dataset.valid, hx]
  | nullish => cases hx : x.isNull || x.isUndefined <;> simp only [wrapper, Wrapping.spared?,
      Wrapping.default?, Dataset.fresh, Dataset.succeed, Dataset.valid, hx] <;> rfl
  | readonly => rfl
  | default given => cases hx : x.isUndefined <;> simp [wrapper, Wrapping.spared?,
      Wrapping.default?, Dataset.fresh, hx]

theorem outcome_of_wrapper {inner : Schema} {v : Validator} (hv : Follows ctx I R v inner)
    {m : Value} {w : Wrapping} {x : Value} {d : Dataset}
    (h : Gives I (wrapper w v ctx (.fresh x)) d) :
    (Schema.wrapper m w inner).Outcome ctx I R x d := by
  rw [wrapper_fresh] at h
  cases hspared : w.spared? x with
  | some y =>
    rw [hspared] at h
    rw [gives_pure h]
    exact .spared hspared
  | none =>
    cases hdefault : w.default? x with
    | some given =>
      rw [hspared, hdefault] at h
      obtain ⟨y, hy, h⟩ := gives_bind (keeps_within _ (keeps_supply given)) h
      exact .supplied hdefault (gives_within hy) (hv.gives y d h)
    | none =>
      rw [hspared, hdefault] at h
      exact .wrapped hspared hdefault (hv.gives x d h)

theorem outcome_of_overwrite {inner : Schema} {v : Validator} (hv : Follows ctx I R v inner)
    {m transform : Value} {x : Value} {d : Dataset}
    (h : Gives I (overwrite transform v ctx (.fresh x)) d) :
    (Schema.overwrite m transform inner).Outcome ctx I R x d := by
  obtain ⟨e, he, h⟩ := gives_bind (hv.keeps _) h
  have hrun := hv.gives x e he
  by_cases hstatus : e.status = .success
  · rw [if_pos (beq_iff_eq.mpr hstatus)] at h
    obtain ⟨y, hy, h⟩ := gives_bind (keeps_within e (keeps_invoke ctx _ _)) h
    rw [gives_pure h]
    exact .overwritten hrun hstatus (gives_within hy)
  · rw [if_neg (mt beq_iff_eq.mp hstatus)] at h
    rw [gives_pure h]
    exact .untouched hrun hstatus

theorem outcome_of_lazy {resolve : Schema → Validator} {m : Value} {id : Nat} {getter : Getter}
    (hforce : Keeps I (ctx.force id getter))
    (hresolve : ∀ t, Gives I (ctx.force id getter) t → Follows ctx I R (resolve t) t)
    {x : Value} {d : Dataset} (h : Gives I (lazy resolve id getter ctx (.fresh x)) d) :
    (Schema.lazy m id getter).Outcome ctx I R x d := by
  obtain ⟨t, ht, h⟩ := gives_bind (keeps_within _ hforce) h
  have ht := gives_within ht
  exact .behind ht ((hresolve t ht).gives x d h)

/-! ### Lists, tuples and sets -/

theorem gives_ifSized {d e : Dataset} {l : Label} {limits : Limits} {size : Nat}
    {next : Run Dataset} (h : Gives I (ifSized l limits size ctx d next) e) :
    (∃ f i, sizeFinding? l limits d.value size = .ok (some f) ∧
        Gives I (ctx.report l.message f) i ∧ e = d.failWith i) ∨
      (sizeFinding? l limits d.value size = .ok none ∧ Gives I next e) := by
  obtain ⟨f?, hsize, h⟩ := gives_bind (keeps_withinExcept d _) h
  have hsize := gives_withinExcept hsize
  cases f? with
  | some f =>
    obtain ⟨i, hi, he⟩ := gives_reject h
    exact .inl ⟨f, i, hsize, hi, he⟩
  | none => exact .inr ⟨hsize, h⟩

/-- A position as a part, given the validators of schemas. -/
def Part.ofPosition (resolve : Schema → Validator) (p : Position) : Part :=
  ⟨p.key, p.value, p.schema.validator resolve⟩

theorem gives_partStep {v : Validator} {p : Position} (hv : Follows ctx I R v p.schema)
    {g : Gathering (List Value)} {q : Progress (List Value)}
    (h : Gives I (partStep ctx ⟨p.key, p.value, v⟩ g) q) :
    ∃ c, PartBrings R p c ∧ q = g.receive ctx c := by
  obtain ⟨part, hpart, h⟩ := gives_bind (keeps_within _ (keeps_apply hv.keeps _)) h
  rw [gives_pure h, Gathering.take_eq_receive]
  exact ⟨_, .run (hv.apply (gives_within hpart)), rfl⟩

/-- Parts that are validated one after another make a path, which ends the container. -/
theorem gives_parts {resolve : Schema → Validator} {positions : List Position}
    (hv : ∀ p ∈ positions, Follows ctx I R (p.schema.validator resolve) p.schema)
    {make : List Value → Except Fault Value} {d e : Dataset}
    (h : Gives I (parts ctx d (positions.map (Part.ofPosition resolve)) >>= fun p => p.finish make)
      e) :
    ∃ p, Gathering.Path ctx (PartBrings R) positions (.start d []) p ∧
      Gathering.Finished make p e := by
  unfold parts at h
  rw [Gathering.steps_map] at h
  have hkeep : ∀ p ∈ positions, ∀ g, Keeps I (partStep ctx (Part.ofPosition resolve p) g) :=
    fun p hp => keeps_partStep (hv p hp).keeps
  obtain ⟨p, hp, h⟩ := gives_bind (Gathering.keeps_steps hkeep _) h
  exact ⟨p, Gathering.gives_steps hkeep (fun q hq _ _ => gives_partStep (hv q hq)) hp,
    Gathering.gives_finish h⟩

theorem positional_eq_map (resolve : Schema → Validator) (items : List Schema)
    (rest : Option Schema) (i : Nat) (xs : List Value) :
    positional (items.map (Schema.validator resolve)) (rest.map (Schema.validator resolve)) i xs =
      (Schema.positions items rest i xs).map (Part.ofPosition resolve) := by
  fun_induction Schema.positions items rest i xs with
  | case1 => simp [positional]
  | case2 rest i x xs s ss ih =>
    simp only [List.map_cons, positional, ih]
    rfl
  | case3 i x xs r ih =>
    simp only [List.map_nil, Option.map_some] at ih
    simp only [List.map_nil, Option.map_some, positional, ih, List.map_cons]
    rfl
  | case4 => simp [positional]

/-- Every part of a tuple is under one of the schemas of the tuple. -/
theorem schema_of_positions {items : List Schema} {rest : Option Schema} {i : Nat}
    {xs : List Value} {p : Position} (h : p ∈ Schema.positions items rest i xs) :
    p.schema ∈ items ++ rest.toList := by
  fun_induction Schema.positions items rest i xs with
  | case1 => simp at h
  | case2 rest i x xs s ss ih =>
    rcases List.mem_cons.mp h with rfl | h
    · exact List.mem_cons_self
    · exact List.mem_cons_of_mem _ (ih h)
  | case3 i x xs r ih =>
    rcases List.mem_cons.mp h with rfl | h
    · simp
    · exact ih h
  | case4 => simp at h

/-- Every part of a list, a set or a tuple is under one of the schemas of it. -/
theorem schema_of_layout {s : Schema} {x : Value} {positions : List Position}
    {make : List Value → Except Fault Value} (h : s.layout? x = some (positions, make))
    {p : Position} (hp : p ∈ positions) : p.schema ∈ s.children := by
  unfold Schema.layout? at h
  split at h
  · cases h
    obtain ⟨i, hi, rfl⟩ := List.mem_mapIdx.mp hp
    simp [Schema.children]
  · cases h
    obtain ⟨y, -, rfl⟩ := List.mem_map.mp hp
    simp [Schema.children]
  · obtain ⟨values, -, heq⟩ := Option.map_eq_some_iff.mp h
    cases heq
    exact schema_of_positions hp
  · cases h

/-- A list, a set or a tuple raises its objection, if it has one, and else validates its parts. -/
theorem validator_of_sequence {s : Schema} (hs : s.isSequence = true)
    (resolve : Schema → Validator) (ctx : Context) (x : Value) :
    s.validator resolve ctx (.fresh x) =
      withinExcept (.fresh x) (s.objection? ctx.typeNames x) >>= fun objection =>
        objection.elim
          ((s.layout? x).elim (giveUp (.fresh x)) fun layout =>
            parts ctx (.fresh x) (layout.1.map (Part.ofPosition resolve)) >>= fun p =>
              p.finish layout.2)
          (reject ctx (.fresh x) s.message) := by
  cases s with
  | array m limits item =>
    cases x with
    | list id flavor items =>
      have hindexed : indexed (item.validator resolve) items =
          (items.mapIdx fun i v => (⟨.int i, v, item⟩ : Position)).map
            (Part.ofPosition resolve) := by
        simp only [indexed, List.mapIdx_eq_zipIdx_map, List.map_map]
        rfl
      simp only [Schema.layout?, Option.elim_some, ← hindexed]
      refine bind_congr fun objection => ?_
      cases objection <;> rfl
    | _ => rfl
  | set m limits item =>
    cases x with
    | set id frozen items =>
      have hmap : (items.map fun v => (⟨v, v, item⟩ : Position)).map (Part.ofPosition resolve) =
          items.map fun v => ⟨v, v, item.validator resolve⟩ := by
        rw [List.map_map]
        rfl
      simp only [Schema.layout?, Option.elim_some, hmap]
      refine bind_congr fun objection => ?_
      cases objection <;> rfl
    | _ => rfl
  | tuple m items rest =>
    rw [Schema.validator_tuple]
    unfold tuple Schema.objection?
    simp only [List.length_map, Option.isNone_map, Option.isSome_map, Schema.layout?]
    cases hsequence : sequence? x with
    | none =>
      rw [show sequence? (Dataset.fresh x).value = none from hsequence]
      rfl
    | some values =>
      rw [show sequence? (Dataset.fresh x).value = some values from hsequence]
      dsimp only
      split
      · rfl
      · split
        · rfl
        · rw [positional_eq_map]
          rfl
  | _ => cases hs

theorem outcome_of_sequence {s : Schema} (hs : s.isSequence = true) {resolve : Schema → Validator}
    (hv : ∀ c ∈ s.children, Follows ctx I R (c.validator resolve) c) {x : Value} {d : Dataset}
    (h : Gives I (s.validator resolve ctx (.fresh x)) d) : s.Outcome ctx I R x d := by
  rw [validator_of_sequence hs] at h
  obtain ⟨objection, hobjection, h⟩ := gives_bind (keeps_withinExcept _ _) h
  have hobjection := gives_withinExcept hobjection
  cases objection with
  | some f =>
    obtain ⟨i, hi, rfl⟩ := gives_reject h
    exact .objected hobjection hi
  | none =>
    cases hlayout : s.layout? x with
    | none =>
      rw [hlayout] at h
      exact absurd rfl (Gathering.gives_giveUp (d := .fresh x) h).1
    | some layout =>
      rw [hlayout] at h
      obtain ⟨p, hp, hfinished⟩ := gives_parts (fun p hp => hv _ (schema_of_layout hlayout hp)) h
      exact .sequence hobjection hlayout hp hfinished

/-! ### Mappings -/

theorem gives_check {s : Schema} {v : Validator} (hv : Follows ctx I R v s) {x : Value}
    {signal : Signal} (h : Gives I (v.check ctx x) signal) :
    ∃ d, R s x d ∧
      ((d.status = .success ∧ signal = if d.value.same x then .asIs else .replaced d.value) ∨
        (d.status ≠ .success ∧ ∃ i rest, d.issues = i :: rest ∧ signal = .ofMessage i.message)) := by
  obtain ⟨⟨status, value, issues⟩, hd, h⟩ := gives_bind (keeps_apply hv.keeps x) h
  refine ⟨_, hv.apply hd, ?_⟩
  cases status with
  | success => exact .inl ⟨rfl, gives_pure h⟩
  | _ =>
    cases issues with
    | nil => exact absurd h gives_throw
    | cons i rest => exact .inr ⟨by simp, i, rest, rfl, gives_pure h⟩

theorem gives_entryCheck {l : Label} {messageKey : String} {key x : Value} {s : Schema}
    {v : Validator} (hv : Follows ctx I R v s) {r : Issue ⊕ (Value × Bool)}
    (h : Gives I (entryCheck l ctx messageKey key x ⟨s.expects, v⟩) r) :
    Checked ctx I R l messageKey key s x r := by
  obtain ⟨signal, hsignal, h⟩ := gives_bind (keeps_check hv.keeps x) h
  obtain ⟨d, hrun, ⟨hstatus, rfl⟩ | ⟨hstatus, i, rest, hissues, rfl⟩⟩ := gives_check hv hsignal
  · have hr : r = .inr (if d.value.same x then (x, false) else (d.value, true)) := by
      cases hsame : d.value.same x <;> rw [hsame] at h <;> exact gives_pure h
    rw [hr]
    exact .valid hrun hstatus
  · cases hexcused : i.message.same (.bool true) with
    | true =>
      rw [Signal.ofMessage, hexcused] at h
      rw [gives_pure h]
      exact .excused hrun hstatus hissues hexcused
    | false =>
      rw [Signal.ofMessage, hexcused] at h
      obtain ⟨j, hj, h⟩ := gives_bind (keeps_entryIssue l messageKey key x _ _) h
      obtain ⟨k, hk, hj⟩ := gives_bind (keeps_report ctx _ _) hj
      rw [gives_pure h, gives_pure hj]
      exact .refused hrun hstatus hissues hexcused hk

/-- A step of a map reports what is wrong with the entry, or writes what has been accepted for it
if something is to be replaced. -/
theorem gives_mapStep_cases {l : Label} {key value : Schema} {vk vv : Validator}
    (hkey : Follows ctx I R vk key) (hvalue : Follows ctx I R vv value) {e : Value × Value}
    {g : Gathering Borrowed} {q : Progress Borrowed}
    (h : Gives I (mapStep l ⟨key.expects, vk⟩ ⟨value.expects, vv⟩ ctx e g) q) :
    (∃ i : Issue, MapBrings ctx I R l key value e i.contribution ∧
        q = g.receive ctx i.contribution) ∨
      ∃ newKey newValue output, Checked ctx I R l "map_key" e.1 key e.1 (.inr newKey) ∧
        Checked ctx I R l "map_value" e.1 value e.2 (.inr newValue) ∧
        (if newKey.2 || newValue.2 then
          g.output.replace e.1 newKey.1 newValue.1 = (output, none) else output = g.output) ∧
        q = .going { g with output } := by
  unfold mapStep at h
  obtain ⟨checked, hchecked, h⟩ := gives_bind (keeps_within _ (keeps_entryCheck hkey.keeps l _ _ _)) h
  have hchecked := gives_entryCheck hkey (gives_within hchecked)
  cases checked with
  | inl i =>
    rw [gives_pure h, Gathering.addIssue_eq_receive]
    exact .inl ⟨i, .badKey hchecked, rfl⟩
  | inr newKey =>
    obtain ⟨checked', hchecked', h⟩ :=
      gives_bind (keeps_within _ (keeps_entryCheck hvalue.keeps l _ _ _)) h
    have hchecked' := gives_entryCheck hvalue (gives_within hchecked')
    cases checked' with
    | inl i =>
      rw [gives_pure h, Gathering.addIssue_eq_receive]
      exact .inl ⟨i, .badValue hchecked hchecked', rfl⟩
    | inr newValue =>
      dsimp only at h
      split at h
      · next hreplaced =>
        split at h
        · next output hreplace =>
          exact .inr ⟨newKey, newValue, output, hchecked, hchecked', by rw [if_pos hreplaced, hreplace],
            gives_pure h⟩
        · exact absurd h gives_throw
      · next hreplaced =>
        exact .inr ⟨newKey, newValue, g.output, hchecked, hchecked', by rw [if_neg hreplaced],
          gives_pure h⟩

theorem gives_mapStep {l : Label} {key value : Schema} {vk vv : Validator}
    (hkey : Follows ctx I R vk key) (hvalue : Follows ctx I R vv value) {e : Value × Value}
    {g : Gathering Borrowed} {q : Progress Borrowed}
    (h : Gives I (mapStep l ⟨key.expects, vk⟩ ⟨value.expects, vv⟩ ctx e g) q) :
    ∃ c, MapBrings ctx I R l key value e c ∧ q = g.receive ctx c := by
  rcases gives_mapStep_cases hkey hvalue h with ⟨i, hi, hq⟩ |
    ⟨newKey, newValue, output, hchecked, hchecked', houtput, rfl⟩
  · exact ⟨_, hi, hq⟩
  · refine ⟨_, .accepted hchecked hchecked', ?_⟩
    rw [Gathering.receive_of_clean rfl]
    split at houtput
    · next hreplaced => simp [Contribution.plain, hreplaced, houtput]
    · next hreplaced => simp [Contribution.plain, hreplaced, houtput]

theorem outcome_of_map {resolve : Schema → Validator} {key value : Schema}
    (hkey : Follows ctx I R (key.validator resolve) key)
    (hvalue : Follows ctx I R (value.validator resolve) value) {m : Value} {limits : Limits}
    {x : Value} {d : Dataset}
    (h : Gives I ((Schema.map m limits key value).validator resolve ctx (.fresh x)) d) :
    (Schema.map m limits key value).Outcome ctx I R x d := by
  cases x with
  | mapping id kind entries =>
    rcases gives_ifSized h with ⟨f, i, hsize, hi, rfl⟩ | ⟨hsize, h⟩
    · exact .objected hsize hi
    · have hkeep : ∀ e ∈ entries, ∀ g, Keeps I (mapStep (Schema.map m limits key value).label
          ⟨key.expects, key.validator resolve⟩ ⟨value.expects, value.validator resolve⟩ ctx e g) :=
        fun e _ => keeps_mapStep hkey.keeps hvalue.keeps _ e
      obtain ⟨p, hp, h⟩ := gives_bind (Gathering.keeps_steps hkeep _) h
      refine .map rfl hsize
        (Gathering.gives_steps hkeep (fun e _ _ _ => gives_mapStep hkey hvalue) hp) ?_
      cases p with
      | stopped e =>
        obtain ⟨hissues, rfl⟩ := Gathering.gives_giveUp h
        exact .stopped hissues
      | going g =>
        dsimp only at h
        split at h
        · next hissues =>
          rw [gives_pure h]
          exact .valid (List.isEmpty_iff.mp hissues)
        · obtain ⟨hissues, rfl⟩ := Gathering.gives_giveUp h
          exact .failed hissues
  | _ =>
    obtain ⟨i, hi, rfl⟩ := gives_reject h
    exact .objected rfl hi

theorem gives_recordStep {l : Label} {key value : Schema} {vk vv : Validator}
    (hkey : Follows ctx I R vk key) (hvalue : Follows ctx I R vv value) {e : Value × Value}
    {g : Gathering Value.Entries} {q : Progress Value.Entries}
    (h : Gives I (recordStep l ⟨key.expects, vk⟩ vv ctx e g) q) :
    ∃ c, RecordBrings ctx I R l key value e c ∧ q = g.receive ctx c := by
  unfold recordStep at h
  obtain ⟨checked, hchecked, h⟩ :=
    gives_bind (keeps_within _ (keeps_entryCheck hkey.keeps l _ _ _)) h
  have hchecked := gives_entryCheck hkey (gives_within hchecked)
  cases checked with
  | inl i =>
    rw [gives_pure h, Gathering.addIssue_eq_receive]
    exact ⟨_, .badKey hchecked, rfl⟩
  | inr newKey =>
    obtain ⟨part, hpart, h⟩ := gives_bind (keeps_within _ (keeps_apply hvalue.keeps _)) h
    have hrun := hvalue.apply (gives_within hpart)
    have htake := Gathering.take_eq_receive g ctx e.1 part
      fun v (output : Value.Entries) => output.insert newKey.1 v
    dsimp only at h
    split at h
    · split at h
      · exact absurd h gives_throw
      · next hhashable =>
        refine ⟨_, .run hchecked hrun fun htyped _ => ?_, (gives_pure h).trans htake⟩
        simpa [htyped] using hhashable
    · next hstopped =>
      refine ⟨_, .run hchecked hrun fun _ hgoing => ?_, (gives_pure h).trans htake⟩
      rw [htake] at hstopped
      rcases hgoing with hclean | hfull
      · rw [Gathering.receive_of_clean (by simp [hclean])] at hstopped
        cases hstopped
      · rw [Gathering.receive_of_full hfull] at hstopped
        cases hstopped

theorem outcome_of_record {resolve : Schema → Validator} {key value : Schema}
    (hkey : Follows ctx I R (key.validator resolve) key)
    (hvalue : Follows ctx I R (value.validator resolve) value) {m x : Value} {d : Dataset}
    (h : Gives I ((Schema.record m key value).validator resolve ctx (.fresh x)) d) :
    (Schema.record m key value).Outcome ctx I R x d := by
  cases x with
  | mapping id kind entries =>
    have hkeep : ∀ e ∈ entries, ∀ g, Keeps I (recordStep (Schema.record m key value).label
        ⟨key.expects, key.validator resolve⟩ (value.validator resolve) ctx e g) :=
      fun e _ => keeps_recordStep hkey.keeps hvalue.keeps _ e
    obtain ⟨p, hp, h⟩ := gives_bind (Gathering.keeps_steps hkeep _) h
    exact .record rfl
      (Gathering.gives_steps hkeep (fun e _ _ _ => gives_recordStep hkey hvalue) hp)
      (Gathering.gives_finish h)
  | _ =>
    obtain ⟨i, hi, rfl⟩ := gives_reject h
    exact .objected rfl hi

/-! ### Objects -/

theorem gives_entryStep {l : Label} {absent : Absent} {input : Value.Entries}
    {e : Value × Schema} {v : Validator} (hv : Follows ctx I R v e.2)
    {g : Gathering Value.Entries} {q : Progress Value.Entries}
    (h : Gives I (entryStep l absent input ctx ⟨e.1, e.2.expects, v⟩ g) q) :
    ∃ c, DeclaredBrings ctx I R l absent input e c ∧ q = g.receive ctx c := by
  unfold entryStep at h
  dsimp only at h
  cases hget : input.get? e.1 with
  | some x =>
    rw [hget] at h
    obtain ⟨part, hpart, h⟩ := gives_bind (keeps_within _ (keeps_apply hv.keeps _)) h
    rw [gives_pure h, Gathering.take_eq_receive]
    exact ⟨_, .present hget (hv.apply (gives_within hpart)), rfl⟩
  | none =>
    rw [hget] at h
    cases absent with
    | validate =>
      obtain ⟨part, hpart, h⟩ := gives_bind (keeps_within _ (keeps_apply hv.keeps _)) h
      rw [gives_pure h, Gathering.take_eq_receive]
      exact ⟨_, .validated hget rfl (hv.apply (gives_within hpart)), rfl⟩
    | skip =>
      refine ⟨_, .skipped hget rfl, ?_⟩
      rw [gives_pure h, Gathering.receive_of_clean rfl]
      simp [Contribution.plain]
    | reject =>
      have hkeep : Keeps I (missingIssue l ctx e.1 e.2.expects) :=
        keeps_bind (keeps_report ctx _ _) fun _ _ => keeps_pure _
      obtain ⟨i, hi, h⟩ := gives_bind (keeps_within _ hkeep) h
      obtain ⟨j, hj, hi⟩ := gives_bind (keeps_report ctx _ _) (gives_within hi)
      rw [gives_pure h, gives_pure hi, Gathering.addIssue_eq_receive]
      exact ⟨_, .missing hget rfl hj, rfl⟩

theorem gives_extraStep {l : Label} {kind : ObjectKind} {extra : Extra} {e : Value × Value}
    {g : Gathering Value.Entries} {q : Progress Value.Entries}
    (h : Gives I (extraStep l kind extra ctx e g) q) :
    ∃ c, ExtraBrings ctx I l kind extra e c ∧ q = g.receive ctx c := by
  cases extra with
  | strip =>
    refine ⟨_, .dropped rfl, ?_⟩
    rw [gives_pure h, Gathering.receive_of_clean rfl]
    simp [Contribution.plain]
  | loose =>
    refine ⟨_, .kept rfl, ?_⟩
    rw [gives_pure h, Gathering.receive_of_clean rfl]
    simp [Contribution.plain]
  | strict =>
    obtain ⟨i, hi, h⟩ := gives_bind (keeps_within _ (keeps_extraIssue l kind _ _)) h
    have hi := gives_within hi
    unfold extraIssue at hi
    split at hi
    · obtain ⟨_, hthrow, -⟩ := gives_bind (keeps_throw _) hi
      exact absurd hthrow gives_throw
    · next hguarded =>
      obtain ⟨j, hj, hi⟩ := gives_bind (keeps_report ctx _ _) hi
      rw [gives_pure h, gives_pure hi, Gathering.addIssue_eq_receive]
      exact ⟨_, .unexpected rfl hj fun hkind => hguarded (beq_iff_eq.mpr hkind), rfl⟩

/-- The declared keys of an object and the others are dealt with in one sequence of steps. -/
theorem object_mapping (l : Label) (kind : ObjectKind) (extra : Extra) (absent : Absent)
    (resolve : Schema → Validator) (entries : List (Value × Schema)) (ctx : Context)
    (id : Identity) (mappingKind : MappingKind) (input : Value.Entries) :
    object l kind extra absent (Schema.entryValidators resolve entries) ctx
        (.fresh (.mapping id mappingKind input)) =
      Gathering.steps
          (Sum.elim (fun e : Value × Schema =>
              entryStep l absent input ctx ⟨e.1, e.2.expects, e.2.validator resolve⟩)
            (extraStep l kind extra ctx))
          (entries.map .inl ++ (Schema.undeclared entries input).map .inr)
          (.start (.fresh (.mapping id mappingKind input)) []) >>= fun progress =>
        progress.finish fun output => .ok (.ofMapping output) := by
  have hundeclared : undeclared (Schema.entryValidators resolve entries) input =
      Schema.undeclared entries input := by
    simp only [undeclared, Schema.undeclared, Schema.entryValidators_eq_map, List.any_map]
    rfl
  rw [Gathering.steps_append, Gathering.steps_map, bind_assoc]
  simp only [object, Dataset.fresh, Value.entries?, hundeclared]
  rw [Schema.entryValidators_eq_map, Gathering.steps_map]
  refine bind_congr fun p => ?_
  cases p with
  | going g =>
    dsimp only
    rw [Gathering.steps_map]
    rfl
  | stopped d => rfl

theorem outcome_of_object {resolve : Schema → Validator} {m : Value} {id : Nat}
    {kind : ObjectKind} {extra : Extra} {absent : Absent} {entries : List (Value × Schema)}
    (hv : ∀ e ∈ entries, Follows ctx I R (e.2.validator resolve) e.2) {x : Value} {d : Dataset}
    (h : Gives I ((Schema.object m id kind extra absent entries).validator resolve ctx (.fresh x))
      d) :
    (Schema.object m id kind extra absent entries).Outcome ctx I R x d := by
  cases x with
  | mapping identity mappingKind input =>
    rw [Schema.validator, object_mapping] at h
    have hkeep : ∀ s ∈ entries.map Sum.inl ++ (Schema.undeclared entries input).map Sum.inr,
        ∀ g, Keeps I (Sum.elim (fun e : Value × Schema => entryStep
          (Schema.object m id kind extra absent entries).label absent input ctx
            ⟨e.1, e.2.expects, e.2.validator resolve⟩)
          (extraStep (Schema.object m id kind extra absent entries).label kind extra ctx) s g) := by
      intro s hs g
      rcases List.mem_append.mp hs with hs | hs
      · obtain ⟨e, he, rfl⟩ := List.mem_map.mp hs
        exact keeps_entryStep (hv e he).keeps _ absent input g
      · obtain ⟨e, -, rfl⟩ := List.mem_map.mp hs
        exact keeps_extraStep _ kind extra e g
    obtain ⟨p, hp, h⟩ := gives_bind (Gathering.keeps_steps hkeep _) h
    refine .object rfl (Gathering.gives_steps hkeep ?_ hp) (Gathering.gives_finish h)
    intro s hs g q hq
    rcases List.mem_append.mp hs with hs | hs
    · obtain ⟨e, he, rfl⟩ := List.mem_map.mp hs
      obtain ⟨c, hc, hqc⟩ := gives_entryStep (hv e he) hq
      exact ⟨c, .declared hc, hqc⟩
    · obtain ⟨e, -, rfl⟩ := List.mem_map.mp hs
      obtain ⟨c, hc, hqc⟩ := gives_extraStep hq
      exact ⟨c, .extra hc, hqc⟩
  | _ =>
    obtain ⟨i, hi, rfl⟩ := gives_reject h
    exact .objected rfl hi

/-! ### Operators -/

/-- Members are tried up to the first that succeeds, or else all of them. -/
theorem gives_firstSuccess {resolve : Schema → Validator} {members : List Schema}
    (hv : ∀ s ∈ members, Follows ctx I R (s.validator resolve) s) {x : Value}
    {issues : List Issue} {r : Value ⊕ List Issue}
    (h : Gives I (firstSuccess ctx x (members.map (Schema.validator resolve)) issues) r) :
    (∃ before s after d, members = before ++ s :: after ∧
        (∀ b ∈ before, ∃ e, R b x e ∧ e.status ≠ .success) ∧ R s x d ∧ d.status = .success ∧
        r = .inl d.value) ∨
      ∃ outcomes, List.Forall₂ (fun s e => R s x e ∧ e.status ≠ .success) members outcomes ∧
        r = .inr (issues ++ outcomes.flatMap (·.issues)) := by
  induction members generalizing issues with
  | nil => exact .inr ⟨[], .nil, by simpa using gives_pure h⟩
  | cons s rest ih =>
    rw [List.forall_mem_cons] at hv
    rw [List.map_cons, firstSuccess] at h
    obtain ⟨d, hd, h⟩ := gives_bind (keeps_apply hv.1.keeps x) h
    have hrun := hv.1.apply hd
    by_cases hstatus : d.status = .success
    · rw [if_pos (beq_iff_eq.mpr hstatus)] at h
      exact .inl ⟨[], s, rest, d, rfl, by simp, hrun, hstatus, gives_pure h⟩
    · rw [if_neg (mt beq_iff_eq.mp hstatus)] at h
      rcases ih hv.2 h with ⟨before, t, after, e, rfl, hbefore, he, hsuccess, rfl⟩ |
        ⟨outcomes, houtcomes, rfl⟩
      · refine .inl ⟨s :: before, t, after, e, rfl, ?_, he, hsuccess, rfl⟩
        exact List.forall_mem_cons.mpr ⟨⟨d, hrun, hstatus⟩, hbefore⟩
      · exact .inr ⟨d :: outcomes, .cons ⟨hrun, hstatus⟩ houtcomes, by simp⟩

theorem outcome_of_union {resolve : Schema → Validator} {m : Value} {members : List Schema}
    (hv : ∀ s ∈ members, Follows ctx I R (s.validator resolve) s) {x : Value} {d : Dataset}
    (h : Gives I ((Schema.union m members).validator resolve ctx (.fresh x)) d) :
    (Schema.union m members).Outcome ctx I R x d := by
  rw [Schema.validator, Schema.validators_eq_map] at h
  have hkeep : Keeps I
      (firstSuccess ctx (Dataset.fresh x).value (members.map (Schema.validator resolve)) []) := by
    refine keeps_firstSuccess ?_ _ _
    simp only [List.mem_map]
    rintro v ⟨s, hs, rfl⟩
    exact (hv s hs).keeps
  obtain ⟨r, hr, h⟩ := gives_bind (keeps_within _ hkeep) h
  rcases gives_firstSuccess hv (gives_within hr) with
    ⟨before, s, after, e, rfl, hbefore, he, hsuccess, rfl⟩ | ⟨outcomes, houtcomes, rfl⟩
  · rw [gives_pure h]
    exact .first hbefore he hsuccess
  · obtain ⟨i, hi, rfl⟩ := gives_reject h
    exact .noneOf houtcomes hi

theorem gives_memberStep {s : Schema} {v : Validator} (hv : Follows ctx I R v s) {x : Value}
    {g : Gathering (List Value)} {q : Progress (List Value)}
    (h : Gives I (memberStep x ctx v g) q) :
    ∃ c, MemberBrings R x s c ∧ q = g.receive ctx c := by
  obtain ⟨part, hpart, h⟩ := gives_bind (keeps_within _ (keeps_apply hv.keeps x)) h
  refine ⟨_, .run (hv.apply (gives_within hpart)), ?_⟩
  have hq : q = if !part.issues.isEmpty && ctx.config.abortEarly then
      .stopped (g.dataset.addAll part.issues)
    else if part.isTyped then
      .going { g with dataset := g.dataset.addAll part.issues, output := g.output ++ [part.value] }
    else .going { g with dataset := g.dataset.addAll part.issues, typed := false } := by
    dsimp only at h
    split at h
    · next hstop => rw [if_pos hstop, gives_pure h]
    · next hstop =>
      rw [if_neg hstop]
      split at h
      · next htyped => rw [if_pos htyped, gives_pure h]
      · next htyped => rw [if_neg htyped, gives_pure h]
  rw [hq]
  cases htyped : part.isTyped <;> simp [Gathering.receive]

theorem outcome_of_intersection {resolve : Schema → Validator} {m : Value} {members : List Schema}
    (hv : ∀ s ∈ members, Follows ctx I R (s.validator resolve) s) {x : Value} {d : Dataset}
    (h : Gives I ((Schema.intersection m members).validator resolve ctx (.fresh x)) d) :
    (Schema.intersection m members).Outcome ctx I R x d := by
  rw [Schema.validator, Schema.validators_eq_map] at h
  unfold intersection at h
  rw [Gathering.steps_map] at h
  have hkeep : ∀ s ∈ members, ∀ g,
      Keeps I (memberStep (Dataset.fresh x).value ctx (s.validator resolve) g) :=
    fun s hs => keeps_memberStep (hv s hs).keeps _
  obtain ⟨p, hp, h⟩ := gives_bind (Gathering.keeps_steps hkeep _) h
  refine .intersection
    (Gathering.gives_steps hkeep (fun s hs _ _ => gives_memberStep (hv s hs)) hp) ?_
  cases p with
  | stopped e =>
    obtain ⟨hissues, rfl⟩ := Gathering.gives_giveUp h
    exact .stopped hissues
  | going g =>
    cases htyped : g.typed with
    | false =>
      simp only [htyped] at h
      obtain ⟨hissues, rfl⟩ := Gathering.gives_giveUp h
      exact .failed (.inl htyped) hissues
    | true =>
      cases houtput : g.output with
      | nil =>
        simp only [htyped, houtput] at h
        obtain ⟨hissues, rfl⟩ := Gathering.gives_giveUp h
        exact .failed (.inr houtput) hissues
      | cons first rest =>
        simp only [htyped, houtput] at h
        obtain ⟨merged, hmerged, h⟩ := gives_bind (keeps_withinExcept _ _) h
        have hmerged := gives_withinExcept hmerged
        cases merged with
        | none =>
          obtain ⟨i, hi, rfl⟩ := gives_reject h
          exact .conflict htyped houtput hmerged hi
        | some output =>
          dsimp only at h
          split at h
          · next hissues =>
            rw [gives_pure h]
            exact .valid htyped houtput hmerged (List.isEmpty_iff.mp hissues)
          · next hissues =>
            rw [gives_pure h]
            exact .partly htyped houtput hmerged (mt List.isEmpty_iff.mpr hissues)

end Validator

/-! ### Runs of schemas -/

open Validator in
theorem Schema.outcome_of_validator {resolve : Schema → Validator} {s : Schema}
    (hparts : ∀ c ∈ s.children, Follows ctx I R (c.validator resolve) c)
    (hforce : ∀ m id getter, s = .lazy m id getter → Keeps I (ctx.force id getter))
    (hresolve : ∀ m id getter, s = .lazy m id getter →
      ∀ t, Gives I (ctx.force id getter) t → Follows ctx I R (resolve t) t)
    {x : Value} {d : Dataset} (h : Gives I (s.validator resolve ctx (.fresh x)) d) :
    s.Outcome ctx I R x d := by
  cases s with
  | constraint m check name abort inner =>
    exact outcome_of_constraint (hparts inner (by simp [children])) h
  | wrapper m w inner => exact outcome_of_wrapper (hparts inner (by simp [children])) h
  | overwrite m transform inner => exact outcome_of_overwrite (hparts inner (by simp [children])) h
  | lazy m id getter =>
    exact outcome_of_lazy (hforce m id getter rfl) (hresolve m id getter rfl) h
  | object m id kind extra absent entries =>
    exact outcome_of_object (fun e he => hparts e.2 (List.mem_map_of_mem he)) h
  | array m limits item => exact outcome_of_sequence rfl hparts h
  | set m limits item => exact outcome_of_sequence rfl hparts h
  | tuple m items rest => exact outcome_of_sequence rfl hparts h
  | map m limits key value =>
    exact outcome_of_map (hparts key (by simp [children])) (hparts value (by simp [children])) h
  | record m key value =>
    exact outcome_of_record (hparts key (by simp [children])) (hparts value (by simp [children])) h
  | union m members => exact outcome_of_union hparts h
  | intersection m members => exact outcome_of_intersection hparts h
  | _ =>
    refine outcome_of_judge rfl ?_
    rw [← validator_eq_judge rfl resolve]
    exact h

/-- What the validators of references give, when at most so many references lie on one path. -/
def Schema.resolveUpTo : Nat → Schema → Validator
  | 0 => fun _ => .endless
  | n + 1 => validatorUpTo n

theorem Schema.validatorUpTo_eq (n : Nat) (s : Schema) :
    s.validatorUpTo n = s.validator (resolveUpTo n) := by
  cases n <;> rfl

/-- What a schema yields on a value, in a world in which `I` holds. -/
def Context.Yields (ctx : Context) (I : Found → Prop) : Runs := fun s x d =>
  ∃ n, Gives I (s.validatorUpTo n ctx (.fresh x)) d

variable {U : Schema → Prop}

/-- A reference is resolved by a run with fewer references ahead. -/
theorem yields_of_resolve {n : Nat} {t : Schema} {x : Value} {d : Dataset}
    (h : Gives I (Schema.resolveUpTo n t ctx (.fresh x)) d) :
    ∃ k < n, Gives I (t.validatorUpTo k ctx (.fresh x)) d := by
  cases n with
  | zero => exact absurd h gives_throw
  | succ k => exact ⟨k, Nat.lt_succ_self k, h⟩

theorem keeps_resolveUpTo (hclosed : ctx.Closed I U) (n : Nat) {t : Schema} (ht : U t)
    (d : Dataset) : Keeps I (Schema.resolveUpTo n t ctx d) := by
  cases n with
  | zero => exact keeps_throw _
  | succ k => exact Schema.keeps_validatorUpTo hclosed k ht d

/-- What the validator of a schema gives is what the schema yields. -/
theorem follows_validator (hclosed : ctx.Closed I U) (n : Nat) {s : Schema} (hs : U s) :
    Validator.Follows ctx I (fun c y e => U c ∧ ctx.Yields I c y e)
      (s.validator (Schema.resolveUpTo n)) s := by
  refine ⟨fun e => ?_, fun y e he => ⟨hs, n, ?_⟩⟩
  · rw [← Schema.validatorUpTo_eq]
    exact Schema.keeps_validatorUpTo hclosed n hs e
  · rw [Schema.validatorUpTo_eq]
    exact he

/-- Every run that ends without a fault ends by the rules. -/
theorem outcome_of_yields (hclosed : ctx.Closed I U) {s : Schema} (hs : U s) {x : Value}
    {d : Dataset} (h : ctx.Yields I s x d) :
    s.Outcome ctx I (fun c y e => U c ∧ ctx.Yields I c y e) x d := by
  obtain ⟨n, h⟩ := h
  rw [Schema.validatorUpTo_eq] at h
  refine Schema.outcome_of_validator (fun c hc => follows_validator hclosed n (hclosed.part hs hc))
    (fun _ _ _ hlazy => ?_) (fun _ _ _ hlazy t ht => ?_) h
  · exact hclosed.keeps (hlazy ▸ hs)
  · have ht := hclosed.behind (hlazy ▸ hs) ht
    refine ⟨keeps_resolveUpTo hclosed n ht, fun y e he => ⟨ht, ?_⟩⟩
    obtain ⟨k, -, hk⟩ := yields_of_resolve he
    exact ⟨k, hk⟩

/-- Induction over runs: what the rules preserve, given the run itself, holds of whatever a schema
yields. -/
theorem yields_recursion (hclosed : ctx.Closed I U) {P : Runs}
    (step : ∀ s x d, U s → ctx.Yields I s x d →
      s.Outcome ctx I (fun c y e => U c ∧ ctx.Yields I c y e ∧ P c y e) x d → P s x d)
    {s : Schema} (hs : U s) {x : Value} {d : Dataset} (h : ctx.Yields I s x d) : P s x d := by
  obtain ⟨n, h⟩ := h
  induction n using Nat.strongRecOn generalizing s x d with
  | ind n ih =>
    induction s using Schema.childInduction generalizing x d with
    | step s ihParts =>
      refine step s x d hs ⟨n, h⟩ ?_
      rw [Schema.validatorUpTo_eq] at h
      refine Schema.outcome_of_validator (fun c hc => ?_) (fun _ _ _ hlazy => ?_)
        (fun _ _ _ hlazy t ht => ?_) h
      · have hu := hclosed.part hs hc
        refine ⟨fun e => ?_, fun y e he => ?_⟩
        · rw [← Schema.validatorUpTo_eq]
          exact Schema.keeps_validatorUpTo hclosed n hu e
        · rw [← Schema.validatorUpTo_eq] at he
          exact ⟨hu, ⟨n, he⟩, ihParts c hc hu he⟩
      · exact hclosed.keeps (hlazy ▸ hs)
      · have hu := hclosed.behind (hlazy ▸ hs) ht
        refine ⟨keeps_resolveUpTo hclosed n hu, fun y e he => ?_⟩
        obtain ⟨k, hlt, hk⟩ := yields_of_resolve he
        exact ⟨hu, ⟨k, hk⟩, ih k hlt hu hk⟩

/-- Induction over runs: what the rules preserve holds of whatever a schema yields. -/
theorem yields_induction (hclosed : ctx.Closed I U) {P : Runs}
    (step : ∀ s x d, U s →
      s.Outcome ctx I (fun c y e => U c ∧ ctx.Yields I c y e ∧ P c y e) x d → P s x d)
    {s : Schema} (hs : U s) {x : Value} {d : Dataset} (h : ctx.Yields I s x d) : P s x d :=
  yields_recursion hclosed (fun t y e ht _ houtcome => step t y e ht houtcome) hs h

end

end Conform
