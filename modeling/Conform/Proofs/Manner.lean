/-
  Conform/Proofs/Manner.lean
  ==========================
  **The manner of a run.**  What sequences of computations keep when each of them
  has it, all validators keep (`Manner`): they are put together from calls, from
  operations on values and from the validators of parts, one after another.

  No validator gives a dataset up without an issue, for what its parts have come
  to is settled; so the only faults that a manner has to put up with are those of
  operations on values, which break no assertion, and those of callables.
-/
import Conform.Proofs.AbortEarly
import Conform.Proofs.Mild
import Conform.Proofs.Settled

namespace Conform

/-- A manner in which computations behave: operations on values do, and sequences do when their
parts do. -/
structure Manner (I : Found → Prop) where
  effect : {α : Type} → Effect α → Prop
  run : {α : Type} → Run α → Prop
  ofExcept {α : Type} {r : Except Fault α} : Mild r → effect (Effect.ofExcept r)
  bind {α β : Type} {x : Effect α} {f : α → Effect β} : effect x →
    (∀ a, Gives I x a → effect (f a)) → effect (x >>= f)
  bindRun {α β : Type} {x : Run α} {f : α → Run β} : run x →
    (∀ a, Gives I x a → run (f a)) → run (x >>= f)
  within {α : Type} {e : Effect α} (d : Dataset) : effect e → run (within d e)
  toEffect {α : Type} {r : Run α} : run r → effect r.toEffect

/-- An intersection has members. -/
def Schema.HasMembers : Schema → Prop
  | .intersection _ members => members ≠ []
  | _ => True

/-- What is settled about the runs of every schema. -/
abbrev Context.Settles (ctx : Context) : Runs := fun _ _ d => d.Settled ctx

namespace Manner

variable {I : Found → Prop} (M : Manner I)

/-- All operations on values have the manner, whatever faults they end with. -/
def Hardy : Prop :=
  ∀ {α : Type} (r : Except Fault α), M.effect (Effect.ofExcept r)

theorem pure {α : Type} (a : α) : M.effect (Pure.pure a) :=
  M.ofExcept (mild_ok a)

theorem throw {α : Type} {f : Fault} (h : f.kind ≠ .assertion) :
    M.effect (MonadExcept.throw f : Effect α) :=
  M.ofExcept (mild_error h)

theorem pureRun {α : Type} (a : α) : M.run (Pure.pure a : Run α) :=
  M.within (.fresh .null) (M.pure a)

theorem throwRun {α : Type} {f : Fault} (h : f.kind ≠ .assertion) (d : Dataset) :
    M.run (MonadExcept.throw ⟨f, d⟩ : Run α) :=
  M.within d (M.throw h)

theorem withinExcept {α : Type} {r : Except Fault α} (h : Mild r) (d : Dataset) :
    M.run (withinExcept d r) :=
  M.within d (M.ofExcept h)

/-- Calls of a value have the manner. -/
def Calls (ctx : Context) (callee : Value) : Prop :=
  ∀ arguments, M.effect (ctx.invoke callee arguments)

/-- A validator has the manner on values that are not validated yet; what it comes to is settled. -/
structure Has (ctx : Context) (v : Validator) : Prop where
  keeps : ∀ d, Keeps I (v ctx d)
  settled : ∀ x d, Gives I (v ctx (.fresh x)) d → d.Settled ctx
  run : ∀ x, M.run (v ctx (.fresh x))

section

variable {M} {ctx : Context}

theorem Has.follows {v : Validator} (h : M.Has ctx v) (s : Schema) :
    Validator.Follows ctx I ctx.Settles v s :=
  ⟨h.keeps, h.settled⟩

theorem Has.apply {v : Validator} (h : M.Has ctx v) (x : Value) : M.effect (v.apply ctx x) :=
  M.toEffect (h.run x)

/-! ### Reports -/

variable (hconfig : M.Calls ctx ctx.config.message)

include hconfig

theorem report {own : Value} (hown : M.Calls ctx own) (f : Finding) :
    M.effect (ctx.report own f) := by
  unfold Context.report
  refine M.bind (M.ofExcept (Message.mild_default _ _ _ _)) fun text _ =>
    M.bind (M.ofExcept own.mild_isTrue) fun hasOwn _ => ?_
  dsimp only
  have hcustom : M.Calls ctx (if hasOwn then own else ctx.config.message) := by
    split
    · exact hown
    · exact hconfig
  generalize (if hasOwn then own else ctx.config.message) = custom at hcustom
  split
  · exact M.pure _
  · split
    · exact M.bind (hcustom _) fun _ _ => M.pure _
    · exact M.pure _

theorem reject {message : Value} (hown : M.Calls ctx message) (d : Dataset) (f : Finding) :
    M.run (Validator.reject ctx d message f) :=
  M.bindRun (M.within d (report hconfig hown f)) fun _ _ => M.pureRun _

omit hconfig in
/-- A dataset with issues can be given up. -/
theorem giveUp {d : Dataset} (h : d.issues ≠ []) : M.run (Validator.giveUp d) := by
  refine M.withinExcept ?_ d
  rw [Dataset.fail_eq_ok_iff.mpr ⟨h, rfl⟩]
  exact mild_ok _

/-! ### Schemas without parts, and wrappers -/

omit hconfig in
theorem mild_judgement {s : Schema} {j : Judgement} (hj : s.judgement? = some j)
    (names : TypeNames) (x : Value) : Mild (j names x) := by
  have accepted {test : Except Fault Bool} (h : Mild test) (f : Finding) :
      Mild (acceptIf test x f) := by
    refine h.bind fun holds => ?_
    split <;> exact mild_ok _
  cases s <;> simp only [Schema.judgement?, Option.some.injEq, reduceCtorEq] at hj <;> subst hj
  case primitive => exact accepted (mild_ok _) _
  case anything => exact mild_ok _
  case never => exact mild_ok _
  case coerce m t =>
    refine (t.mild_coerce? x).bind fun y? => ?_
    split <;> exact mild_ok _
  case literal m v expects => exact accepted (x.mild_strictEq v) _
  case enum m keys values expects => exact accepted (Validator.mild_amongStrictly x values) _
  case nativeEnum m e => exact accepted (Validator.mild_belongs e x) _

theorem judged {s : Schema} {j : Judgement} (hj : s.judgement? = some j)
    (hown : M.Calls ctx s.message) (resolve : Schema → Validator) (x : Value) :
    M.run (s.validator resolve ctx (.fresh x)) := by
  rw [Schema.validator_eq_judge hj]
  refine M.bindRun (M.withinExcept (mild_judgement hj _ _) _) fun verdict _ => ?_
  cases verdict with
  | inl v => exact M.pureRun _
  | inr f => exact reject hconfig hown _ f

omit hconfig in
theorem test {check : Check} (hcheck : ∀ p, check = .refine p → M.Calls ctx p) (v : Value) :
    M.effect (check.test ctx v) := by
  cases check with
  | refine p => exact M.bind (hcheck p rfl _) fun answer _ => M.ofExcept answer.mild_isTrue
  | order relation limit => exact M.ofExcept (mild_ifComparable (v.mild_relate relation limit))
  | pattern regex program =>
    unfold Check.test
    dsimp only
    split
    · split
      · exact M.throw (by decide)
      · exact M.pure _
    · exact M.pure _
  | _ => exact M.pure _

theorem constraint {inner : Validator} (h : M.Has ctx inner) {message : Value}
    (hown : M.Calls ctx message) {check : Check} (hcheck : ∀ p, check = .refine p → M.Calls ctx p)
    (name : String) (abort : Bool) (x : Value) :
    M.run (Validator.constraint message check name abort inner ctx (.fresh x)) := by
  refine M.bindRun (h.run x) fun d _ => ?_
  split
  · exact M.pureRun _
  · refine M.bindRun (M.within d (test hcheck d.value)) fun passed _ => ?_
    split
    · exact M.pureRun _
    · refine M.bindRun (M.withinExcept (check.mild_finding _ name _) d) fun f _ =>
        M.bindRun (M.within d (report hconfig hown f)) fun i _ => ?_
      split <;> exact M.pureRun _

omit hconfig

theorem supply {v : Value} (h : M.Calls ctx v) : M.effect (Validator.supply ctx v) := by
  unfold Validator.supply
  split
  · exact h []
  · exact M.pure v

theorem wrapper {inner : Validator} (h : M.Has ctx inner) {w : Wrapping}
    (hw : ∀ v, w = .default v → M.Calls ctx v) (x : Value) :
    M.run (Validator.wrapper w inner ctx (.fresh x)) := by
  rw [Validator.wrapper_fresh]
  cases hspared : w.spared? x with
  | some y => exact M.pureRun _
  | none =>
    cases hdefault : w.default? x with
    | none => exact h.run x
    | some given =>
      have hgiven : M.Calls ctx given := by
        cases w with
        | default v =>
          unfold Wrapping.default? at hdefault
          dsimp only at hdefault
          split at hdefault
          · cases hdefault
            exact hw _ rfl
          · cases hdefault
        | _ => cases hdefault
      exact M.bindRun (M.within _ (supply hgiven)) fun y _ => h.run y

theorem overwrite {inner : Validator} (h : M.Has ctx inner) {transform : Value}
    (htransform : M.Calls ctx transform) (x : Value) :
    M.run (Validator.overwrite transform inner ctx (.fresh x)) := by
  refine M.bindRun (h.run x) fun d _ => ?_
  split
  · exact M.bindRun (M.within d (htransform _)) fun _ _ => M.pureRun _
  · exact M.pureRun _

theorem lazy {resolve : Schema → Validator} {id : Nat} {getter : Getter}
    (hforce : M.effect (ctx.force id getter))
    (h : ∀ t, Gives I (ctx.force id getter) t → M.Has ctx (resolve t)) (x : Value) :
    M.run (Validator.lazy resolve id getter ctx (.fresh x)) :=
  M.bindRun (M.within _ hforce) fun t ht => (h t (gives_within ht)).run x

/-! ### Gathering -/

theorem steps {α σ : Type} {step : σ → Gathering α → Run (Progress α)} {xs : List σ}
    (h : ∀ s ∈ xs, ∀ g, M.run (step s g)) (g : Gathering α) :
    M.run (Gathering.steps step xs g) := by
  induction xs generalizing g with
  | nil => exact M.pureRun _
  | cons s rest ih =>
    rw [List.forall_mem_cons] at h
    rw [Gathering.steps]
    refine M.bindRun (h.1 g) fun p _ => ?_
    cases p with
    | going g' => exact ih h.2 g'
    | stopped d => exact M.pureRun _

/-- A container whose parts are settled can be finished. -/
theorem finish {α : Type} {make : α → Except Fault Value} (hmake : ∀ a, Mild (make a))
    {p : Progress α} (hp : p.Settled ctx) : M.run (p.finish make) := by
  cases p with
  | stopped d => exact giveUp hp
  | going g =>
    refine M.bindRun (M.withinExcept (hmake _) _) fun output _ => M.withinExcept ?_ _
    obtain ⟨e, he⟩ := g.dataset.exists_finish output g.typed
    rw [he]
    exact mild_ok e

/-- Steps over parts that are settled, and what comes after them. -/
theorem gathered {α σ : Type} {step : σ → Gathering α → Run (Progress α)} {xs : List σ}
    (brings : σ → Contribution α → Prop) (hrun : ∀ s ∈ xs, ∀ g, M.run (step s g))
    (hkeep : ∀ s ∈ xs, ∀ g, Keeps I (step s g))
    (hstep : ∀ s ∈ xs, ∀ g p, Gives I (step s g) p → ∃ c, brings s c ∧ p = g.receive ctx c)
    (hbrings : ∀ s ∈ xs, ∀ c, brings s c → c.Settled ctx) {x : Value} {output : α}
    {next : Progress α → Run Dataset}
    (hnext : ∀ p, Gathering.Path ctx brings xs (.start (.fresh x) output) p → p.Settled ctx →
      M.run (next p)) :
    M.run (Gathering.steps step xs (.start (.fresh x) output) >>= next) := by
  refine M.bindRun (steps hrun _) fun p hp => ?_
  have hpath := Gathering.gives_steps hkeep hstep hp
  exact hnext p hpath (Gathering.settled_of_path hbrings (Gathering.settled_start _ _ rfl) hpath)

/-! ### Lists, tuples and sets -/

variable (hconfig : M.Calls ctx ctx.config.message)

include hconfig

theorem ifSized {l : Label} (hown : M.Calls ctx l.message) {x : Value} {next : Run Dataset}
    (h : M.run next) (limits : Limits) (size : Nat) :
    M.run (Validator.ifSized l limits size ctx (.fresh x) next) := by
  refine M.bindRun (M.withinExcept (Validator.mild_sizeFinding? _ _ _ _) _) fun f? _ => ?_
  cases f? with
  | some f => exact reject hconfig hown _ f
  | none => exact h

omit hconfig in
theorem parts {list : List Validator.Part} (h : ∀ p ∈ list, M.Has ctx p.validator)
    {make : List Value → Except Fault Value} (hmake : ∀ output, Mild (make output)) (x : Value) :
    M.run (Validator.parts ctx (.fresh x) list >>= fun p => p.finish make) := by
  -- what is settled does not depend on the schemas of the parts
  let brings (p : Validator.Part) := PartBrings ctx.Settles ⟨p.key, p.value, .never .null⟩
  have hfollows (p : Validator.Part) (hp : p ∈ list) := (h p hp).follows (.never .null)
  refine gathered brings (fun p hp g => ?_)
    (fun p hp g => Validator.keeps_partStep (h p hp).keeps g)
    (fun p hp g q hq => Validator.gives_partStep (p := ⟨p.key, p.value, .never .null⟩)
      (hfollows p hp) hq)
    (fun p hp c hc => settled_of_partBrings (fun _ _ _ hd => hd) hc)
    fun p _ hp => finish hmake hp
  exact M.bindRun (M.within _ ((h p hp).apply _)) fun _ _ => M.pureRun _

theorem array {l : Label} (hown : M.Calls ctx l.message) (limits : Limits) {item : Validator}
    (h : M.Has ctx item) (x : Value) : M.run (Validator.array l limits item ctx (.fresh x)) := by
  unfold Validator.array
  split
  · refine ifSized hconfig hown (parts ?_ (fun _ => mild_ok _) x) limits _
    simp only [Validator.indexed, List.mem_mapIdx]
    rintro p ⟨i, hi, rfl⟩
    exact h
  · exact reject hconfig hown _ _

theorem set {l : Label} (hown : M.Calls ctx l.message) (limits : Limits) {item : Validator}
    (h : M.Has ctx item) (x : Value) : M.run (Validator.set l limits item ctx (.fresh x)) := by
  unfold Validator.set
  split
  · refine ifSized hconfig hown (parts ?_ (fun output => ?_) x) limits _
    · simp only [List.mem_map]
      rintro p ⟨y, hy, rfl⟩
      exact h
    · exact (Value.mild_toMembers output).map _
  · exact reject hconfig hown _ _

theorem tuple {l : Label} (hown : M.Calls ctx l.message) {items : List Validator}
    {rest : Option Validator} (hitems : ∀ v ∈ items, M.Has ctx v) (hrest : ∀ v ∈ rest, M.Has ctx v)
    (x : Value) : M.run (Validator.tuple l items rest ctx (.fresh x)) := by
  unfold Validator.tuple
  split
  · exact reject hconfig hown _ _
  · dsimp only
    split
    · exact reject hconfig hown _ _
    · split
      · exact reject hconfig hown _ _
      · refine parts (fun p hp => ?_) (fun _ => mild_ok _) x
        rcases Validator.validator_of_positional hp with h | h
        · exact hitems _ h
        · exact hrest _ h

/-! ### Mappings -/

omit hconfig in
theorem check {v : Validator} (h : M.Has ctx v) (x : Value) : M.effect (v.check ctx x) := by
  refine M.bind (h.apply x) fun d hd => ?_
  have hsettled := h.settled x d (gives_toEffect hd)
  split
  · exact M.pure _
  · exact M.pure _
  · exact M.throw (by decide)

theorem entryCheck {l : Label} (hown : M.Calls ctx l.message) (messageKey : String)
    (key x : Value) {slot : Validator.Slot} (h : M.Has ctx slot.validator) :
    M.effect (Validator.entryCheck l ctx messageKey key x slot) := by
  refine M.bind (check h x) fun signal _ => ?_
  cases signal with
  | asIs => exact M.pure _
  | replaced w => exact M.pure _
  | failed reason =>
    exact M.bind (M.bind (report hconfig hown _) fun _ _ => M.pure _) fun _ _ => M.pure _

theorem map {l : Label} (hown : M.Calls ctx l.message) (limits : Limits) {key value : Schema}
    {vk vv : Validator} (hkey : M.Has ctx vk) (hvalue : M.Has ctx vv) (x : Value) :
    M.run (Validator.map l limits ⟨key.expects, vk⟩ ⟨value.expects, vv⟩ ctx (.fresh x)) := by
  unfold Validator.map
  split
  · exact reject hconfig hown _ _
  · next entries hentries =>
    refine ifSized hconfig hown ?_ limits _
    refine gathered (MapBrings ctx I ctx.Settles l key value) (fun e _ g => ?_)
      (fun e _ g => Validator.keeps_mapStep hkey.keeps hvalue.keeps l e g)
      (fun e _ g q hq => Validator.gives_mapStep (hkey.follows key) (hvalue.follows value) hq)
      (fun e _ c hc => settled_of_mapBrings hc) fun p _ hp => ?_
    · unfold Validator.mapStep
      refine M.bindRun (M.within _ (entryCheck hconfig hown _ _ _ hkey)) fun r _ => ?_
      cases r with
      | inl i => exact M.pureRun _
      | inr newKey =>
        refine M.bindRun (M.within _ (entryCheck hconfig hown _ _ _ hvalue)) fun r _ => ?_
        cases r with
        | inl i => exact M.pureRun _
        | inr newValue =>
          dsimp only
          split
          · split
            · exact M.pureRun _
            · next hreplace => exact M.throwRun (Borrowed.kind_of_replace hreplace) _
          · exact M.pureRun _
    · cases p with
      | stopped d => exact giveUp hp
      | going g =>
        dsimp only
        split
        · exact M.pureRun _
        · next hissues => exact giveUp (mt List.isEmpty_iff.mpr hissues)

theorem record {l : Label} (hown : M.Calls ctx l.message) {key : Schema} (value : Schema)
    {vk vv : Validator} (hkey : M.Has ctx vk) (hvalue : M.Has ctx vv) (x : Value) :
    M.run (Validator.record l ⟨key.expects, vk⟩ vv ctx (.fresh x)) := by
  unfold Validator.record
  split
  · exact reject hconfig hown _ _
  · refine gathered (RecordBrings ctx I ctx.Settles l key value) (fun e _ g => ?_)
      (fun e _ g => Validator.keeps_recordStep hkey.keeps hvalue.keeps l e g)
      (fun e _ g q hq => Validator.gives_recordStep (hkey.follows key) (hvalue.follows value) hq)
      (fun e _ c hc => settled_of_recordBrings (fun _ _ _ hd => hd) hc)
      fun p _ hp => finish (fun _ => mild_ok _) hp
    unfold Validator.recordStep
    refine M.bindRun (M.within _ (entryCheck hconfig hown _ _ _ hkey)) fun r _ => ?_
    cases r with
    | inl i => exact M.pureRun _
    | inr newKey =>
      refine M.bindRun (M.within _ (hvalue.apply _)) fun part _ => ?_
      dsimp only
      split
      · split
        · exact M.throwRun (by decide) _
        · exact M.pureRun _
      · exact M.pureRun _

theorem entryStep {l : Label} (hown : M.Calls ctx l.message) (absent : Absent)
    (input : Value.Entries) {e : Validator.Entry} (h : M.Has ctx e.validator)
    (g : Gathering Value.Entries) : M.run (Validator.entryStep l absent input ctx e g) := by
  unfold Validator.entryStep
  dsimp only
  split
  · exact M.bindRun (M.within _ (h.apply _)) fun _ _ => M.pureRun _
  · cases absent with
    | validate => exact M.bindRun (M.within _ (h.apply _)) fun _ _ => M.pureRun _
    | skip => exact M.pureRun _
    | reject =>
      exact M.bindRun (M.within _ (M.bind (report hconfig hown _) fun _ _ => M.pure _))
        fun _ _ => M.pureRun _

theorem extraStep {l : Label} (hown : M.Calls ctx l.message) (kind : ObjectKind) (extra : Extra)
    (e : Value × Value) (g : Gathering Value.Entries) :
    M.run (Validator.extraStep l kind extra ctx e g) := by
  cases extra with
  | strip => exact M.pureRun _
  | loose => exact M.pureRun _
  | strict =>
    refine M.bindRun (M.within _ ?_) fun _ _ => M.pureRun _
    unfold Validator.extraIssue
    split
    · exact M.bind (M.throw (by decide)) fun _ _ => M.bind (report hconfig hown _) fun _ _ =>
        M.pure _
    · exact M.bind (report hconfig hown _) fun _ _ => M.pure _

theorem object {resolve : Schema → Validator} {m : Value} {id : Nat} {kind : ObjectKind}
    {extra : Extra} {absent : Absent} {entries : List (Value × Schema)} (hown : M.Calls ctx m)
    (h : ∀ e ∈ entries, M.Has ctx (e.2.validator resolve)) (x : Value) :
    M.run ((Schema.object m id kind extra absent entries).validator resolve ctx (.fresh x)) := by
  cases x with
  | mapping identity mappingKind input =>
    rw [Schema.validator, Validator.object_mapping]
    refine gathered (ObjectBrings ctx I ctx.Settles
        (Schema.object m id kind extra absent entries).label kind extra absent input)
      (fun s hs g => ?_) (fun s hs g => ?_) (fun s hs g q hq => ?_)
      (fun s hs c hc => settled_of_objectBrings (fun _ _ _ hd => hd) hc)
      fun p _ hp => finish (fun _ => mild_ok _) hp
    · rcases List.mem_append.mp hs with hs | hs
      · obtain ⟨e, he, rfl⟩ := List.mem_map.mp hs
        exact entryStep hconfig hown absent input (h e he) g
      · obtain ⟨e, -, rfl⟩ := List.mem_map.mp hs
        exact extraStep hconfig hown kind extra e g
    · rcases List.mem_append.mp hs with hs | hs
      · obtain ⟨e, he, rfl⟩ := List.mem_map.mp hs
        exact Validator.keeps_entryStep (h e he).keeps _ absent input g
      · obtain ⟨e, -, rfl⟩ := List.mem_map.mp hs
        exact Validator.keeps_extraStep _ kind extra e g
    · rcases List.mem_append.mp hs with hs | hs
      · obtain ⟨e, he, rfl⟩ := List.mem_map.mp hs
        obtain ⟨c, hc, hqc⟩ := Validator.gives_entryStep ((h e he).follows e.2) hq
        exact ⟨c, .declared hc, hqc⟩
      · obtain ⟨e, -, rfl⟩ := List.mem_map.mp hs
        obtain ⟨c, hc, hqc⟩ := Validator.gives_extraStep hq
        exact ⟨c, .extra hc, hqc⟩
  | _ => exact reject hconfig hown _ _

/-! ### Operators -/

omit hconfig in
theorem firstSuccess {members : List Validator} (h : ∀ v ∈ members, M.Has ctx v) (x : Value)
    (issues : List Issue) : M.effect (Validator.firstSuccess ctx x members issues) := by
  induction members generalizing issues with
  | nil => exact M.pure _
  | cons v rest ih =>
    rw [List.forall_mem_cons] at h
    refine M.bind (h.1.apply x) fun d _ => ?_
    split
    · exact M.pure _
    · exact ih h.2 _

theorem union {l : Label} (hown : M.Calls ctx l.message) {members : List Validator}
    (h : ∀ v ∈ members, M.Has ctx v) (x : Value) :
    M.run (Validator.union l members ctx (.fresh x)) := by
  refine M.bindRun (M.within _ (firstSuccess h _ _)) fun r _ => ?_
  cases r with
  | inl y => exact M.pureRun _
  | inr issues => exact reject hconfig hown _ _

omit hconfig in
/-- Members that are all typed have outputs. -/
theorem output_of_path {R : Runs} {x : Value} {members : List Schema} {g g' : Gathering (List Value)}
    (h : Gathering.Path ctx (MemberBrings R x) members g (.going g')) (htyped : g'.typed = true) :
    g.typed = true ∧ (members ≠ [] ∨ g.output ≠ [] → g'.output ≠ []) := by
  generalize hp : Progress.going g' = p at h
  induction h with
  | done =>
    cases hp
    exact ⟨htyped, fun hne => hne.resolve_left fun hne => hne rfl⟩
  | @next s rest c g g₁ p hc hreceive _ ih =>
    obtain ⟨hg₁, hrest⟩ := ih hp
    cases hc with
    | @run part _ =>
      obtain rfl := Gathering.eq_of_receive hreceive
      obtain ⟨hg, hpart⟩ := Bool.and_eq_true_iff.mp hg₁
      refine ⟨hg, fun _ => hrest (.inr ?_)⟩
      rw [if_pos hpart]
      simp
  | stop => cases hp

theorem intersection {m : Value} {members : List Schema} {resolve : Schema → Validator}
    (hown : M.Calls ctx m) (h : ∀ s ∈ members, M.Has ctx (s.validator resolve))
    (hmembers : members ≠ [] ∨ M.Hardy) (x : Value) :
    M.run ((Schema.intersection m members).validator resolve ctx (.fresh x)) := by
  rw [Schema.validator, Schema.validators_eq_map]
  unfold Validator.intersection
  rw [Gathering.steps_map]
  refine gathered (MemberBrings ctx.Settles x) (fun s hs g => ?_)
    (fun s hs g => Validator.keeps_memberStep (h s hs).keeps _ g)
    (fun s hs g q hq => Validator.gives_memberStep ((h s hs).follows s) hq)
    (fun s hs c hc => settled_of_memberBrings (fun _ _ _ hd => hd) hc) fun p hpath hp => ?_
  · unfold Validator.memberStep
    refine M.bindRun (M.within _ ((h s hs).apply _)) fun part _ => ?_
    dsimp only
    split
    · exact M.pureRun _
    · split <;> exact M.pureRun _
  · cases p with
    | stopped d => exact giveUp hp
    | going g =>
      dsimp only
      cases htyped : g.typed with
      | false =>
        have huntyped : ctx.Justifies g.typed g.dataset.issues := hp
        exact giveUp (huntyped.untyped htyped)
      | true =>
        cases houtput : g.output with
        | nil =>
          rcases hmembers with hne | hhardy
          · exact absurd houtput ((output_of_path hpath htyped).2 (.inl hne))
          · exact M.within _ (hhardy _)
        | cons first rest =>
          refine M.bindRun (M.withinExcept (Validator.mild_mergeAll? _ _) _) fun merged _ => ?_
          cases merged with
          | none => exact reject hconfig hown _ _
          | some output =>
            dsimp only
            split <;> exact M.pureRun _

end

/-! ### Runs of schemas -/

/-- Whatever the schemas among `U` call or refer to has the manner, and they are put together as
they should be, unless faults are of no account. -/
structure Serves (M : Manner I) (ctx : Context) (U : Schema → Prop) : Prop where
  calls {s : Schema} : U s → ∀ callee ∈ s.callees, M.Calls ctx callee
  config : M.Calls ctx ctx.config.message
  force {m : Value} {id : Nat} {getter : Getter} : U (.lazy m id getter) →
    M.effect (ctx.force id getter)
  members {s : Schema} : U s → s.HasMembers ∨ M.Hardy

variable {M} {ctx : Context} {U : Schema → Prop}

/-- The validator of a schema has the manner when those of its parts have it. -/
theorem run_validator (hserves : M.Serves ctx U) {resolve : Schema → Validator} {s : Schema}
    (hs : U s) (hparts : ∀ c ∈ s.children, M.Has ctx (c.validator resolve))
    (hresolve : ∀ m id getter, s = .lazy m id getter →
      ∀ t, Gives I (ctx.force id getter) t → M.Has ctx (resolve t)) (x : Value) :
    M.run (s.validator resolve ctx (.fresh x)) := by
  have hcalls := hserves.calls hs
  have hown := hcalls _ s.message_mem_callees
  have hconfig := hserves.config
  cases s with
  | constraint m check name abort inner =>
    refine constraint hconfig (hparts inner (by simp [Schema.children])) hown (fun p hp => ?_)
      name abort x
    rw [hp] at hcalls
    exact hcalls p (by simp [Schema.callees])
  | wrapper m w inner =>
    refine wrapper (hparts inner (by simp [Schema.children])) (fun v hv => ?_) x
    rw [hv] at hcalls
    exact hcalls v (by simp [Schema.callees])
  | overwrite m transform inner =>
    exact overwrite (hparts inner (by simp [Schema.children]))
      (hcalls transform (by simp [Schema.callees])) x
  | lazy m id getter => exact lazy (hserves.force hs) (hresolve m id getter rfl) x
  | object m id kind extra absent entries =>
    exact object hconfig hown (fun e he => hparts e.2 (List.mem_map_of_mem he)) x
  | array m limits item =>
    exact array hconfig hown limits (hparts item (by simp [Schema.children])) x
  | set m limits item => exact set hconfig hown limits (hparts item (by simp [Schema.children])) x
  | tuple m items rest =>
    rw [Schema.validator_tuple]
    refine tuple hconfig hown ?_ ?_ x
    · simp only [List.mem_map]
      rintro v ⟨c, hc, rfl⟩
      exact hparts c (by simp [Schema.children, hc])
    · simp only [Option.mem_def, Option.map_eq_some_iff]
      rintro v ⟨r, hr, rfl⟩
      exact hparts r (by simp [Schema.children, hr])
  | map m limits key value =>
    exact map hconfig hown limits (hparts key (by simp [Schema.children]))
      (hparts value (by simp [Schema.children])) x
  | record m key value =>
    exact record hconfig hown value (hparts key (by simp [Schema.children]))
      (hparts value (by simp [Schema.children])) x
  | union m members =>
    rw [Schema.validator, Schema.validators_eq_map]
    refine union hconfig hown ?_ x
    simp only [List.mem_map]
    rintro v ⟨c, hc, rfl⟩
    exact hparts c hc
  | intersection m members =>
    exact intersection hconfig hown hparts (hserves.members hs) x
  | _ => exact judged hconfig rfl hown resolve x

/-- A run among schemas that serve has the manner, and what it comes to is settled. -/
theorem has_validatorUpTo (hclosed : ctx.Closed I U) (hserves : M.Serves ctx U) (n : Nat)
    {s : Schema} (hs : U s) : M.Has ctx (s.validatorUpTo n) := by
  induction n using Nat.strongRecOn generalizing s with
  | ind n ih =>
    induction s using Schema.childInduction with
    | step s ihParts =>
      refine ⟨Schema.keeps_validatorUpTo hclosed n hs,
        fun x d hd => settled_of_yields hclosed hs ⟨n, hd⟩, fun x => ?_⟩
      rw [Schema.validatorUpTo_eq]
      refine run_validator hserves hs (fun c hc => ?_) (fun _ _ _ hlazy t ht => ?_) x
      · rw [← Schema.validatorUpTo_eq]
        exact ihParts c hc (hclosed.part hs hc)
      · have hu := hclosed.behind (hlazy ▸ hs) ht
        cases n with
        | zero =>
          exact ⟨fun _ => keeps_throw _, fun _ _ hd => absurd hd gives_throw,
            fun _ => M.throwRun (by decide) _⟩
        | succ k => exact ih k (Nat.lt_succ_self k) hu

end Manner

end Conform
