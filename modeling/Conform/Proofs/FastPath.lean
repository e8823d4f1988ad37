/-
  Conform/Proofs/FastPath.lean
  ============================
  **The fast path is the slow path.**  What the compiler makes of a schema does
  to every dataset exactly what the schema does: the same result, the same
  faults and the same calls, in every context and every world.

  A plan is faithful to a schema when both have the same validator, whatever
  stands behind references.  Prepared objects are faithful because a handler is
  a step of the object (`prepared_eq_object`).  The compiler at work keeps only
  faithful plans, each of the object that its number stands for
  (`Workshop.Sound`), and this holds after any sequence of operations on engines
  (`State.Sound`).
-/
import Conform.Proofs.Effect
import Conform.Proofs.Gathering
import Conform.Proofs.Structure
import Conform.Engine
import Mathlib.Data.List.Forall2

namespace Conform

/-! ### Prepared objects -/

namespace Validator

/-- A handler does what the step of the object does, with the policy for missing keys looked at
beforehand. -/
theorem handlerStep_handler (l : Label) (absent : Absent) (input : Value.Entries)
    (ctx : Context) :
    (fun e => handlerStep input ctx (e.key, handler l absent e)) =
      entryStep l absent input ctx := by
  funext e g
  cases absent with
  | validate =>
    cases h : input.get? e.key <;>
      simp only [handlerStep, handler, entryStep, h, Option.getD_none, Option.getD_some,
        within_bind, within_pure, bind_assoc, pure_bind]
  | skip =>
    cases h : input.get? e.key <;>
      simp only [handlerStep, handler, entryStep, h, within_bind, within_pure, bind_assoc,
        pure_bind]
  | reject =>
    cases h : input.get? e.key <;>
      simp only [handlerStep, handler, entryStep, h, within_bind, within_pure, bind_assoc,
        pure_bind]

/-- Only an object that is guarded reports keys that are not declared in its own way. -/
theorem extraStep_plain {kind : ObjectKind} (hkind : kind ≠ .guarded) (l : Label)
    (extra : Extra) (ctx : Context) : extraStep l .plain extra ctx = extraStep l kind extra ctx := by
  funext entry g
  cases kind with
  | guarded => exact absurd rfl hkind
  | plain | strict | loose => rfl

theorem extras_eq_steps {kind : ObjectKind} (hkind : kind ≠ .guarded) (l : Label) (extra : Extra)
    (entries : List Entry) (input : Value.Entries) (ctx : Context) (g : Gathering Value.Entries) :
    extras l extra (entries.map (·.key)) input ctx g =
      Gathering.steps (extraStep l kind extra ctx) (undeclared entries input) g := by
  have hothers : (input.filter fun e => !((entries.map (·.key)).any (·.keyEq e.1))) =
      undeclared entries input := by
    simp only [undeclared, List.any_map, Function.comp_def]
  unfold extras
  rw [hothers, extraStep_plain hkind]
  cases extra with
  | strip => exact (Gathering.steps_going _ g).symm
  | loose | strict => rfl

/-- A prepared object does what the object does. -/
theorem prepared_eq_object {kind : ObjectKind} (hkind : kind ≠ .guarded) (l : Label)
    (extra : Extra) (absent : Absent) (entries : List Entry) :
    prepared l extra absent entries = object l kind extra absent entries := by
  funext ctx d
  unfold prepared object
  cases hentries : d.value.entries? with
  | none => rfl
  | some input =>
    dsimp only
    rw [Gathering.steps_map, handlerStep_handler]
    refine bind_congr fun progress => ?_
    cases progress with
    | going g => exact congrArg (· >>= _) (extras_eq_steps hkind l extra entries input ctx g)
    | stopped d => rfl

end Validator

/-! ### Faithful plans -/

/-- A plan and a schema have the same validator. -/
def Plan.Faithful (p : Plan) (s : Schema) : Prop :=
  ∀ resolve, p.validator resolve = s.validator resolve

theorem Plan.Faithful.constraint {p : Plan} {s : Schema} (h : p.Faithful s) (m : Value)
    (check : Check) (name : String) (abort : Bool) :
    (Plan.constraint m check name abort p).Faithful (.constraint m check name abort s) := by
  intro resolve
  rw [Plan.validator, Schema.validator, h resolve]

theorem Plan.Faithful.wrapper {p : Plan} {s : Schema} (h : p.Faithful s) (m : Value)
    (w : Wrapping) : (Plan.wrapper w p).Faithful (.wrapper m w s) := by
  intro resolve
  rw [Plan.validator, Schema.validator, h resolve]

/-- The plans of declared keys are faithful to the schemas of these keys. -/
def Plan.EntriesFaithful (plans : List (Value × String × Plan)) (entries : List (Value × Schema)) :
    Prop :=
  ∀ resolve, Plan.entryValidators resolve plans = Schema.entryValidators resolve entries

theorem Plan.EntriesFaithful.cons {plans : List (Value × String × Plan)}
    {entries : List (Value × Schema)} {p : Plan} {s : Schema} (key : Value)
    (hp : p.Faithful s) (h : Plan.EntriesFaithful plans entries) :
    Plan.EntriesFaithful ((key, s.expects, p) :: plans) ((key, s) :: entries) := by
  intro resolve
  rw [Plan.entryValidators, Schema.entryValidators, hp resolve, h resolve]

/-- What the compiler made of a schema is faithful to it. -/
structure Compiled.Faithful (c : Compiled) (s : Schema) : Prop where
  schema_eq : c.schema = s
  plan : c.plan.Faithful s

/-- More references on a path make no difference to a faithful plan. -/
theorem Plan.Faithful.upTo {p : Plan} {s : Schema} (h : p.Faithful s) (n : Nat) :
    p.validatorUpTo n = s.validatorUpTo n := by
  cases n with
  | zero => exact h _
  | succ n => exact h _

theorem Compiled.Faithful.run_eq {c : Compiled} {s : Schema} (h : c.Faithful s) :
    c.run = s.run := by
  funext ctx d
  rw [Compiled.run, Schema.run, h.schema_eq, h.plan.upTo]

/-! ### The compiler at work -/

/-- Numbers tell objects apart: every object in the schema is the one that its number stands for. -/
def Schema.Numbered (objects : Nat → Schema) (s : Schema) : Prop :=
  ∀ t : Schema, t.Part s → ∀ id, t.number? = some id → objects id = t

/-- The immediate parts of a schema are numbered like the schema. -/
theorem Schema.Numbered.child {objects : Nat → Schema} {c s : Schema} (h : s.Numbered objects)
    (hc : c ∈ s.children) : c.Numbered objects :=
  fun t ht => h t (.child hc ht)

/-- A schema is numbered when it stands behind its number and its parts are numbered. -/
theorem Schema.numbered_iff {objects : Nat → Schema} {s : Schema} :
    s.Numbered objects ↔
      (∀ id, s.number? = some id → objects id = s) ∧ ∀ c ∈ s.children, c.Numbered objects :=
  forall_part_iff

/-- All that is kept is faithful to the object that its number stands for. -/
def Workshop.Sound (objects : Nat → Schema) (w : Workshop) : Prop :=
  ∀ e ∈ w.cache, e.2.Faithful (objects e.1)

/-- From a sound state the compiler gets to a result of some kind and to a sound state. -/
def Compilation.Yields {α : Type} (objects : Nat → Schema) (c : Compilation α) (Q : α → Prop) :
    Prop :=
  ∀ w : Workshop, w.Sound objects → Q (c w).1 ∧ (c w).2.Sound objects

namespace Compilation

variable {objects : Nat → Schema}

theorem Yields.pure {α : Type} {a : α} {Q : α → Prop} (h : Q a) :
    Yields objects (Pure.pure a : Compilation α) Q :=
  fun _ hw => ⟨h, hw⟩

theorem Yields.bind {α β : Type} {c : Compilation α} {f : α → Compilation β} {Q : α → Prop}
    {R : β → Prop} (hc : Yields objects c Q) (hf : ∀ a, Q a → Yields objects (f a) R) :
    Yields objects (c >>= f) R := by
  intro w hw
  obtain ⟨hq, hw'⟩ := hc w hw
  exact hf _ hq _ hw'

/-- What is found under a number is kept. -/
theorem mem_of_lookup {cache : Cache} {id : Nat} {c : Compiled} (h : cache.lookup id = some c) :
    (id, c) ∈ cache := by
  obtain ⟨before, after, rfl, -⟩ := List.lookup_eq_some_iff.mp h
  simp

/-- What is found in a sound cache is faithful to the object that the number stands for. -/
theorem faithful_of_lookup {w : Workshop} (hw : w.Sound objects) {id : Nat} {c : Compiled}
    (h : w.cache.lookup id = some c) : c.Faithful (objects id) :=
  hw (id, c) (mem_of_lookup h)

/-- What is kept under a number is taken if there is something, and made otherwise. -/
theorem yields_lookup {α : Type} {id : Nat} {found : Compiled → α} {make : Compilation α}
    {Q : α → Prop} (hfound : ∀ c : Compiled, c.Faithful (objects id) → Q (found c))
    (hmake : Yields objects make Q) :
    Yields objects
      (do match (← get).cache.lookup id with
        | some c => return found c
        | none => make) Q := by
  intro w hw
  cases h : w.cache.lookup id with
  | some c =>
    simp only [bind, StateT.bind, get, getThe, MonadStateOf.get, StateT.get, pure, h]
    exact ⟨hfound c (faithful_of_lookup hw h), hw⟩
  | none =>
    simp only [bind, StateT.bind, get, getThe, MonadStateOf.get, StateT.get, pure, h]
    exact hmake w hw

theorem yields_serial : Yields objects serial fun _ => True :=
  fun _ hw => ⟨trivial, hw⟩

theorem yields_fallback (s : Schema) : Yields objects (fallback s) (·.Faithful s) :=
  fun _ hw => ⟨⟨rfl, fun _ => rfl⟩, hw⟩

/-- What is kept under a number already stays. -/
theorem keep_of_kept {w : Workshop} {id : Nat} {c : Compiled} (h : w.cache.lookup id = some c)
    (c' : Compiled) : keep id c' w = (c, w) := by
  simp only [keep, bind, StateT.bind, get, getThe, MonadStateOf.get, StateT.get, pure, h]
  rfl

theorem keep_of_new {w : Workshop} {id : Nat} (h : w.cache.lookup id = none) (c : Compiled) :
    keep id c w = (c, { w with cache := w.cache ++ [(id, c)] }) := by
  simp only [keep, bind, StateT.bind, get, getThe, MonadStateOf.get, StateT.get, pure, h]
  rfl

/-- Keeping a faithful plan keeps the state sound; a plan that was kept before is as good. -/
theorem yields_keep {id : Nat} {c : Compiled} (hc : c.Faithful (objects id)) :
    Yields objects (keep id c) (·.Faithful (objects id)) := by
  intro w hw
  cases hfind : w.cache.lookup id with
  | some kept =>
    rw [keep_of_kept hfind]
    exact ⟨faithful_of_lookup hw hfind, hw⟩
  | none =>
    rw [keep_of_new hfind]
    refine ⟨hc, fun e he => ?_⟩
    rcases List.mem_append.mp he with hold | hnew
    · exact hw e hold
    · rw [List.mem_singleton.mp hnew]
      exact hc

/-- An object that is put together from faithful plans is faithful. -/
theorem yields_assemble {m : Value} {id : Nat} {kind : ObjectKind} {extra : Extra}
    {absent : Absent} {entries : List (Value × Schema)} {plans : List (Value × String × Plan)}
    (hplans : Plan.EntriesFaithful plans entries) :
    Yields objects (assemble (.object m id kind extra absent entries) plans)
      (·.Faithful (.object m id kind extra absent entries)) := by
  by_cases hkind : kind = .guarded
  · rw [hkind]
    exact yields_fallback _
  · have hassemble : assemble (.object m id kind extra absent entries) plans = do
        return ⟨← serial, .object m id kind extra absent entries,
          .object (Schema.label (.object m id kind extra absent entries)) extra absent plans,
          false⟩ := by
      cases kind with
      | guarded => exact absurd rfl hkind
      | plain | strict | loose => rfl
    rw [hassemble]
    refine yields_serial.bind fun n _ => .pure ⟨rfl, fun resolve => ?_⟩
    rw [Plan.validator, Schema.validator, hplans resolve, Validator.prepared_eq_object hkind]

/-- The plans of declared keys are faithful when those of nested objects are. -/
theorem yields_entryPlans {entries : List (Value × Schema)}
    (hnested : ∀ e ∈ entries, e.2.Numbered objects →
      Yields objects (nested? e.2) fun plan => ∀ p ∈ plan, p.Faithful e.2)
    (hentries : ∀ e ∈ entries, e.2.Numbered objects) :
    Yields objects (entryPlans entries) (Plan.EntriesFaithful · entries) := by
  induction entries with
  | nil => exact .pure fun _ => rfl
  | cons e rest ih =>
    obtain ⟨key, s⟩ := e
    have hs := hnested (key, s) (List.mem_cons_self ..) (hentries (key, s) (List.mem_cons_self ..))
    have hrest := ih (fun e he => hnested e (List.mem_cons_of_mem _ he))
      fun e he => hentries e (List.mem_cons_of_mem _ he)
    refine hs.bind fun plan hplan => hrest.bind fun more hmore => .pure (.cons key ?_ hmore)
    cases plan with
    | none => exact fun _ => rfl
    | some p => exact hplan p rfl

/-- The plan of a nested object is faithful, behind all wrappers that the compiler looks through. -/
theorem yields_nested {s : Schema} (hs : s.Numbered objects) :
    Yields objects (nested? s) fun plan => ∀ p ∈ plan, p.Faithful s := by
  induction s with
  | object m id kind extra absent entries ih =>
    have hid : objects id = .object m id kind extra absent entries := hs _ .self id rfl
    refine yields_lookup (fun c hc p hp => ?_) ?_
    · obtain rfl := Option.some.inj hp
      exact hid ▸ hc.plan
    · refine (yields_entryPlans ih fun e he => hs.child (List.mem_map_of_mem he)).bind
        fun plans hplans => (yields_assemble hplans).bind fun c hc =>
          (yields_keep (hid ▸ hc)).bind fun c hc => .pure fun p hp => ?_
      obtain rfl := Option.some.inj hp
      exact hid ▸ hc.plan
  | constraint m check name abort inner ih =>
    refine (ih (hs.child (List.mem_singleton_self _))).bind fun plan hplan => .pure fun p hp => ?_
    obtain ⟨q, hq, rfl⟩ := Option.map_eq_some_iff.mp hp
    exact (hplan q hq).constraint m check name abort
  | wrapper m w inner ih =>
    refine (ih (hs.child (List.mem_singleton_self _))).bind fun plan hplan => .pure fun p hp => ?_
    obtain ⟨q, hq, rfl⟩ := Option.map_eq_some_iff.mp hp
    exact (hplan q hq).wrapper m w
  | _ => exact .pure fun p hp => absurd hp (by simp)

/-- What is compiled is faithful, whatever is kept already. -/
theorem yields_compile {s : Schema} (hs : s.Numbered objects) :
    Yields objects (compile s) (·.Faithful s) := by
  cases s with
  | object m id kind extra absent entries =>
    refine (yields_entryPlans (fun e _ he => yields_nested he) fun e he =>
      hs.child (List.mem_map_of_mem he)).bind fun plans hplans => yields_assemble hplans
  | _ => exact yields_fallback _

/-- What is fetched is faithful, whether it was kept or is compiled now. -/
theorem yields_fetch {s : Schema} (hs : s.Numbered objects) :
    Yields objects (fetch s) (·.Faithful s) := by
  cases s with
  | object m id kind extra absent entries =>
    have hid : objects id = .object m id kind extra absent entries := hs _ .self id rfl
    refine yields_lookup (fun c hc => hid ▸ hc) ?_
    exact (yields_compile hs).bind fun c hc => hid ▸ yields_keep (hid ▸ hc)
  | _ => exact yields_fallback _

end Compilation

/-! ### Sequences of operations -/

/-- All that the compilers keep is faithful to the object that its number stands for. -/
def State.Sound (objects : Nat → Schema) (st : State) : Prop :=
  ∀ p ∈ st.caches, ∀ e ∈ p.2, e.2.Faithful (objects e.1)

variable {objects : Nat → Schema}

theorem State.sound_empty : State.empty.Sound objects :=
  fun _ hp => nomatch hp

theorem State.Sound.cache {st : State} (h : st.Sound objects) (compiler next : Nat) :
    Workshop.Sound objects ⟨st.cache compiler, next⟩ := by
  intro e he
  cases hfind : st.caches.lookup compiler with
  | none => simp [State.cache, hfind] at he
  | some cache =>
    obtain ⟨l₁, l₂, hcaches, -⟩ := List.lookup_eq_some_iff.mp hfind
    exact h (compiler, cache) (by rw [hcaches]; simp) e (by simpa [State.cache, hfind] using he)

theorem State.Sound.withCache {st : State} (h : st.Sound objects) (compiler : Nat) {cache : Cache}
    (hcache : ∀ e ∈ cache, e.2.Faithful (objects e.1)) :
    (st.withCache compiler cache).Sound objects := by
  intro p hp
  rcases List.mem_cons.mp hp with rfl | hold
  · exact hcache
  · exact h p (List.mem_filter.mp hold).1

/-- A compiler that works in a sound state leaves a sound one, and has no effect on the world. -/
theorem State.Sound.compileWith {α : Type} {st : State} (h : st.Sound objects) (compiler : Nat)
    {c : Compilation α} {Q : α → Prop} (hc : Compilation.Yields objects c Q) :
    Q (st.compileWith compiler c).1 ∧ (st.compileWith compiler c).2.Sound objects ∧
      (st.compileWith compiler c).2.world = st.world := by
  obtain ⟨hq, hw⟩ := hc _ (h.cache compiler st.nextSerial)
  exact ⟨hq, h.withCache compiler hw, rfl⟩

/-- Two states in which nothing but what is kept may differ. -/
structure State.Alike (objects : Nat → Schema) (st st' : State) : Prop where
  left : st.Sound objects
  right : st'.Sound objects
  world_eq : st.world = st'.world

/-- Two answers are alike: compiled schemas when they run alike, all others when they are equal. -/
inductive Answer.Alike : Answer → Answer → Prop where
  | compiled {c c' : Compiled} : c.schema = c'.schema → c.run = c'.run →
      Alike (.compiled c) (.compiled c')
  | same (a : Answer) : Alike a a

namespace Engine

variable {s : Schema} {st st' : State} (ctx : Context)

/-- An engine gives the dataset that it gives without its fast path. -/
theorem run_alike (hs : s.Numbered objects) (h : st.Alike objects st') (e : Engine) (v : Value) :
    (e.run ctx s v st).1 = (Engine.run { e with fastPath := false } ctx s v st').1 ∧
      (e.run ctx s v st).2.Alike objects (Engine.run { e with fastPath := false } ctx s v st').2 := by
  obtain ⟨fast, compiler⟩ := e
  cases fast with
  | false =>
    simp only [run, State.perform, Bool.false_eq_true, if_false, h.world_eq]
    exact ⟨rfl, h.left, h.right, rfl⟩
  | true =>
    obtain ⟨hc, hsound, hworld⟩ :=
      h.left.compileWith compiler (Compilation.yields_fetch hs)
    simp only [run, State.perform, if_true, Bool.false_eq_true, if_false, hc.run_eq, hworld,
      h.world_eq]
    exact ⟨rfl, hsound, h.right, rfl⟩

/-- An engine without a fast path gives the result of the run of the schema. -/
theorem parse_slow (compiler : Nat) (x : Value) :
    (Engine.parse ⟨false, compiler⟩ ctx s x st).1 =
      ((s.run ctx (.fresh x)).toEffect st.world).1.bind Result.ofDataset := rfl

theorem parse_alike (hs : s.Numbered objects) (h : st.Alike objects st') (e : Engine) (v : Value) :
    (e.parse ctx s v st).1 = (Engine.parse { e with fastPath := false } ctx s v st').1 ∧
      (e.parse ctx s v st).2.Alike objects
        (Engine.parse { e with fastPath := false } ctx s v st').2 := by
  obtain ⟨hresult, hstate⟩ := run_alike ctx hs h e v
  exact ⟨congrArg (·.bind Result.ofDataset) hresult, hstate⟩

theorem parseBulk_alike (hs : s.Numbered objects) (e : Engine) (vs : List Value) :
    ∀ {st st' : State}, st.Alike objects st' →
      (e.parseBulk ctx s vs st).1 = (Engine.parseBulk { e with fastPath := false } ctx s vs st').1 ∧
      (e.parseBulk ctx s vs st).2.Alike objects
        (Engine.parseBulk { e with fastPath := false } ctx s vs st').2 := by
  induction vs with
  | nil => exact fun h => ⟨rfl, h⟩
  | cons v rest ih =>
    intro st st' h
    obtain ⟨hresult, hstate⟩ := parse_alike ctx hs h e v
    rw [parseBulk, parseBulk]
    rcases hfast : e.parse ctx s v st with ⟨r, t⟩
    rcases hslow : Engine.parse { e with fastPath := false } ctx s v st' with ⟨r', t'⟩
    rw [hfast, hslow] at hresult hstate
    obtain rfl : r = r' := hresult
    cases r with
    | error f => exact ⟨rfl, hstate⟩
    | ok r =>
      obtain ⟨hmore, hstate'⟩ := ih hstate
      exact ⟨congrArg (·.map (r :: ·)) hmore, hstate'⟩

end Engine

namespace Operation

/-- An operation is answered alike with a fast path and without. -/
theorem perform_alike {op : Operation} (hop : ∀ s ∈ op.schema?, s.Numbered objects)
    {st st' : State} (h : st.Alike objects st') :
    (op.perform st).1.Alike (op.slow.perform st').1 ∧
      (op.perform st).2.Alike objects (op.slow.perform st').2 := by
  cases op with
  | fetch compiler s =>
    have hs := Compilation.yields_fetch (hop s rfl)
    obtain ⟨hc, hsound, hworld⟩ := h.left.compileWith compiler hs
    obtain ⟨hc', hsound', hworld'⟩ := h.right.compileWith compiler hs
    exact ⟨.compiled (hc.schema_eq.trans hc'.schema_eq.symm) (hc.run_eq.trans hc'.run_eq.symm),
      hsound, hsound', hworld.trans (h.world_eq.trans hworld'.symm)⟩
  | compile compiler s =>
    have hs := Compilation.yields_compile (hop s rfl)
    obtain ⟨hc, hsound, hworld⟩ := h.left.compileWith compiler hs
    obtain ⟨hc', hsound', hworld'⟩ := h.right.compileWith compiler hs
    exact ⟨.compiled (hc.schema_eq.trans hc'.schema_eq.symm) (hc.run_eq.trans hc'.run_eq.symm),
      hsound, hsound', hworld.trans (h.world_eq.trans hworld'.symm)⟩
  | clear compiler =>
    exact ⟨.same _, h.left.withCache compiler fun _ he => (nomatch he),
      h.right.withCache compiler fun _ he => (nomatch he), h.world_eq⟩
  | parse e ctx s v =>
    obtain ⟨hresult, hstate⟩ := Engine.parse_alike ctx (hop s rfl) h e v
    refine ⟨?_, hstate⟩
    simp only [perform, slow, hresult]
    exact .same _
  | parseBulk e ctx s vs =>
    obtain ⟨hresult, hstate⟩ := Engine.parseBulk_alike ctx (hop s rfl) e vs h
    refine ⟨?_, hstate⟩
    simp only [perform, slow, hresult]
    exact .same _
  | validate e ctx s v =>
    obtain ⟨hresult, hstate⟩ := Engine.parse_alike ctx (hop s rfl) h e v
    refine ⟨?_, hstate⟩
    simp only [perform, slow, Engine.validate, hresult]
    exact .same _

theorem performAll_alike {ops : List Operation}
    (hops : ∀ op ∈ ops, ∀ s ∈ op.schema?, s.Numbered objects) :
    ∀ {st st' : State}, st.Alike objects st' →
      List.Forall₂ Answer.Alike (performAll ops st).1 (performAll (ops.map slow) st').1 ∧
        (performAll ops st).2.Alike objects (performAll (ops.map slow) st').2 := by
  induction ops with
  | nil => exact fun h => ⟨.nil, h⟩
  | cons op rest ih =>
    intro st st' h
    obtain ⟨hanswer, hstate⟩ := perform_alike (hops op (List.mem_cons_self ..)) h
    obtain ⟨hanswers, hfinal⟩ := ih (fun op hop => hops op (List.mem_cons_of_mem _ hop)) hstate
    exact ⟨.cons hanswer hanswers, hfinal⟩

end Operation

/-- **The fast path is the slow path.**  In every state that a sequence of operations leads to, what
the compiler makes of a schema, kept or made anew, does to every dataset in every context and world
what the schema does; and the sequence is answered as it is without any fast path, with the same
calls. -/
theorem fastPath_eq_slowPath (objects : Nat → Schema) (ops : List Operation)
    (hops : ∀ op ∈ ops, ∀ s ∈ op.schema?, s.Numbered objects) :
    (∀ (s : Schema) (compiler : Nat), s.Numbered objects →
      let st := (Operation.performAll ops .empty).2
      (st.compileWith compiler (Compilation.fetch s)).1.run = s.run ∧
        (st.compileWith compiler (Compilation.compile s)).1.run = s.run) ∧
    List.Forall₂ Answer.Alike (Operation.performAll ops .empty).1
      (Operation.performAll (ops.map Operation.slow) .empty).1 ∧
    (Operation.performAll ops .empty).2.world =
      (Operation.performAll (ops.map Operation.slow) .empty).2.world := by
  have hempty : State.empty.Alike objects .empty := ⟨State.sound_empty, State.sound_empty, rfl⟩
  obtain ⟨hanswers, hstate⟩ := Operation.performAll_alike hops hempty
  refine ⟨fun s compiler hs => ⟨?_, ?_⟩, hanswers, hstate.world_eq⟩
  · exact (hstate.left.compileWith compiler (Compilation.yields_fetch hs)).1.run_eq
  · exact (hstate.left.compileWith compiler (Compilation.yields_compile hs)).1.run_eq

/-- A strict object around another, of which the inner one is kept before the outer one is run. -/
theorem fastPath_eq_slowPath_nested :
    let inner : Schema :=
      .object .null 0 .plain .strip .validate [(.str "name", .primitive .null .string)]
    let outer : Schema :=
      .object .null 1 .strict .strict .reject [(.str "author", .wrapper .null .optional inner)]
    let objects : Nat → Schema := fun id => if id = 0 then inner else outer
    let ctx : Context := ⟨.default, [], [], [], ⟨fun _ _ _ => .error .callable, 0⟩⟩
    let input : Value := .ofMapping [(.str "author", .ofMapping [(.str "name", .int 1)])]
    let ops : List Operation :=
      [.fetch 0 inner, .parse ⟨true, 0⟩ ctx outer input, .clear 0, .validate ⟨true, 0⟩ ctx outer input]
    (∀ op ∈ ops, ∀ s ∈ op.schema?, s.Numbered objects) ∧
    List.Forall₂ Answer.Alike (Operation.performAll ops .empty).1
      (Operation.performAll (ops.map Operation.slow) .empty).1 := by
  intro inner outer objects ctx input ops
  have hname : (Schema.primitive .null .string).Numbered objects :=
    Schema.numbered_iff.mpr ⟨fun _ hid => (nomatch hid), fun _ hc => (nomatch hc)⟩
  have hinner : inner.Numbered objects := by
    refine Schema.numbered_iff.mpr ⟨fun id hid => ?_, fun c hc => ?_⟩
    · obtain rfl : 0 = id := Option.some.inj hid
      rfl
    · obtain rfl : c = .primitive .null .string := List.mem_singleton.mp hc
      exact hname
  have hoptional : (Schema.wrapper .null .optional inner).Numbered objects := by
    refine Schema.numbered_iff.mpr ⟨fun _ hid => (nomatch hid), fun c hc => ?_⟩
    obtain rfl : c = inner := List.mem_singleton.mp hc
    exact hinner
  have houter : outer.Numbered objects := by
    refine Schema.numbered_iff.mpr ⟨fun id hid => ?_, fun c hc => ?_⟩
    · obtain rfl : 1 = id := Option.some.inj hid
      rfl
    · obtain rfl : c = .wrapper .null .optional inner := List.mem_singleton.mp hc
      exact hoptional
  have hops : ∀ op ∈ ops, ∀ s ∈ op.schema?, s.Numbered objects := by
    simp [ops, Operation.schema?, hinner, houter]
  exact ⟨hops, (fastPath_eq_slowPath objects ops hops).2.1⟩

end Conform
