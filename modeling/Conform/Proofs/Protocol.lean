/-
  Conform/Proofs/Protocol.lean
  ============================
  **The protocol of datasets.**  Every dataset that a run comes to is settled: its
  status is known, it has issues exactly when it is not valid, and it is partly
  valid only for failed tests (`Settled`).  So no dataset is given up and no report
  is made without an issue: a run is sober, in that it ends in a broken assertion
  only when a callable has ended in it (`Manner.sober`).
-/
import Conform.Proofs.FastPath
import Conform.Proofs.Manner

namespace Conform

/-- A callable ends a call with the fault. -/
def Context.Raises (ctx : Context) (f : Fault) : Prop :=
  ∃ c arguments calls, ctx.host.call c arguments calls = .error f

/-- A computation that starts where `I` holds ends in a broken assertion only if a callable does. -/
def Sober (ctx : Context) (I : Found → Prop) {ε α : Type} (fault : ε → Fault)
    (x : ExceptT ε (StateM World) α) : Prop :=
  Keeps I x ∧ ∀ w e w', I w.resolved → x w = (.error e, w') → (fault e).kind = .assertion →
    ctx.Raises (fault e)

section

variable {ctx : Context} {I : Found → Prop} {ε α β : Type} {fault : ε → Fault}

theorem Sober.bind {x : ExceptT ε (StateM World) α} {f : α → ExceptT ε (StateM World) β}
    (hx : Sober ctx I fault x) (hf : ∀ a, Gives I x a → Sober ctx I fault (f a)) :
    Sober ctx I fault (x >>= f) := by
  refine ⟨keeps_bind hx.1 fun a ha => (hf a ha).1, fun w e w' hI hrun hkind => ?_⟩
  have hkeep := hx.1 w hI
  simp only [Bind.bind, ExceptT.bind, ExceptT.mk, StateT.bind] at hrun
  rcases hmid : x w with ⟨r | a, v⟩
  · rw [hmid] at hrun
    cases hrun
    exact hx.2 w _ _ hI hmid hkind
  · rw [hmid] at hrun hkeep
    exact (hf a ⟨w, v, hI, hmid⟩).2 v e w' hkeep hrun hkind

theorem sober_ofExcept {r : Except Fault α} (h : ∀ f, r = .error f → f.kind = .assertion →
    ctx.Raises f) : Sober ctx I id (Effect.ofExcept r) := by
  refine ⟨keeps_ofExcept r, fun w e w' _ hrun hkind => ?_⟩
  exact h e (congrArg Prod.fst hrun) hkind

theorem Sober.within {e : Effect α} (h : Sober ctx I id e) (d : Dataset) :
    Sober ctx I Halt.fault (within d e) := by
  refine ⟨keeps_within d h.1, fun w halt w' hI hrun hkind => ?_⟩
  simp only [Conform.within, ExceptT.mk] at hrun
  rcases hmid : e w with ⟨f | a, v⟩
  · rw [hmid] at hrun
    cases hrun
    exact h.2 w _ _ hI hmid hkind
  · rw [hmid] at hrun
    cases hrun

theorem Sober.toEffect {r : Run α} (h : Sober ctx I Halt.fault r) : Sober ctx I id r.toEffect := by
  refine ⟨keeps_toEffect h.1, fun w f w' hI hrun hkind => ?_⟩
  simp only [Run.toEffect, ExceptT.mk] at hrun
  rcases hmid : r w with ⟨halt | a, v⟩
  · rw [hmid] at hrun
    cases hrun
    exact h.2 w _ _ hI hmid hkind
  · rw [hmid] at hrun
    cases hrun

/-- The manner of ending in a broken assertion only when a callable does. -/
def Manner.sober (ctx : Context) (I : Found → Prop) : Manner I where
  effect := Sober ctx I id
  run := Sober ctx I Halt.fault
  ofExcept h := sober_ofExcept fun f hf hkind => absurd hkind (h f hf)
  bind := Sober.bind
  bindRun := Sober.bind
  within d h := h.within d
  toEffect h := h.toEffect

/-- Every call is sober: a type makes a value or breaks no assertion. -/
theorem sober_invoke (callee : Value) (arguments : List Argument) :
    Sober ctx I id (ctx.invoke callee arguments) := by
  have refused : Sober ctx I id (throw .notCallable : Effect Value) :=
    (Manner.sober ctx I).throw (by decide)
  unfold Context.invoke
  split
  · next id' c =>
    refine ⟨keeps_invoke ctx (.scalar id' (.callable c)) arguments, fun w e w' _ hrun _ => ?_⟩
    exact ⟨c, arguments, w.calls, congrArg Prod.fst hrun⟩
  · next t => exact (Manner.sober ctx I).ofExcept (t.mild_construct _)
  · exact refused

/-- Following a reference is sober. -/
theorem sober_force {id' : Nat} {getter : Getter} (hkeep : Keeps I (ctx.force id' getter)) :
    Sober ctx I id (ctx.force id' getter) := by
  refine ⟨hkeep, fun w e w' hI hrun hkind => ?_⟩
  unfold Context.force at hrun
  rw [get_bind] at hrun
  cases hfound : w.resolved.lookup id' with
  | some s =>
    rw [hfound] at hrun
    cases hrun
  | none =>
    rw [hfound] at hrun
    cases getter with
    | definition name =>
      dsimp only at hrun
      rw [set_bind] at hrun
      cases hdefined : ctx.definitions.lookup name with
      | none =>
        rw [hdefined] at hrun
        cases hrun
        cases hkind
      | some given =>
        rw [hdefined] at hrun
        cases given with
        | value v =>
          cases hrun
          cases hkind
        | schema s => cases hrun
    | callable callee =>
      have hcall : Sober ctx I id (ctx.invoke callee [] >>= fun v => throw (notGotten v) :
          Effect Schema) :=
        (sober_invoke callee []).bind fun v _ =>
          (Manner.sober ctx I).throw (by simp [notGotten, Fault.kind])
      exact hcall.2 w e w' hI hrun hkind

/-- A run among schemas that are put together as they should be is sober. -/
theorem sober_run {U : Schema → Prop} (hclosed : ctx.Closed I U)
    (hmembers : ∀ s, U s → s.HasMembers) {s : Schema} (hs : U s) (x : Value) :
    Sober ctx I Halt.fault (s.run ctx (.fresh x)) := by
  have hserves : (Manner.sober ctx I).Serves ctx U :=
    ⟨fun _ callee _ => sober_invoke callee, sober_invoke ctx.config.message,
      fun ht => sober_force (hclosed.keeps ht), fun ht => .inl (hmembers _ ht)⟩
  exact (Manner.has_validatorUpTo hclosed hserves _ hs).run x

end

/-- Making a result of a settled dataset breaks no assertion. -/
theorem Dataset.Settled.mild_ofDataset {ctx : Context} {d : Dataset} (h : d.Settled ctx) :
    Mild (Result.ofDataset d) := by
  unfold Result.ofDataset
  split
  · exact mild_ok _
  · next hstatus => exact (Report.mild_ofIssues (mt h.success.mp hstatus)).map _

namespace Engine

variable {ctx : Context} {s : Schema} {x : Value} {objects : Nat → Schema} {st : State}

/-- Validating a value ends in a broken assertion only if a callable does. -/
theorem raises_of_parse (hs : s.Numbered objects) (hst : st.Sound objects)
    (hmembers : ∀ t, ctx.Reaches st.world.resolved s t → t.HasMembers) (e : Engine) {f : Fault}
    (hf : (e.parse ctx s x st).1 = .error f) (hkind : f.kind = .assertion) : ctx.Raises f := by
  have hclosed := ctx.closed_reaches st.world.resolved s
  have hleads := ctx.leads_reaches st.world.resolved s
  have hrun := (sober_run hclosed hmembers .start x).toEffect
  rw [(parse_alike ctx hs ⟨hst, hst, rfl⟩ e x).1, parse_slow] at hf
  rcases hd : (s.run ctx (.fresh x)).toEffect st.world with ⟨g | d, w⟩
  · rw [hd] at hf
    cases hf
    exact hrun.2 _ _ _ hleads hd hkind
  · rw [hd] at hf
    have hsettled : d.Settled ctx :=
      settled_of_yields hclosed .start ⟨_, gives_toEffect ⟨st.world, w, hleads, hd⟩⟩
    exact absurd hkind (hsettled.mild_ofDataset f hf)

end Engine

/-- **The protocol of datasets.**  Whatever a run of a schema on a value comes to has a status, and
issues exactly when it is not valid; it is partly valid only when the run does not stop at the first
issue, and then all issues are of failed tests.  And after any sequence of operations, validating a
value ends in a broken assertion only if a callable does. -/
theorem run_settled :
    (∀ (ctx : Context) (s : Schema) (x : Value) (w : World) (d : Dataset) (w' : World),
      s.run ctx (.fresh x) w = (.ok d, w') →
        d.status ≠ .unknown ∧ (d.issues = [] ↔ d.status = .success) ∧
          (d.status = .partly →
            ctx.config.abortEarly = false ∧ ∀ i ∈ d.issues, i.kind = "validation")) ∧
    ∀ (objects : Nat → Schema) (ops : List Operation),
      (∀ op ∈ ops, ∀ s ∈ op.schema?, s.Numbered objects) →
      let st := (Operation.performAll ops .empty).2
      ∀ (ctx : Context) (s : Schema), s.Numbered objects →
        (∀ t, ctx.Reaches st.world.resolved s t → t.HasMembers) →
        ∀ (e : Engine) (x : Value) (f : Fault), (e.parse ctx s x st).1 = .error f →
          f.kind = .assertion → ctx.Raises f := by
  constructor
  · intro ctx s x w d w' hrun
    have hyields : ctx.Yields (fun _ => True) s x d := ⟨_, w, w', trivial, hrun⟩
    obtain ⟨hknown, hsuccess, hjustified⟩ := settled_of_yields (closed_true ctx) trivial hyields
    refine ⟨hknown, hsuccess, fun hpartly => ?_⟩
    have htyped : d.isTyped = true := by rw [Dataset.isTyped, hpartly]; rfl
    refine hjustified.typed htyped fun hissues => ?_
    rw [hsuccess.mp hissues] at hpartly
    cases hpartly
  · intro objects ops hops st ctx s hs hmembers e x f hf hkind
    have hempty : State.empty.Alike objects .empty := ⟨State.sound_empty, State.sound_empty, rfl⟩
    have hst := (Operation.performAll_alike hops hempty).2.left
    exact Engine.raises_of_parse hs hst hmembers e hf hkind

/-- A list that two tests of texts refuse is partly valid, for two issues; and a test that itself
breaks an assertion lets it through. -/
theorem run_settled_refused :
    let guest : Value := .scalar .shared (.callable ⟨"guest", none, none, "guest", "guest", "test"⟩)
    let ctx : Context := ⟨.default, [], [], [], ⟨fun _ _ _ => .error .noIssues, 0⟩⟩
    let list : Schema := .array .null .none (.never .null)
    let lower : Schema := .constraint .null .lowercase "lowercase" false list
    let upper : Schema := .constraint .null .uppercase "uppercase" false list
    let both : Schema := .intersection .null [lower, upper]
    let tested : Schema := .constraint .null (.refine guest) "guest" false list
    let st := (Operation.performAll [.fetch 0 tested] .empty).2
    (∃ d w, both.run ctx (.fresh (.ofList [])) .empty = (.ok d, w) ∧ d.issues.length = 2 ∧
      d.status = .partly ∧ ∀ i ∈ d.issues, i.kind = "validation") ∧
    (Engine.parse ⟨true, 0⟩ ctx tested (.ofList []) st).1 = .error .noIssues ∧
    ctx.Raises .noIssues := by
  intro guest ctx list lower upper both tested st
  have hnumbered : tested.Numbered fun _ => tested := by
    have hnever : (Schema.never .null).Numbered fun _ => tested :=
      Schema.numbered_iff.mpr ⟨fun _ hid => (by cases hid), fun _ hc => (by cases hc)⟩
    have hlist : list.Numbered fun _ => tested :=
      Schema.numbered_iff.mpr ⟨fun _ hid => (by cases hid), List.forall_mem_singleton.mpr hnever⟩
    exact Schema.numbered_iff.mpr
      ⟨fun _ hid => (by cases hid), List.forall_mem_singleton.mpr hlist⟩
  have hops : ∀ op ∈ [Operation.fetch 0 tested], ∀ s ∈ op.schema?,
      s.Numbered fun _ => tested := by
    simpa [Operation.schema?] using hnumbered
  have hmembers : ∀ t, ctx.Reaches st.world.resolved tested t → t.HasMembers := by
    intro t ht
    have hreaches : t = .never .null ∨ t = list ∨ t = tested := by
      refine ht.closed (Q := fun t => t = .never .null ∨ t = list ∨ t = tested)
        (.inr (.inr rfl)) ?_ ?_
      · rintro _ c (rfl | rfl | rfl) hc
        · cases hc
        · exact .inl (List.mem_singleton.mp hc)
        · exact .inr (.inl (List.mem_singleton.mp hc))
      · intro m id getter t h
        simp [list, tested] at h
    rcases hreaches with rfl | rfl | rfl <;> trivial
  have hparse : (Engine.parse ⟨true, 0⟩ ctx tested (.ofList []) st).1 = .error .noIssues := rfl
  obtain ⟨d, w, hrun, htwo, hpartly⟩ : ∃ d w,
      both.run ctx (.fresh (.ofList [])) .empty = (.ok d, w) ∧ d.issues.length = 2 ∧
        d.status = .partly := by
    dsimp only [ctx, list, lower, upper, both]
    refine ⟨_, _, rfl, ?_, ?_⟩ <;> rfl
  obtain ⟨hruns, hparses⟩ := run_settled
  exact ⟨⟨d, w, hrun, htwo, hpartly, ((hruns ctx both _ _ d w hrun).2.2 hpartly).2⟩, hparse,
    hparses (fun _ => tested) [.fetch 0 tested] hops ctx tested hnumbered hmembers _ _ _ hparse rfl⟩

end Conform
