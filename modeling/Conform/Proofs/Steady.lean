/-
  Conform/Proofs/Steady.lean
  ==========================
  **Steady computations.**  A computation is steady when its result is the same in
  all worlds.  Runs without references are steady when the callables are
  (`Context.Steadies.steadily`), and what a steady computation gives in one world it
  returns in all of them (`returns_of_gives`).
-/
import Conform.Proofs.Manner
import Conform.Proofs.Returns

namespace Conform

/-- The result of a computation does not depend on what happened before. -/
def Steadily {ε α : Type} (x : ExceptT ε (StateM World) α) : Prop :=
  ∀ w w', (x w).1 = (x w').1

section

variable {I : Found → Prop} {ε α : Type} {x : ExceptT ε (StateM World) α} {a : α}

/-- What a steady computation gives in one world it returns in all. -/
theorem returns_of_gives (hx : Steadily x) (h : Gives I x a) : Returns x (· = a) := by
  intro w
  obtain ⟨u, u', -, hrun⟩ := h
  have hresult := hx w u
  rw [hrun] at hresult
  exact ⟨a, (x w).2, Prod.ext hresult rfl, rfl⟩

/-- A computation that returns one result, and then one that goes on with it. -/
theorem Returns.next {β : Type} {f : α → ExceptT ε (StateM World) β} {R : β → Prop}
    (hx : Returns x (· = a)) (hf : Returns (f a) R) : Returns (x >>= f) R := by
  refine hx.bind fun b hb => ?_
  rw [hb]
  exact hf

theorem returns_ok {r : Except Fault α} (h : r = .ok a) (d : Dataset) :
    Returns (withinExcept d r) (· = a) :=
  returns_withinExcept (Q := (· = a)) ⟨a, h, rfl⟩ d

/-- What is returned in all worlds is given in those in which `I` holds. -/
theorem Returns.gives {Q : α → Prop} (h : Returns x Q) {w : World} (hI : I w.resolved) :
    ∃ a, Gives I x a ∧ Q a := by
  obtain ⟨a, w', hrun, ha⟩ := h w
  exact ⟨a, ⟨w, w', hI, hrun⟩, ha⟩

end

/-- The manner of having the same result in all worlds. -/
def Manner.steady : Manner (fun _ => True) where
  effect x := Steadily x
  run x := Steadily x
  ofExcept _ _ _ := rfl
  bind hx hf := result_bind hx hf
  bindRun hx hf := result_bind hx hf
  within d he w w' := by
    rw [within_apply, within_apply, he w w']
  toEffect hr w w' := by
    rw [toEffect_apply, toEffect_apply, hr w w']

/-- A schema that is no reference. -/
def Schema.isLazy : Schema → Bool
  | .lazy .. => true
  | _ => false

/-- Schemas with all their parts, none of which is a reference, put together as they should be; what
they call is steady. -/
structure Context.Steadies (ctx : Context) (U : Schema → Prop) : Prop where
  part {s c : Schema} : U s → c ∈ s.children → U c
  lazy {s : Schema} : U s → s.isLazy = false
  members {s : Schema} : U s → s.HasMembers
  calls {s : Schema} : U s → ∀ callee ∈ s.callees, ctx.Steady callee
  config : ctx.Steady ctx.config.message

namespace Context.Steadies

variable {ctx : Context} {U : Schema → Prop} (h : ctx.Steadies U)

include h

theorem closed : ctx.Closed (fun _ => True) U where
  part hs hc := h.part hs hc
  keeps _ _ _ := trivial
  behind hs := by cases h.lazy hs

theorem serves : Manner.steady.Serves ctx U where
  calls hs := h.calls hs
  config := h.config
  force hs := by cases h.lazy hs
  members hs := .inl (h.members hs)

end Context.Steadies

/-- Without references, the validator of a schema does not depend on those of others. -/
theorem Schema.validator_congr {U : Schema → Prop} (hpart : ∀ s c, U s → c ∈ s.children → U c)
    (hlazy : ∀ s, U s → s.isLazy = false) (resolve resolve' : Schema → Validator) {s : Schema}
    (hs : U s) : s.validator resolve = s.validator resolve' := by
  induction s with
  | constraint m check name abort inner ih =>
    simp only [validator, ih (hpart _ _ hs (by simp [children]))]
  | wrapper m w inner ih => simp only [validator, ih (hpart _ _ hs (by simp [children]))]
  | overwrite m transform inner ih =>
    simp only [validator, ih (hpart _ _ hs (by simp [children]))]
  | lazy m id getter => cases hlazy _ hs
  | object m id kind extra absent entries ih =>
    have heq : ∀ e ∈ entries, e.2.validator resolve = e.2.validator resolve' := fun e he =>
      ih e he (hpart _ _ hs (List.mem_map_of_mem he))
    simp only [validator, entryValidators_eq_map]
    congr 1
    refine List.map_congr_left fun e he => ?_
    rw [heq e he]
  | array m limits item ih => simp only [validator, ih (hpart _ _ hs (by simp [children]))]
  | set m limits item ih => simp only [validator, ih (hpart _ _ hs (by simp [children]))]
  | tuple m items rest ihItems ihRest =>
    rw [validator_tuple, validator_tuple]
    congr 1
    · exact List.map_congr_left fun c hc => ihItems c hc (hpart _ _ hs (by simp [children, hc]))
    · cases rest with
      | none => rfl
      | some r => exact congrArg some (ihRest r rfl (hpart _ _ hs (by simp [children])))
  | map m limits key value ihKey ihValue =>
    simp only [validator, ihKey (hpart _ _ hs (by simp [children])),
      ihValue (hpart _ _ hs (by simp [children]))]
  | record m key value ihKey ihValue =>
    simp only [validator, ihKey (hpart _ _ hs (by simp [children])),
      ihValue (hpart _ _ hs (by simp [children]))]
  | union m members ih =>
    simp only [validator, validators_eq_map]
    congr 1
    exact List.map_congr_left fun c hc => ih c hc (hpart _ _ hs hc)
  | intersection m members ih =>
    simp only [validator, validators_eq_map]
    congr 1
    exact List.map_congr_left fun c hc => ih c hc (hpart _ _ hs hc)
  | _ => rfl

/-- A schema without references runs the same however many references may lie on one path. -/
theorem Schema.validatorUpTo_congr {U : Schema → Prop}
    (hpart : ∀ s c, U s → c ∈ s.children → U c) (hlazy : ∀ s, U s → s.isLazy = false) {s : Schema}
    (hs : U s) (n : Nat) (resolve : Schema → Validator) :
    s.validatorUpTo n = s.validator resolve := by
  rw [validatorUpTo_eq]
  exact validator_congr hpart hlazy _ _ hs

/-- Runs without references are steady when the callables are. -/
theorem Context.Steadies.steadily {ctx : Context} {U : Schema → Prop} (h : ctx.Steadies U)
    {s : Schema} (hs : U s) (n : Nat) (x : Value) : Steadily (s.validatorUpTo n ctx (.fresh x)) :=
  (Manner.has_validatorUpTo h.closed h.serves n hs).run x

/-- What schemas without references return. -/
abbrev Context.Answers (ctx : Context) : Runs := fun s x d =>
  Returns (s.validatorUpTo 0 ctx (.fresh x)) (· = d)

/-- Without references, what a run yields is what it returns. -/
theorem Context.Steadies.answers {ctx : Context} {U : Schema → Prop} (h : ctx.Steadies U)
    {s : Schema} (hs : U s) {x : Value} {d : Dataset} (hd : ctx.Yields (fun _ => True) s x d) :
    ctx.Answers s x d := by
  obtain ⟨n, hd⟩ := hd
  have heq : s.validatorUpTo n = s.validatorUpTo 0 :=
    (Schema.validatorUpTo_congr (fun _ _ => h.part) (fun _ => h.lazy) hs n _).trans
      (Schema.validatorUpTo_eq 0 s).symm
  rw [heq] at hd
  exact returns_of_gives (h.steadily hs 0 x) hd

end Conform
