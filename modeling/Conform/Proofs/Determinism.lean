/-
  Conform/Proofs/Determinism.lean
  ===============================
  **Runs have one outcome.**  When callables are steady and it is settled where
  references lead, what a run comes to depends on the schema and the value alone:
  not on the world in which it starts, and not on how many references may lie on
  one path (`Context.Definite.unique`).  A run that ends without a fault in one
  world does so in all of them (`Alike.certain`).
-/
import Conform.Proofs.Levels

namespace Conform

/-- In all worlds in which `I` holds a computation returns the same, or in all of them it ends with
some fault. -/
structure Alike (I : Found → Prop) {ε α : Type} (x : ExceptT ε (StateM World) α) : Prop where
  keeps : Keeps I x
  result : ∀ w w' : World, I w.resolved → I w'.resolved →
    (x w).1.toOption = (x w').1.toOption

section

variable {I : Found → Prop} {ε α β : Type} {x : ExceptT ε (StateM World) α} {a b : α}

/-- What is given in one of the worlds is returned in all. -/
theorem Alike.certain (hx : Alike I x) (h : Gives I x a) : Certain I x a := by
  intro w hI
  obtain ⟨u, u', hI', hrun⟩ := h
  have hresult := hx.result w u hI hI'
  have hkeep := hx.keeps w hI
  rw [hrun] at hresult
  rcases hmid : x w with ⟨r | b, v⟩ <;> rw [hmid] at hresult hkeep
  · cases hresult
  · cases hresult
    exact ⟨v, rfl, hkeep⟩

theorem Alike.unique (hx : Alike I x) (ha : Gives I x a) (hb : Gives I x b) : a = b := by
  obtain ⟨w, v, hI, hrun⟩ := hb
  obtain ⟨u, hrun', -⟩ := hx.certain ha w hI
  cases hrun'.symm.trans hrun
  rfl

theorem alike_bind {f : α → ExceptT ε (StateM World) β} (hx : Alike I x)
    (hf : ∀ a, Gives I x a → Alike I (f a)) : Alike I (x >>= f) := by
  refine ⟨keeps_bind hx.keeps fun a ha => (hf a ha).keeps, fun w w' hI hI' => ?_⟩
  have hresult := hx.result w w' hI hI'
  have hkeep := hx.keeps w hI
  have hkeep' := hx.keeps w' hI'
  rcases hleft : x w with ⟨r | a, v⟩ <;> rcases hright : x w' with ⟨r' | a', v'⟩ <;>
    rw [hleft, hright] at hresult <;> cases hresult
  · rw [bind_of_eq_error hleft, bind_of_eq_error hright]
    rfl
  · rw [hleft] at hkeep
    rw [hright] at hkeep'
    rw [bind_of_eq_ok hleft, bind_of_eq_ok hright]
    exact (hf a ⟨w, v, hI, hleft⟩).result v v' hkeep hkeep'

theorem toOption_within (d : Dataset) (e : Effect α) (w : World) :
    (within d e w).1.toOption = (e w).1.toOption := by
  rw [within_apply]
  rcases (e w).1 with f | a <;> rfl

theorem toOption_toEffect (r : Run α) (w : World) :
    (r.toEffect w).1.toOption = (r w).1.toOption := by
  rw [toEffect_apply]
  rcases (r w).1 with h | a <;> rfl

end

/-- The manner of coming to the same in all worlds in which `I` holds. -/
def Manner.alike (I : Found → Prop) : Manner I where
  effect x := Alike I x
  run x := Alike I x
  ofExcept {_ r} _ := ⟨keeps_ofExcept r, fun _ _ _ _ => rfl⟩
  bind hx hf := alike_bind hx hf
  bindRun hx hf := alike_bind hx hf
  within {_ e} d he := ⟨keeps_within d he.keeps, fun w w' hI hI' => by
    rw [toOption_within, toOption_within]
    exact he.result w w' hI hI'⟩
  toEffect {_ r} hr := ⟨keeps_toEffect hr.keeps, fun w w' hI hI' => by
    rw [toOption_toEffect, toOption_toEffect]
    exact hr.result w w' hI hI'⟩

theorem alike_invoke {ctx : Context} {I : Found → Prop} {callee : Value} (h : ctx.Steady callee)
    (arguments : List Argument) : Alike I (ctx.invoke callee arguments) :=
  ⟨keeps_invoke ctx callee arguments, fun w w' _ _ => congrArg Except.toOption (h arguments w w')⟩

/-- Following a reference gives what is behind it, if there is something. -/
theorem toOption_force (ctx : Context) (id : Nat) (getter : Getter) (w : World) :
    (ctx.force id getter w).1.toOption = ctx.behind? w.resolved id getter := by
  unfold Context.force Context.behind?
  rw [get_bind]
  cases hfound : w.resolved.lookup id with
  | some s => rfl
  | none =>
    cases getter with
    | definition name =>
      dsimp only
      rw [set_bind]
      cases ctx.definitions.lookup name with
      | none => rfl
      | some given => cases given <;> rfl
    | callable callee =>
      simp only [bind, ExceptT.bind, ExceptT.mk, StateT.bind]
      rcases ctx.invoke callee [] w with ⟨f | v, w'⟩ <;> rfl

/-! ### Schemas with pure callables -/

/-- What the schemas among `U` and the configuration call answers the same whenever it is called. -/
structure Context.PureCalls (ctx : Context) (U : Schema → Prop) : Prop where
  calls {s : Schema} : U s → ∀ callee ∈ s.callees, ctx.Steady callee
  config : ctx.Steady ctx.config.message

/-- Schemas with pure callables, among which a run stays, and whose references lead to one schema as
long as `I` holds. -/
structure Context.Definite (ctx : Context) (I : Found → Prop) (U : Schema → Prop) : Prop where
  closed : ctx.Closed I U
  pureCalls : ctx.PureCalls U
  force {m : Value} {id : Nat} {getter : Getter} : U (.lazy m id getter) →
    Alike I (ctx.force id getter)

theorem Context.definite_of_pins {ctx : Context} {U : Schema → Prop} {earlier : Found}
    (hpure : ctx.PureCalls U) (hapart : Schema.NumberedApart U)
    (hpart : ∀ s c, U s → c ∈ s.children → U c) (hleads : ctx.Leads U earlier) :
    ctx.Definite (ctx.Pins U earlier) U where
  closed := ctx.closed_of_pins hapart hpart hleads
  pureCalls := hpure
  force hs := ⟨(ctx.closed_of_pins hapart hpart hleads).keeps hs, fun w w' hI hI' => by
    rw [toOption_force, toOption_force, hI _ _ _ hs, hI' _ _ _ hs]⟩

/-- What a run can reach has pure callables, and its references lead where they lead from the start. -/
theorem Context.definite_reaches {ctx : Context} {s : Schema} {found : Found}
    (hpure : ctx.PureCalls (ctx.Reaches found s)) (hapart : Schema.NumberedApart (ctx.Reaches found s)) :
    ctx.Definite (ctx.Pins (ctx.Reaches found s) found) (ctx.Reaches found s) :=
  definite_of_pins hpure hapart (fun _ _ ht hc => .part ht hc) (ctx.leads_reaches found s)

/-- The runs agree, unless one of them ends with a fault. -/
def Pairing.agreeing : Pairing := { Pairing.exact with lenient := True }

theorem reports_agreeing {ctx : Context} {I : Found → Prop} (own : Value) :
    Pairing.agreeing.Reports ctx ctx.wording ctx.wording I own where
  same f := Pairing.effect_same (keeps_report ctx own f)
  nested f is js hij := by
    rw [eq_of_issues hij]
    exact Pairing.effect_same (keeps_report ctx own _)
  entry {f m n} _ hmn := by
    rw [show m = n from hmn]
    exact Pairing.effect_same (keeps_report ctx own _)

namespace Context.Definite

variable {ctx : Context} {I : Found → Prop} {U : Schema → Prop} (h : ctx.Definite I U)

include h

theorem serves : (Manner.alike I).Serves ctx U where
  calls hs callee hcallee := alike_invoke (h.pureCalls.calls hs callee hcallee)
  config := alike_invoke h.pureCalls.config
  force hs := h.force hs
  members _ := .inr fun r => ⟨keeps_ofExcept r, fun _ _ _ _ => rfl⟩

theorem report {s : Schema} (hs : U s) (f : Finding) : Alike I (ctx.report s.message f) :=
  Manner.report h.serves.config (h.serves.calls hs _ s.message_mem_callees) f

/-- The validator of a schema comes to the same in all worlds. -/
theorem has {s : Schema} (hs : U s) (n : Nat) : (Manner.alike I).Has ctx (s.validatorUpTo n) :=
  Manner.has_validatorUpTo h.closed h.serves n hs

/-- What a schema yields on a value is determined. -/
theorem unique {s : Schema} (hs : U s) {x : Value} {d e : Dataset} (hd : ctx.Yields I s x d)
    (he : ctx.Yields I s x e) : d = e := by
  obtain ⟨n, hd⟩ := hd
  obtain ⟨n', w, v, hI, he⟩ := he
  -- both runs in one world, where they may follow differently many references
  obtain ⟨u, hd, -⟩ := ((h.has hs n).run x).certain hd w hI
  have hbeside := Pairing.validators_upTo (P := .agreeing) trivial h.closed
    (fun t _ => reports_agreeing t.message) n n' hs x w hI
  rw [ctx.worded_wording, hd, he] at hbeside
  cases hbeside with
  | done _ hde => exact eq_of_datasets ⟨hde.status, hde.value, hde.issues⟩

end Context.Definite

end Conform
