/-
  Conform/Proofs/Effect.lean
  ==========================
  **Laws of effects.**  What a computation gives is said without the worlds in
  between: it `Gives` a result when it returns it from some world, and what a
  sequence of computations gives comes from what each of them gives
  (`gives_bind`).

  The references that have been found are the one part of a world that decides
  how a run goes on.  A property `I` of them holds all along when every
  computation `Keeps` it.
-/
import Conform.Context

namespace Conform

@[simp] theorem within_pure {α : Type} (d : Dataset) (a : α) :
    within d (pure a : Effect α) = pure a := rfl

/-- An effect in the course of a run is run step by step like any other. -/
theorem within_bind {α β : Type} (d : Dataset) (e : Effect α) (f : α → Effect β) :
    within d (e >>= f) = within d e >>= fun a => within d (f a) := by
  funext w
  simp only [within, bind, ExceptT.bind, ExceptT.mk, StateT.bind]
  rcases e w with ⟨r | a, w'⟩ <;> rfl

theorem get_bind {α : Type} (f : World → Effect α) (w : World) : (get >>= f) w = f w w := rfl

theorem set_bind {α : Type} (v : World) (f : PUnit → Effect α) (w : World) :
    (set v >>= f) w = f ⟨⟩ v := rfl

/-- The references that have been found, by their numbers. -/
abbrev Found := List (Nat × Schema)

/-- A computation gives a result from some world in which `I` holds of what has been found. -/
def Gives (I : Found → Prop) {ε α : Type} (x : ExceptT ε (StateM World) α) (a : α) : Prop :=
  ∃ w w' : World, I w.resolved ∧ x w = (.ok a, w')

/-- Whatever a computation comes to, `I` goes on to hold. -/
def Keeps (I : Found → Prop) {ε α : Type} (x : ExceptT ε (StateM World) α) : Prop :=
  ∀ w : World, I w.resolved → I (x w).2.resolved

section

variable {I : Found → Prop} {ε α β : Type}

/-! ### Step by step -/

theorem pure_eq_ok {a b : α} {w u : World}
    (h : (pure a : ExceptT ε (StateM World) α) w = (.ok b, u)) : a = b ∧ w = u := by
  cases h
  exact ⟨rfl, rfl⟩

/-- A sequence goes on where its first part has ended. -/
theorem bind_of_eq_ok {x : ExceptT ε (StateM World) α} {f : α → ExceptT ε (StateM World) β}
    {a : α} {w v : World} (h : x w = (.ok a, v)) : (x >>= f) w = f a v := by
  simp only [bind, ExceptT.bind, ExceptT.mk, StateT.bind]
  rw [h]
  rfl

/-- A sequence ends where its first part ends with a fault. -/
theorem bind_of_eq_error {x : ExceptT ε (StateM World) α} {f : α → ExceptT ε (StateM World) β}
    {r : ε} {w u : World} (h : x w = (.error r, u)) : (x >>= f) w = (.error r, u) := by
  simp only [bind, ExceptT.bind, ExceptT.mk, StateT.bind]
  rw [h]
  rfl

/-- A sequence that ends without a fault consists of parts that do. -/
theorem bind_eq_ok {x : ExceptT ε (StateM World) α} {f : α → ExceptT ε (StateM World) β} {b : β}
    {w u : World} (h : (x >>= f) w = (.ok b, u)) :
    ∃ a v, x w = (.ok a, v) ∧ f a v = (.ok b, u) := by
  simp only [bind, ExceptT.bind, ExceptT.mk, StateT.bind] at h
  rcases hmid : x w with ⟨r | a, v⟩
  · rw [hmid] at h
    cases h
  · rw [hmid] at h
    exact ⟨a, v, rfl, h⟩

/-- A sequence that ends with a fault does so in its first part, or after it. -/
theorem bind_eq_error {x : ExceptT ε (StateM World) α} {f : α → ExceptT ε (StateM World) β} {r : ε}
    {w u : World} (h : (x >>= f) w = (.error r, u)) :
    x w = (.error r, u) ∨ ∃ a v, x w = (.ok a, v) ∧ f a v = (.error r, u) := by
  simp only [bind, ExceptT.bind, ExceptT.mk, StateT.bind] at h
  rcases hmid : x w with ⟨r' | a, v⟩
  · rw [hmid] at h
    cases h
    exact .inl rfl
  · rw [hmid] at h
    exact .inr ⟨a, v, rfl, h⟩

theorem within_apply (d : Dataset) (e : Effect α) (w : World) :
    within d e w = ((e w).1.mapError (Halt.mk · d), (e w).2) := by
  simp only [within, ExceptT.mk]
  rcases e w with ⟨f | a, v⟩ <;> rfl

theorem toEffect_apply (r : Run α) (w : World) :
    r.toEffect w = ((r w).1.mapError Halt.fault, (r w).2) := by
  simp only [Run.toEffect, ExceptT.mk]
  rcases r w with ⟨f | a, v⟩ <;> rfl

theorem within_of_eq_ok {e : Effect α} {a : α} {w u : World} (d : Dataset) (h : e w = (.ok a, u)) :
    within d e w = (.ok a, u) := by
  simp only [within, ExceptT.mk, h]

theorem within_eq_ok {d : Dataset} {e : Effect α} {a : α} {w u : World}
    (h : within d e w = (.ok a, u)) : e w = (.ok a, u) := by
  simp only [within, ExceptT.mk] at h
  rcases hmid : e w with ⟨r | b, v⟩
  · rw [hmid] at h
    cases h
  · rw [hmid] at h
    cases h
    rfl

theorem within_eq_error {d : Dataset} {e : Effect α} {r : Halt} {w u : World}
    (h : within d e w = (.error r, u)) : e w = (.error r.fault, u) := by
  simp only [within, ExceptT.mk] at h
  rcases hmid : e w with ⟨f | a, v⟩
  · rw [hmid] at h
    cases h
    rfl
  · rw [hmid] at h
    cases h

theorem toEffect_of_eq_ok {r : Run α} {a : α} {w u : World} (h : r w = (.ok a, u)) :
    r.toEffect w = (.ok a, u) := by
  simp only [Run.toEffect, ExceptT.mk, h]

theorem toEffect_eq_ok {r : Run α} {a : α} {w u : World} (h : r.toEffect w = (.ok a, u)) :
    r w = (.ok a, u) := by
  simp only [Run.toEffect, ExceptT.mk] at h
  rcases hmid : r w with ⟨e | b, v⟩
  · rw [hmid] at h
    cases h
  · rw [hmid] at h
    cases h
    rfl

/-! ### What is given -/

theorem gives_pure {a b : α} (h : Gives I (pure a : ExceptT ε (StateM World) α) b) : b = a := by
  obtain ⟨w, w', -, hrun⟩ := h
  cases hrun
  rfl

/-- What a computation comes to in some world where `I` holds. -/
theorem gives_of_fst {x : ExceptT ε (StateM World) α} {w : World} {a : α} (hI : I w.resolved)
    (h : (x w).1 = .ok a) : Gives I x a :=
  ⟨w, (x w).2, hI, Prod.ext h rfl⟩

theorem gives_throw {e : ε} {a : α} : ¬Gives I (throw e : ExceptT ε (StateM World) α) a := by
  rintro ⟨w, w', -, hrun⟩
  cases hrun

/-- What a sequence gives comes from what its parts give. -/
theorem gives_bind {x : ExceptT ε (StateM World) α} {f : α → ExceptT ε (StateM World) β} {b : β}
    (hx : Keeps I x) (h : Gives I (x >>= f) b) : ∃ a, Gives I x a ∧ Gives I (f a) b := by
  obtain ⟨w, w', hI, hrun⟩ := h
  obtain ⟨a, v, hmid, hrest⟩ := bind_eq_ok hrun
  have hkeep := hx w hI
  rw [hmid] at hkeep
  exact ⟨a, ⟨w, v, hI, hmid⟩, v, w', hkeep, hrest⟩

theorem gives_within {d : Dataset} {e : Effect α} {a : α} (h : Gives I (within d e) a) :
    Gives I e a := by
  obtain ⟨w, w', hI, hrun⟩ := h
  exact ⟨w, w', hI, within_eq_ok hrun⟩

theorem gives_ofExcept {r : Except Fault α} {a : α} (h : Gives I (Effect.ofExcept r) a) :
    r = .ok a := by
  obtain ⟨w, w', -, hrun⟩ := h
  exact congrArg Prod.fst hrun

theorem gives_withinExcept {d : Dataset} {r : Except Fault α} {a : α}
    (h : Gives I (withinExcept d r) a) : r = .ok a :=
  gives_ofExcept (gives_within h)

theorem gives_toEffect {r : Run α} {a : α} (h : Gives I r.toEffect a) : Gives I r a := by
  obtain ⟨w, w', hI, hrun⟩ := h
  exact ⟨w, w', hI, toEffect_eq_ok hrun⟩

/-- What a computation gives in some of the worlds it gives in all worlds together. -/
theorem Gives.free {x : ExceptT ε (StateM World) α} {a : α} (h : Gives I x a) :
    Gives (fun _ => True) x a := by
  obtain ⟨w, w', -, hrun⟩ := h
  exact ⟨w, w', trivial, hrun⟩

/-! ### What is kept -/

theorem keeps_pure (a : α) : Keeps I (pure a : ExceptT ε (StateM World) α) :=
  fun _ hI => hI

theorem keeps_throw (e : ε) : Keeps I (throw e : ExceptT ε (StateM World) α) :=
  fun _ hI => hI

theorem keeps_ofExcept (r : Except Fault α) : Keeps I (Effect.ofExcept r) :=
  fun _ hI => hI

theorem keeps_bind {x : ExceptT ε (StateM World) α} {f : α → ExceptT ε (StateM World) β}
    (hx : Keeps I x) (hf : ∀ a, Gives I x a → Keeps I (f a)) : Keeps I (x >>= f) := by
  intro w hI
  have hkeep := hx w hI
  simp only [bind, ExceptT.bind, ExceptT.mk, StateT.bind]
  rcases hmid : x w with ⟨r | a, v⟩
  · rw [hmid] at hkeep
    exact hkeep
  · rw [hmid] at hkeep
    exact hf a ⟨w, v, hI, hmid⟩ v hkeep

theorem keeps_within {e : Effect α} (d : Dataset) (h : Keeps I e) : Keeps I (within d e) := by
  intro w hI
  rw [within_apply]
  exact h w hI

theorem keeps_withinExcept (d : Dataset) (r : Except Fault α) : Keeps I (withinExcept d r) :=
  keeps_within d (keeps_ofExcept r)

theorem keeps_toEffect {r : Run α} (h : Keeps I r) : Keeps I r.toEffect := by
  intro w hI
  rw [toEffect_apply]
  exact h w hI

/-! ### Callables and reports -/

/-- Calling something finds no reference. -/
theorem keeps_invoke (ctx : Context) (callee : Value) (arguments : List Argument) :
    Keeps I (ctx.invoke callee arguments) := by
  intro w hI
  unfold Context.invoke
  split <;> exact hI

/-- Putting a finding into words finds no reference. -/
theorem keeps_report (ctx : Context) (own : Value) (f : Finding) :
    Keeps I (ctx.report own f) := by
  unfold Context.report
  refine keeps_bind (keeps_ofExcept _) fun text _ => keeps_bind (keeps_ofExcept _) fun own? _ => ?_
  dsimp only
  generalize (if own? then own else ctx.config.message) = custom
  split
  · exact keeps_pure _
  · split
    · exact keeps_bind (keeps_invoke ctx custom _) fun _ _ => keeps_pure _
    · exact keeps_pure _

/-- The message that a finding is reported with: the default text, unless the reporting schema or
the configuration has another. -/
def Context.Words (ctx : Context) (I : Found → Prop) (own : Value) (f : Finding)
    (message : Value) : Prop :=
  ∃ text hasOwn custom,
    Message.default ctx.translations ctx.config.language f.messageKey
      ⟨.str f.expects, .str f.received, f.requirement⟩ = .ok text ∧
    own.isTrue = .ok hasOwn ∧ custom = (if hasOwn then own else ctx.config.message) ∧
    if custom.isNull then message = .str text
    else if custom.isCallable then
      Gives I (ctx.invoke custom [.issue (f.toIssue (.str text))]) message
    else message = custom

/-- A report says what was found, in some words. -/
theorem gives_report {ctx : Context} {own : Value} {f : Finding} {i : Issue}
    (h : Gives I (ctx.report own f) i) :
    ∃ message, ctx.Words I own f message ∧ i = f.toIssue message := by
  unfold Context.report at h
  obtain ⟨text, htext, h⟩ := gives_bind (keeps_ofExcept _) h
  obtain ⟨hasOwn, hown, h⟩ := gives_bind (keeps_ofExcept _) h
  have htext := gives_ofExcept htext
  have hown := gives_ofExcept hown
  dsimp only at h
  generalize hcustom : (if hasOwn then own else ctx.config.message) = custom at h
  split at h
  · next hnull =>
    refine ⟨.str text, ⟨text, hasOwn, _, htext, hown, hcustom.symm, ?_⟩, gives_pure h⟩
    rw [if_pos hnull]
  · next hnull =>
    split at h
    · next hcallable =>
      obtain ⟨message, hmessage, h⟩ := gives_bind (keeps_invoke ctx _ _) h
      refine ⟨message, ⟨text, hasOwn, _, htext, hown, hcustom.symm, ?_⟩, gives_pure h⟩
      rw [if_neg hnull, if_pos hcallable]
      exact hmessage
    · next hcallable =>
      refine ⟨_, ⟨text, hasOwn, _, htext, hown, hcustom.symm, ?_⟩, gives_pure h⟩
      rw [if_neg hnull, if_neg hcallable]

/-- When the parts of a sequence have the same results in all worlds, so has the sequence. -/
theorem result_bind {x y : ExceptT ε (StateM World) α} {f : α → ExceptT ε (StateM World) β}
    (hx : ∀ w w', (x w).1 = (y w').1)
    (hf : ∀ a, Gives (fun _ => True) x a → ∀ w w', (f a w).1 = (f a w').1) (w w' : World) :
    ((x >>= f) w).1 = ((y >>= f) w').1 := by
  have hresult := hx w w'
  simp only [bind, ExceptT.bind, ExceptT.mk, StateT.bind]
  rcases hleft : x w with ⟨r | a, v⟩ <;> rcases hright : y w' with ⟨r' | a', v'⟩ <;>
    rw [hleft, hright] at hresult <;> cases hresult
  · rfl
  · exact hf a ⟨w, v, trivial, hleft⟩ v v'

/-- Two computations with the same result in all worlds give the same. -/
theorem gives_unique {x y : ExceptT ε (StateM World) α} (heq : ∀ w w', (x w).1 = (y w').1)
    {a b : α} (ha : Gives I x a) (hb : Gives I y b) : a = b := by
  obtain ⟨w, v, -, hrun⟩ := ha
  obtain ⟨w', v', -, hrun'⟩ := hb
  have hresult := heq w w'
  rw [hrun, hrun'] at hresult
  cases hresult
  rfl

end

end Conform
