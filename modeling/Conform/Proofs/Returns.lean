/-
  Conform/Proofs/Returns.lean
  ===========================
  **Computations that return.**  A computation `Returns` results with a property
  when it ends without a fault in every world, and what it ends with has the
  property; it is `Certain` of one result when it returns that in all worlds of some
  kind, which it does not leave; it `Faults` when it ends with a fault in every world.

  A run over the parts of a container returns when every step does and keeps an
  invariant, which may speak of the parts that are still to come (`returns_steps`).
-/
import Conform.Proofs.Gathering

namespace Conform

/-- In every world a computation ends without a fault, with a result that has a property. -/
def Returns {ε α : Type} (x : ExceptT ε (StateM World) α) (Q : α → Prop) : Prop :=
  ∀ w : World, ∃ a w', x w = (.ok a, w') ∧ Q a

section

variable {ε α β σ : Type} {Q R : α → Prop}

theorem Returns.mono {x : ExceptT ε (StateM World) α} (h : Returns x Q) (hQR : ∀ a, Q a → R a) :
    Returns x R := by
  intro w
  obtain ⟨a, w', hrun, ha⟩ := h w
  exact ⟨a, w', hrun, hQR a ha⟩

theorem returns_pure {a : α} (h : Q a) : Returns (pure a : ExceptT ε (StateM World) α) Q :=
  fun w => ⟨a, w, rfl, h⟩

theorem Returns.bind {x : ExceptT ε (StateM World) α} {f : α → ExceptT ε (StateM World) β}
    {R : β → Prop} (hx : Returns x Q) (hf : ∀ a, Q a → Returns (f a) R) :
    Returns (x >>= f) R := by
  intro w
  obtain ⟨a, w', hrun, ha⟩ := hx w
  obtain ⟨b, w'', hrest, hb⟩ := hf a ha w'
  exact ⟨b, w'', (bind_of_eq_ok hrun).trans hrest, hb⟩

theorem returns_ofExcept {r : Except Fault α} (h : ∃ a, r = .ok a ∧ Q a) :
    Returns (Effect.ofExcept r) Q := by
  obtain ⟨a, rfl, ha⟩ := h
  exact fun w => ⟨a, w, rfl, ha⟩

theorem Returns.within {e : Effect α} (h : Returns e Q) (d : Dataset) :
    Returns (within d e) Q := by
  intro w
  obtain ⟨a, w', hrun, ha⟩ := h w
  exact ⟨a, w', within_of_eq_ok d hrun, ha⟩

theorem returns_withinExcept {r : Except Fault α} (h : ∃ a, r = .ok a ∧ Q a) (d : Dataset) :
    Returns (withinExcept d r) Q :=
  (returns_ofExcept h).within d

theorem Returns.toEffect {r : Run α} (h : Returns r Q) : Returns r.toEffect Q := by
  intro w
  obtain ⟨a, w', hrun, ha⟩ := h w
  exact ⟨a, w', toEffect_of_eq_ok hrun, ha⟩

/-! ### One result -/

/-- In all worlds in which `I` holds a computation returns one result, and `I` goes on to hold. -/
def Certain (I : Found → Prop) {ε α : Type} (x : ExceptT ε (StateM World) α) (a : α) : Prop :=
  ∀ w : World, I w.resolved → ∃ u, x w = (.ok a, u) ∧ I u.resolved

section

variable {I : Found → Prop} {a : α}

/-- With nothing to hold, one result is returned in all worlds. -/
theorem certain_true {x : ExceptT ε (StateM World) α} :
    Certain (fun _ => True) x a ↔ Returns x (· = a) := by
  refine ⟨fun h w => ?_, fun h w _ => ?_⟩
  · obtain ⟨u, hrun, -⟩ := h w trivial
    exact ⟨a, u, hrun, rfl⟩
  · obtain ⟨b, u, hrun, rfl⟩ := h w
    exact ⟨u, hrun, trivial⟩

theorem certain_pure (a : α) : Certain I (pure a : ExceptT ε (StateM World) α) a :=
  fun w hI => ⟨w, rfl, hI⟩

/-- What is certain is what a computation comes to in any world where `I` holds. -/
theorem Certain.fst {x : ExceptT ε (StateM World) α} {w : World} (h : Certain I x a)
    (hI : I w.resolved) : (x w).1 = .ok a := by
  obtain ⟨u, hrun, -⟩ := h w hI
  exact congrArg Prod.fst hrun

theorem Certain.bind {x : ExceptT ε (StateM World) α} {f : α → ExceptT ε (StateM World) β} {b : β}
    (hx : Certain I x a) (hf : Certain I (f a) b) : Certain I (x >>= f) b := by
  intro w hI
  obtain ⟨v, hrun, hI'⟩ := hx w hI
  obtain ⟨u, hrest, hI''⟩ := hf v hI'
  exact ⟨u, (bind_of_eq_ok hrun).trans hrest, hI''⟩

theorem certain_ofExcept {r : Except Fault α} (h : r = .ok a) : Certain I (Effect.ofExcept r) a := by
  subst h
  exact fun w hI => ⟨w, rfl, hI⟩

theorem Certain.within {e : Effect α} (h : Certain I e a) (d : Dataset) :
    Certain I (within d e) a := by
  intro w hI
  obtain ⟨u, hrun, hI'⟩ := h w hI
  exact ⟨u, within_of_eq_ok d hrun, hI'⟩

theorem certain_withinExcept {r : Except Fault α} (h : r = .ok a) (d : Dataset) :
    Certain I (withinExcept d r) a :=
  (certain_ofExcept h).within d

theorem Certain.toEffect {r : Run α} (h : Certain I r a) : Certain I r.toEffect a := by
  intro w hI
  obtain ⟨u, hrun, hI'⟩ := h w hI
  exact ⟨u, toEffect_of_eq_ok hrun, hI'⟩

end

/-! ### Faults -/

/-- In every world a computation ends with a fault. -/
def Faults (x : ExceptT ε (StateM World) α) : Prop :=
  ∀ w : World, ∃ f w', x w = (.error f, w')

theorem Faults.bind {x : ExceptT ε (StateM World) α} (h : Faults x)
    (f : α → ExceptT ε (StateM World) β) : Faults (x >>= f) := by
  intro w
  obtain ⟨e, w', hrun⟩ := h w
  exact ⟨e, w', bind_of_eq_error hrun⟩

/-- A computation that returns, and then one that does not. -/
theorem Returns.faults {x : ExceptT ε (StateM World) α} {f : α → ExceptT ε (StateM World) β}
    (hx : Returns x Q) (hf : ∀ a, Q a → Faults (f a)) : Faults (x >>= f) := by
  intro w
  obtain ⟨a, w', hrun, ha⟩ := hx w
  obtain ⟨e, w'', hrest⟩ := hf a ha w'
  exact ⟨e, w'', (bind_of_eq_ok hrun).trans hrest⟩

theorem faults_ofExcept {r : Except Fault α} {f : Fault} (h : r = .error f) :
    Faults (Effect.ofExcept r) := by
  subst h
  exact fun w => ⟨f, w, rfl⟩

theorem Faults.within {e : Effect α} (h : Faults e) (d : Dataset) : Faults (within d e) := by
  intro w
  obtain ⟨f, w', hrun⟩ := h w
  exact ⟨⟨f, d⟩, w', by simp only [Conform.within, ExceptT.mk, hrun]⟩

theorem Faults.toEffect {r : Run α} (h : Faults r) : Faults r.toEffect := by
  intro w
  obtain ⟨f, w', hrun⟩ := h w
  exact ⟨f.fault, w', by simp only [Run.toEffect, ExceptT.mk, hrun]⟩

/-! ### Runs over parts -/

/-- What holds of a run over parts, as long as it goes on and when it has stopped. -/
def Progress.Holds (J : Gathering α → Prop) (K : Dataset → Prop) : Progress α → Prop
  | .going g => J g
  | .stopped d => K d

theorem Progress.Holds.mono {J J' : Gathering α → Prop} {K : Dataset → Prop} {p : Progress α}
    (h : p.Holds J K) (hJ : ∀ g, J g → J' g) : p.Holds J' K := by
  cases p with
  | going g => exact hJ g h
  | stopped d => exact h

theorem returns_steps {J : List σ → Gathering α → Prop} {K : Dataset → Prop}
    {step : σ → Gathering α → Run (Progress α)}
    (hstep : ∀ s rest g, J (s :: rest) g → Returns (step s g) (Progress.Holds (J rest) K))
    {xs : List σ} {g : Gathering α} (hg : J xs g) :
    Returns (Gathering.steps step xs g) (Progress.Holds (J []) K) := by
  induction xs generalizing g with
  | nil => exact returns_pure hg
  | cons s rest ih =>
    rw [Gathering.steps]
    refine (hstep s rest g hg).bind fun p hp => ?_
    cases p with
    | going g' => exact ih hp
    | stopped d => exact returns_pure hp

/-- An invariant that does not depend on the parts that are still to come. -/
theorem returns_each {E : σ → Prop} {J : Gathering α → Prop} {K : Dataset → Prop}
    {step : σ → Gathering α → Run (Progress α)}
    (hstep : ∀ s, E s → ∀ g, J g → Returns (step s g) (Progress.Holds J K)) {xs : List σ}
    (hxs : ∀ s ∈ xs, E s) {g : Gathering α} (hg : J g) :
    Returns (Gathering.steps step xs g) (Progress.Holds J K) := by
  refine (returns_steps (J := fun rest g => (∀ s ∈ rest, E s) ∧ J g) (K := K) ?_ ⟨hxs, hg⟩).mono
    fun p hp => hp.mono fun _ h => h.2
  rintro s rest g ⟨hrest, hg⟩
  rw [List.forall_mem_cons] at hrest
  exact (hstep s hrest.1 g hg).mono fun p hp => hp.mono fun _ h => ⟨hrest.2, h⟩

end

end Conform
