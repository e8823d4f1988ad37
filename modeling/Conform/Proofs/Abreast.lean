/-
  Conform/Proofs/Abreast.lean
  ===========================
  **Two runs abreast.**  Two computations that differ in the wording of messages,
  or in the validators of parts, are run from one world (`Abreast`).  A `Pairing`
  says how the issues of the two may differ; everything else that they come to is
  the same, and so are the worlds that they leave.

  A validator only hands issues on, so it keeps two runs paired when the
  validators of its parts do and its reports are paired.  `Schema.node` is one
  node of the validator of a schema, and `Pairing.node` is the law for it: it says
  on which values the validators of the parts are run.
-/
import Conform.Proofs.Acceptance

namespace Conform

/-! ### Computations abreast -/

/-- The results of two computations, and the worlds that they leave: related results and one world,
or related faults and one world.  If it is lenient, a fault of one computation need not be matched
by the other. -/
inductive Together (lenient : Prop) (I : Found → Prop) {ε α β : Type} (E : ε → ε → Prop)
    (R : α → β → Prop) : Except ε α × World → Except ε β × World → Prop where
  | done {a : α} {b : β} {w : World} : I w.resolved → R a b → Together lenient I E R (.ok a, w) (.ok b, w)
  | faulted {e f : ε} {w : World} : I w.resolved → E e f →
      Together lenient I E R (.error e, w) (.error f, w)
  | left {e : ε} {w : World} {q : Except ε β × World} : lenient →
      Together lenient I E R (.error e, w) q
  | right {f : ε} {w : World} {p : Except ε α × World} : lenient →
      Together lenient I E R p (.error f, w)

/-- Two computations, from one world in which `I` holds of what has been found. -/
def Abreast (lenient : Prop) (I : Found → Prop) {ε α β : Type} (E : ε → ε → Prop)
    (R : α → β → Prop) (x : ExceptT ε (StateM World) α) (y : ExceptT ε (StateM World) β) : Prop :=
  ∀ w : World, I w.resolved → Together lenient I E R (x w) (y w)

section

variable {lenient : Prop} {I : Found → Prop} {ε α β α' β' : Type} {E : ε → ε → Prop}
  {R : α → β → Prop} {Q : α' → β' → Prop}

theorem abreast_pure {a : α} {b : β} (h : R a b) :
    Abreast lenient I E R (pure a) (pure b) :=
  fun _ hI => .done hI h

theorem abreast_throw {e f : ε} (h : E e f) :
    Abreast lenient I E R (throw e) (throw f) :=
  fun _ hI => .faulted hI h

theorem abreast_bind {x : ExceptT ε (StateM World) α} {y : ExceptT ε (StateM World) β}
    {f : α → ExceptT ε (StateM World) α'} {g : β → ExceptT ε (StateM World) β'}
    (hxy : Abreast lenient I E R x y)
    (hfg : ∀ a b, R a b → Abreast lenient I E Q (f a) (g b)) :
    Abreast lenient I E Q (x >>= f) (y >>= g) := by
  intro w hI
  have hbeside := hxy w hI
  simp only [bind, ExceptT.bind, ExceptT.mk, StateT.bind]
  generalize x w = p at hbeside
  generalize y w = q at hbeside
  cases hbeside with
  | done hI' hab => exact hfg _ _ hab _ hI'
  | faulted hI' hef => exact .faulted hI' hef
  | left hlenient => exact .left hlenient
  | right hlenient => exact .right hlenient

theorem Abreast.mono {R' : α → β → Prop} {x : ExceptT ε (StateM World) α}
    {y : ExceptT ε (StateM World) β} (h : Abreast lenient I E R x y)
    (hmono : ∀ a b, R a b → R' a b) : Abreast lenient I E R' x y := by
  intro w hI
  have hbeside := h w hI
  generalize x w = p at hbeside
  generalize y w = q at hbeside
  cases hbeside with
  | done hI' hab => exact .done hI' (hmono _ _ hab)
  | faulted hI' hef => exact .faulted hI' hef
  | left hlenient => exact .left hlenient
  | right hlenient => exact .right hlenient

theorem abreast_self {x : ExceptT ε (StateM World) α} (hE : ∀ e, E e e) (hkeep : Keeps I x) :
    Abreast lenient I E (fun a b => a = b ∧ Gives I x a) x x := by
  intro w hI
  have hkept := hkeep w hI
  rcases hrun : x w with ⟨e | a, u⟩ <;> rw [hrun] at hkept
  · exact .faulted hkept (hE e)
  · exact .done hkept ⟨rfl, w, u, hI, hrun⟩

end

/-! ### Wordings -/

/-- What decides how issues are put into words. -/
structure Wording where
  language : Value
  message : Value
  translations : Translations

/-- The context with a wording. -/
def Context.worded (ctx : Context) (a : Wording) : Context :=
  { ctx with
    config := { ctx.config with language := a.language, message := a.message }
    translations := a.translations }

/-- The wording of a context. -/
def Context.wording (ctx : Context) : Wording :=
  ⟨ctx.config.language, ctx.config.message, ctx.translations⟩

@[simp] theorem Context.abortEarly_worded (ctx : Context) (a : Wording) :
    (ctx.worded a).config.abortEarly = ctx.config.abortEarly := rfl

@[simp] theorem Context.worded_wording (ctx : Context) : ctx.worded ctx.wording = ctx := rfl

/-- Signals that say the same, up to the reason for a failure. -/
inductive Signal.Paired (reason : Value → Value → Prop) :
    Validator.Signal → Validator.Signal → Prop where
  | asIs : Paired reason .asIs .asIs
  | replaced {v : Value} : Paired reason (.replaced v) (.replaced v)
  | failed {m n : Value} : reason m n → Paired reason (.failed m) (.failed n)

/-- A way in which the issues of two runs may differ, and the reasons that are taken from them. -/
structure Pairing where
  issue : Issue → Issue → Prop
  reason : Value → Value → Prop
  /-- A fault of one run need not be matched by the other. -/
  lenient : Prop
  under {i j : Issue} (key : Value) : issue i j → issue (i.under key) (j.under key)
  signal {i j : Issue} : issue i j → Signal.Paired reason (.ofMessage i.message) (.ofMessage j.message)

/-- The issue of an invalid key or value of a mapping is found by a schema of mappings. -/
def Finding.IsEntry (f : Finding) : Prop :=
  f.kind = "schema" ∧ (f.type = "map" ∨ f.type = "record")

namespace Pairing

variable (P : Pairing)

abbrev issues : List Issue → List Issue → Prop := List.Forall₂ P.issue

/-- Datasets that differ in their issues only. -/
structure Datasets (d e : Dataset) : Prop where
  status : d.status = e.status
  value : d.value = e.value
  issues : P.issues d.issues e.issues

/-- Faults that leave paired datasets. -/
structure Halts (h k : Halt) : Prop where
  fault : h.fault = k.fault
  dataset : P.Datasets h.dataset k.dataset

/-- Effects abreast. -/
abbrev Effects (I : Found → Prop) {α β : Type} (R : α → β → Prop) (x : Effect α)
    (y : Effect β) : Prop :=
  Abreast P.lenient I Eq R x y

/-- Runs abreast. -/
abbrev Runs (I : Found → Prop) {α β : Type} (R : α → β → Prop) (x : Run α)
    (y : Run β) : Prop :=
  Abreast P.lenient I P.Halts R x y

/-- What is reported with a message of a schema is paired: one finding, findings whose nested
issues are paired, and findings on entries whose requirements are paired. -/
structure Reports (ctx : Context) (a b : Wording) (I : Found → Prop) (own : Value) : Prop where
  same (f : Finding) : P.Effects I P.issue ((ctx.worded a).report own f) ((ctx.worded b).report own f)
  nested (f : Finding) {is js : List Issue} : P.issues is js →
    P.Effects I P.issue ((ctx.worded a).report own { f with reasons := some is })
      ((ctx.worded b).report own { f with reasons := some js })
  entry {f : Finding} {m n : Value} : f.IsEntry → P.reason m n →
    P.Effects I P.issue ((ctx.worded a).report own { f with requirement := m })
      ((ctx.worded b).report own { f with requirement := n })

/-- Two validators are abreast on a value. -/
def Validators (ctx : Context) (a b : Wording) (I : Found → Prop) (x : Value)
    (v v' : Validator) : Prop :=
  P.Runs I P.Datasets (v (ctx.worded a) (.fresh x)) (v' (ctx.worded b) (.fresh x))

/-- Contributions that differ in their issues only. -/
structure Contributions {α : Type} (c c' : Contribution α) : Prop where
  issues : P.issues c.issues c'.issues
  typed : c.typed = c'.typed
  put : c.put = c'.put

/-- What has been gathered differs in the issues only. -/
structure Gatherings {α : Type} (g h : Gathering α) : Prop where
  dataset : P.Datasets g.dataset h.dataset
  output : g.output = h.output
  typed : g.typed = h.typed

/-- Both runs go on, or both have stopped. -/
inductive Progresses {α : Type} : Progress α → Progress α → Prop where
  | going {g h : Gathering α} : P.Gatherings g h → Progresses (.going g) (.going h)
  | stopped {d e : Dataset} : P.Datasets d e → Progresses (.stopped d) (.stopped e)

section

variable {P} {ctx : Context} {a b : Wording} {I : Found → Prop}

/-! ### Effects and runs -/

theorem effect_self {α : Type} {x : Effect α} (hkeep : Keeps I x) :
    P.Effects I (fun r s => r = s ∧ Gives I x r) x x :=
  abreast_self (fun _ => rfl) hkeep

theorem effect_same {α : Type} {x : Effect α} (hkeep : Keeps I x) :
    P.Effects I Eq x x :=
  (effect_self hkeep).mono fun _ _ h => h.1

theorem run_within {α β : Type} {R : α → β → Prop} {x : Effect α} {y : Effect β}
    {d e : Dataset} (hde : P.Datasets d e) (h : P.Effects I R x y) :
    P.Runs I R (within d x) (within e y) := by
  intro w hI
  have hbeside := h w hI
  simp only [within, ExceptT.mk]
  generalize x w = p at hbeside
  generalize y w = q at hbeside
  cases hbeside with
  | done hI' hab => exact .done hI' hab
  | faulted hI' heq => exact .faulted hI' ⟨heq, hde⟩
  | left hlenient => exact .left hlenient
  | right hlenient => exact .right hlenient

theorem run_withinExcept {α : Type} (r : Except Fault α) {d e : Dataset}
    (hde : P.Datasets d e) : P.Runs I Eq (withinExcept d r) (withinExcept e r) :=
  run_within hde (effect_same (keeps_ofExcept r))

theorem effect_toEffect {α β : Type} {R : α → β → Prop} {x : Run α} {y : Run β}
    (h : P.Runs I R x y) : P.Effects I R x.toEffect y.toEffect := by
  intro w hI
  have hbeside := h w hI
  simp only [Run.toEffect, ExceptT.mk]
  generalize x w = p at hbeside
  generalize y w = q at hbeside
  cases hbeside with
  | done hI' hab => exact .done hI' hab
  | faulted hI' hhalt => exact .faulted hI' hhalt.fault
  | left hlenient => exact .left hlenient
  | right hlenient => exact .right hlenient

theorem Validators.apply {x : Value} {v v' : Validator} (h : P.Validators ctx a b I x v v') :
    P.Effects I P.Datasets (v.apply (ctx.worded a) x) (v'.apply (ctx.worded b) x) :=
  effect_toEffect h

/-! ### Datasets -/

theorem issues_append {is is' js js' : List Issue} (h : P.issues is js) (h' : P.issues is' js') :
    P.issues (is ++ is') (js ++ js') :=
  List.rel_append h h'

theorem issues_under {is js : List Issue} (h : P.issues is js) (key : Value) :
    P.issues (is.map (·.under key)) (js.map (·.under key)) := by
  induction h with
  | nil => exact .nil
  | cons hij _ ih => exact .cons (P.under key hij) ih

theorem isEmpty_eq {is js : List Issue} (h : P.issues is js) : is.isEmpty = js.isEmpty := by
  cases h <;> rfl

namespace Datasets

variable {d e : Dataset}

theorem fresh (x : Value) : P.Datasets (.fresh x) (.fresh x) := ⟨rfl, rfl, .nil⟩

theorem isTyped (h : P.Datasets d e) : d.isTyped = e.isTyped :=
  congrArg Status.isTyped h.status

theorem isEmpty (h : P.Datasets d e) : d.issues.isEmpty = e.issues.isEmpty :=
  isEmpty_eq h.issues

theorem addAll (h : P.Datasets d e) {is js : List Issue} (hij : P.issues is js) :
    P.Datasets (d.addAll is) (e.addAll js) :=
  ⟨h.status, h.value, issues_append h.issues hij⟩

theorem failWith (h : P.Datasets d e) {i j : Issue} (hij : P.issue i j) :
    P.Datasets (d.failWith i) (e.failWith j) :=
  ⟨rfl, h.value, issues_append h.issues (.cons hij .nil)⟩

theorem violate (h : P.Datasets d e) (stop : Bool) {i j : Issue} (hij : P.issue i j) :
    P.Datasets (d.violate stop i) (e.violate stop j) := by
  refine ⟨?_, ?_, ?_⟩
  · simp
  · simpa using h.value
  · simpa using issues_append h.issues (.cons hij .nil)

theorem succeed (h : P.Datasets d e) (v : Value) : P.Datasets (d.succeed v) (e.succeed v) :=
  ⟨rfl, rfl, h.issues⟩

theorem succeedPartly (h : P.Datasets d e) (v : Value) :
    P.Datasets (d.succeedPartly v) (e.succeedPartly v) :=
  ⟨rfl, rfl, h.issues⟩

theorem giveUp (h : P.Datasets d e) :
    P.Runs I P.Datasets (Validator.giveUp d) (Validator.giveUp e) := by
  refine run_within h ?_
  unfold Dataset.fail
  rw [h.isEmpty]
  split
  · exact abreast_throw rfl
  · exact abreast_pure ⟨rfl, h.value, h.issues⟩

theorem finish (h : P.Datasets d e) (output : Value) (typed : Bool) :
    P.Runs I P.Datasets (withinExcept d (d.finish output typed))
      (withinExcept e (e.finish output typed)) := by
  unfold Dataset.finish
  rw [h.isEmpty]
  split
  · exact run_within h (abreast_pure (h.succeed output))
  · split
    · exact run_within h (abreast_pure (h.succeedPartly output))
    · exact h.giveUp

end Datasets

/-! ### Gathering -/

theorem Datasets.contribution {α : Type} {d e : Dataset} (h : P.Datasets d e) (key : Value)
    (put : Value → α → α) : P.Contributions (d.contribution key put) (e.contribution key put) := by
  refine ⟨issues_under h.issues key, h.isTyped, ?_⟩
  simp only [Dataset.contribution, h.value]

theorem Gatherings.start {α : Type} (x : Value) (output : α) :
    P.Gatherings (.start (.fresh x) output) (.start (.fresh x) output) :=
  ⟨.fresh x, rfl, rfl⟩

/-- What paired parts bring is taken in alike. -/
theorem Gatherings.receive {α : Type} {g h : Gathering α} (hgh : P.Gatherings g h)
    {c c' : Contribution α} (hc : P.Contributions c c') :
    P.Progresses (g.receive (ctx.worded a) c) (h.receive (ctx.worded b) c') := by
  unfold Gathering.receive
  rw [isEmpty_eq hc.issues, hc.typed, hc.put, hgh.output, hgh.typed, ctx.abortEarly_worded,
    ctx.abortEarly_worded]
  split
  · exact .stopped (hgh.dataset.addAll hc.issues)
  · exact .going ⟨hgh.dataset.addAll hc.issues, rfl, rfl⟩

theorem Gatherings.addIssue {α : Type} {g h : Gathering α} (hgh : P.Gatherings g h) {i j : Issue}
    (hij : P.issue i j) : P.Progresses (g.addIssue (ctx.worded a) i) (h.addIssue (ctx.worded b) j) := by
  rw [Gathering.addIssue_eq_receive, Gathering.addIssue_eq_receive]
  exact hgh.receive ⟨.cons hij .nil, rfl, rfl⟩

theorem Gatherings.take {α : Type} {g h : Gathering α} (hgh : P.Gatherings g h) {d e : Dataset}
    (hde : P.Datasets d e) (key : Value) (put : Value → α → α) :
    P.Progresses (g.take (ctx.worded a) key d put) (h.take (ctx.worded b) key e put) := by
  rw [Gathering.take_eq_receive, Gathering.take_eq_receive]
  exact hgh.receive (hde.contribution key put)

/-- Steps over parts that are paired one by one. -/
theorem runs_steps {α σ τ : Type} {step : σ → Gathering α → Run (Progress α)}
    {step' : τ → Gathering α → Run (Progress α)} {xs : List σ} {ys : List τ}
    (hsteps : List.Forall₂ (fun s t => ∀ g h, P.Gatherings g h →
      P.Runs I P.Progresses (step s g) (step' t h)) xs ys)
    {g h : Gathering α} (hgh : P.Gatherings g h) :
    P.Runs I P.Progresses (Gathering.steps step xs g) (Gathering.steps step' ys h) := by
  induction hsteps generalizing g h with
  | nil => exact abreast_pure (.going hgh)
  | cons hstep _ ih =>
    refine abreast_bind (hstep _ _ hgh) fun p q hpq => ?_
    cases hpq with
    | going hgh' => exact ih hgh'
    | stopped hde => exact abreast_pure (.stopped hde)

theorem Progresses.finish {α : Type} (make : α → Except Fault Value) {p q : Progress α}
    (hpq : P.Progresses p q) : P.Runs I P.Datasets (p.finish make) (q.finish make) := by
  cases hpq with
  | stopped hde => exact hde.giveUp
  | going hgh =>
    unfold Progress.finish
    dsimp only
    rw [hgh.output, hgh.typed]
    refine abreast_bind (run_withinExcept _ hgh.dataset) fun output output' heq => ?_
    rw [heq]
    exact hgh.dataset.finish _ _

end

end Pairing

end Conform
