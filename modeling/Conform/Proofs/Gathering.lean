/-
  Conform/Proofs/Gathering.lean
  =============================
  **Laws of gathering.**  Whatever a container has for parts, each of them
  brings the same kind of thing to what is gathered (`Contribution`), and what
  becomes of it is decided in one place (`Gathering.receive`).  A run over the
  parts is a `Path`: the contributions one after another, up to the first one
  that stops it.
-/
import Conform.Validator.Gathering
import Conform.Proofs.Effect

namespace Conform

/-- What a part brings: issues, whether it is typed, and what it writes if it is. -/
structure Contribution (α : Type) where
  issues : List Issue
  typed : Bool
  put : α → α

/-- What has become of the dataset so far. -/
def Progress.dataset {α : Type} : Progress α → Dataset
  | .going g => g.dataset
  | .stopped d => d

namespace Gathering

variable {α σ τ : Type}

/-- Takes a contribution in. -/
def receive (g : Gathering α) (ctx : Context) (c : Contribution α) : Progress α :=
  if !c.issues.isEmpty && ctx.config.abortEarly then .stopped (g.dataset.addAll c.issues)
  else .going ⟨g.dataset.addAll c.issues, if c.typed then c.put g.output else g.output,
    g.typed && c.typed⟩

theorem addIssue_eq_receive (g : Gathering α) (ctx : Context) (i : Issue) :
    g.addIssue ctx i = g.receive ctx ⟨[i], false, id⟩ := by
  cases h : ctx.config.abortEarly <;> simp [addIssue, receive, h, Dataset.add, Dataset.addAll]

theorem take_eq_receive (g : Gathering α) (ctx : Context) (key : Value) (part : Dataset)
    (put : Value → α → α) :
    g.take ctx key part put =
      g.receive ctx ⟨part.issues.map (·.under key), part.isTyped, put part.value⟩ := by
  cases h : part.isTyped <;>
    simp [take, receive, Dataset.absorb, h, Bool.and_comm]

/-- A contribution without issues is taken in whatever the configuration. -/
theorem receive_of_clean {g : Gathering α} {ctx : Context} {c : Contribution α}
    (h : c.issues = []) :
    g.receive ctx c =
      .going ⟨g.dataset, if c.typed then c.put g.output else g.output, g.typed && c.typed⟩ := by
  simp [receive, h, Dataset.addAll]

/-- Without early abort every contribution is taken in. -/
theorem receive_of_full {ctx : Context} (h : ctx.config.abortEarly = false) (g : Gathering α)
    (c : Contribution α) :
    g.receive ctx c =
      .going ⟨g.dataset.addAll c.issues, if c.typed then c.put g.output else g.output,
        g.typed && c.typed⟩ := by
  simp [receive, h]

/-- With early abort a contribution with issues is the last. -/
theorem receive_of_early {ctx : Context} (h : ctx.config.abortEarly = true) (g : Gathering α)
    {c : Contribution α} (hissues : c.issues ≠ []) :
    g.receive ctx c = .stopped (g.dataset.addAll c.issues) := by
  simp [receive, h, hissues]

/-! ### Runs over parts -/

/-- A run over parts, each of which brings something. -/
inductive Path (ctx : Context) (brings : σ → Contribution α → Prop) :
    List σ → Gathering α → Progress α → Prop where
  | done {g : Gathering α} : Path ctx brings [] g (.going g)
  | next {s : σ} {rest : List σ} {c : Contribution α} {g g' : Gathering α} {p : Progress α} :
    brings s c → g.receive ctx c = .going g' → Path ctx brings rest g' p →
      Path ctx brings (s :: rest) g p
  | stop {s : σ} {rest : List σ} {c : Contribution α} {g : Gathering α} {d : Dataset} :
    brings s c → g.receive ctx c = .stopped d → Path ctx brings (s :: rest) g (.stopped d)

theorem keeps_steps {I : Found → Prop} {step : σ → Gathering α → Run (Progress α)} {xs : List σ}
    (hkeep : ∀ s ∈ xs, ∀ g, Keeps I (step s g)) (g : Gathering α) :
    Keeps I (steps step xs g) := by
  induction xs generalizing g with
  | nil => exact keeps_pure _
  | cons s rest ih =>
    rw [List.forall_mem_cons] at hkeep
    rw [steps]
    refine keeps_bind (hkeep.1 g) fun p _ => ?_
    cases p with
    | going g' => exact ih hkeep.2 g'
    | stopped d => exact keeps_pure _

/-- Steps that take in what their parts bring make a path. -/
theorem gives_steps {I : Found → Prop} {ctx : Context} {brings : σ → Contribution α → Prop}
    {step : σ → Gathering α → Run (Progress α)} {xs : List σ}
    (hkeep : ∀ s ∈ xs, ∀ g, Keeps I (step s g))
    (hstep : ∀ s ∈ xs, ∀ g p, Gives I (step s g) p → ∃ c, brings s c ∧ p = g.receive ctx c)
    {g : Gathering α} {p : Progress α} (h : Gives I (steps step xs g) p) :
    Path ctx brings xs g p := by
  induction xs generalizing g with
  | nil =>
    rw [gives_pure h]
    exact .done
  | cons s rest ih =>
    rw [List.forall_mem_cons] at hkeep hstep
    rw [steps] at h
    obtain ⟨q, hq, h⟩ := gives_bind (hkeep.1 g) h
    obtain ⟨c, hc, rfl⟩ := hstep.1 g q hq
    cases hreceive : g.receive ctx c with
    | going g' =>
      rw [hreceive] at h
      exact .next hc hreceive (ih hkeep.2 hstep.2 h)
    | stopped d =>
      rw [hreceive] at h
      rw [gives_pure h]
      exact .stop hc hreceive

/-- What every step keeps that goes on holds when all steps have gone on. -/
theorem going_of_steps {I : Found → Prop} {J : List σ → Gathering α → Prop}
    {step : σ → Gathering α → Run (Progress α)} {xs : List σ}
    (hkeep : ∀ s ∈ xs, ∀ g, Keeps I (step s g))
    (hstep : ∀ s rest g g', J (s :: rest) g → Gives I (step s g) (.going g') → J rest g')
    {g g' : Gathering α} (h : Gives I (steps step xs g) (.going g')) (hg : J xs g) : J [] g' := by
  induction xs generalizing g with
  | nil =>
    cases gives_pure h
    exact hg
  | cons s rest ih =>
    rw [List.forall_mem_cons] at hkeep
    rw [steps] at h
    obtain ⟨q, hq, h⟩ := gives_bind (hkeep.1 g) h
    cases q with
    | going g₁ => exact ih hkeep.2 h (hstep s rest g g₁ hg hq)
    | stopped d => cases gives_pure h

/-! ### The end of a container -/

theorem keeps_giveUp {I : Found → Prop} (d : Dataset) : Keeps I (Validator.giveUp d) :=
  keeps_withinExcept d _

/-- Giving up leaves the issues, of which there are some. -/
theorem gives_giveUp {I : Found → Prop} {d e : Dataset} (h : Gives I (Validator.giveUp d) e) :
    d.issues ≠ [] ∧ e = { d with status := .failure } :=
  Dataset.fail_eq_ok_iff.mp (gives_withinExcept h)

theorem keeps_finish {I : Found → Prop} (make : α → Except Fault Value) (p : Progress α) :
    Keeps I (p.finish make) := by
  cases p with
  | going g => exact keeps_bind (keeps_withinExcept _ _) fun _ _ => keeps_withinExcept _ _
  | stopped d => exact keeps_giveUp d

/-- The end of a container without a fault: its issues are kept, it is valid when there are none,
and it has failed when it was stopped. -/
inductive Finished (make : α → Except Fault Value) : Progress α → Dataset → Prop where
  | stopped {d : Dataset} : d.issues ≠ [] → Finished make (.stopped d) { d with status := .failure }
  | valid {g : Gathering α} {output : Value} : g.dataset.issues = [] → make g.output = .ok output →
      Finished make (.going g) (g.dataset.succeed output)
  | partly {g : Gathering α} {output : Value} : g.dataset.issues ≠ [] → g.typed = true →
      make g.output = .ok output → Finished make (.going g) (g.dataset.succeedPartly output)
  | failed {g : Gathering α} {output : Value} : g.dataset.issues ≠ [] → g.typed = false →
      make g.output = .ok output → Finished make (.going g) { g.dataset with status := .failure }

theorem gives_finish {I : Found → Prop} {make : α → Except Fault Value} {p : Progress α}
    {d : Dataset} (h : Gives I (p.finish make) d) : Finished make p d := by
  cases p with
  | stopped d₀ =>
    obtain ⟨hissues, rfl⟩ := gives_giveUp h
    exact .stopped hissues
  | going g =>
    obtain ⟨output, hmake, h⟩ := gives_bind (keeps_withinExcept _ _) h
    have hmake := gives_withinExcept hmake
    have hfinish := gives_withinExcept h
    unfold Dataset.finish at hfinish
    split at hfinish
    · next hissues =>
      cases hfinish
      exact .valid (List.isEmpty_iff.mp hissues) hmake
    · next hissues =>
      rw [List.isEmpty_iff] at hissues
      split at hfinish
      · next htyped =>
        cases hfinish
        exact .partly hissues htyped hmake
      · next htyped =>
        obtain ⟨-, rfl⟩ := Dataset.fail_eq_ok_iff.mp hfinish
        exact .failed hissues (Bool.eq_false_iff.mpr htyped) hmake

/-! ### What is gathered along a path -/

@[simp] theorem value_receive (g : Gathering α) (ctx : Context) (c : Contribution α) :
    (g.receive ctx c).dataset.value = g.dataset.value := by
  unfold receive
  split <;> rfl

theorem dataset_receive (g : Gathering α) (ctx : Context) (c : Contribution α) :
    (g.receive ctx c).dataset = g.dataset.addAll c.issues := by
  unfold receive
  split <;> rfl

/-- The value stays the one that the container was given. -/
theorem value_of_path {ctx : Context} {brings : σ → Contribution α → Prop} {xs : List σ}
    {g : Gathering α} {p : Progress α} (h : Path ctx brings xs g p) :
    p.dataset.value = g.dataset.value := by
  induction h with
  | done => rfl
  | @next s rest c g g' p _ hreceive _ ih =>
    have hvalue := value_receive g ctx c
    rw [hreceive] at hvalue
    exact ih.trans hvalue
  | @stop s rest c g d _ hreceive =>
    have hvalue := value_receive g ctx c
    rw [hreceive] at hvalue
    exact hvalue

/-- Every issue at the end of a path was there before, or some part has brought it. -/
theorem issue_of_path {ctx : Context} {brings : σ → Contribution α → Prop} {xs : List σ}
    {g : Gathering α} {p : Progress α} (h : Path ctx brings xs g p) {i : Issue}
    (hi : i ∈ p.dataset.issues) :
    i ∈ g.dataset.issues ∨ ∃ s ∈ xs, ∃ c, brings s c ∧ i ∈ c.issues := by
  induction h with
  | done => exact .inl hi
  | @next s rest c g g' p hc hreceive _ ih =>
    have hdataset := dataset_receive g ctx c
    rw [hreceive] at hdataset
    rcases ih hi with hmem | ⟨t, ht, c', hc', hmem⟩
    · rw [show g'.dataset = _ from hdataset] at hmem
      rcases List.mem_append.mp hmem with hmem | hmem
      · exact .inl hmem
      · exact .inr ⟨s, List.mem_cons_self, c, hc, hmem⟩
    · exact .inr ⟨t, List.mem_cons_of_mem s ht, c', hc', hmem⟩
  | @stop s rest c g d hc hreceive =>
    have hdataset := dataset_receive g ctx c
    rw [hreceive] at hdataset
    rw [show d = _ from hdataset] at hi
    rcases List.mem_append.mp hi with hmem | hmem
    · exact .inl hmem
    · exact .inr ⟨s, List.mem_cons_self, c, hc, hmem⟩

/-- Gathering goes on with all that a contribution has brought. -/
theorem eq_of_receive {g g' : Gathering α} {ctx : Context} {c : Contribution α}
    (h : g.receive ctx c = .going g') :
    g' = ⟨g.dataset.addAll c.issues, if c.typed then c.put g.output else g.output,
      g.typed && c.typed⟩ := by
  unfold receive at h
  split at h
  · cases h
  · cases h
    rfl

/-- Gathering goes on only without new issues or without early abort. -/
theorem clean_or_full_of_receive {g g' : Gathering α} {ctx : Context} {c : Contribution α}
    (h : g.receive ctx c = .going g') : c.issues = [] ∨ ctx.config.abortEarly = false := by
  cases habort : ctx.config.abortEarly with
  | false => exact .inr rfl
  | true =>
    by_cases hissues : c.issues = []
    · exact .inl hissues
    · rw [receive_of_early habort g hissues] at h
      cases h

/-- When there are no issues in the end, no part has brought any. -/
theorem clean_of_path {ctx : Context} {brings : σ → Contribution α → Prop} {xs : List σ}
    {g g' : Gathering α} (h : Path ctx brings xs g (.going g')) (hclean : g'.dataset.issues = []) :
    g.dataset.issues = [] ∧ ∀ s ∈ xs, ∃ c, brings s c ∧ c.issues = [] := by
  generalize hp : Progress.going g' = p at h
  induction h with
  | done =>
    cases hp
    exact ⟨hclean, fun _ hs => (by cases hs)⟩
  | next hc hreceive _ ih =>
    obtain ⟨hnext, hrest⟩ := ih hp
    rw [eq_of_receive hreceive] at hnext
    obtain ⟨hstart, hissues⟩ := List.append_eq_nil_iff.mp hnext
    exact ⟨hstart, List.forall_mem_cons.mpr ⟨⟨_, hc, hissues⟩, hrest⟩⟩
  | stop => cases hp

/-- What the contributions of typed parts keep holds of the output at the end of a path. -/
theorem output_of_going {ctx : Context} {brings : σ → Contribution α → Prop} {xs : List σ}
    {O : α → Prop}
    (hput : ∀ s ∈ xs, ∀ c, brings s c → c.typed = true → ∀ output, O output → O (c.put output))
    {g g' : Gathering α} (h : Path ctx brings xs g (.going g')) (hg : O g.output) : O g'.output := by
  generalize hp : Progress.going g' = p at h
  induction h with
  | done =>
    cases hp
    exact hg
  | @next s rest c g g₁ p hc hreceive _ ih =>
    rw [List.forall_mem_cons] at hput
    refine ih hput.2 ?_ hp
    rw [eq_of_receive hreceive]
    dsimp only
    split
    · next htyped => exact hput.1 c hc htyped _ hg
    · exact hg
  | stop => cases hp

theorem issues_of_finished {make : α → Except Fault Value} {p : Progress α} {d : Dataset}
    (h : Finished make p d) : d.issues = p.dataset.issues := by
  cases h <;> rfl

/-! ### Steps over other lists -/

/-- Steps over a list made from another are steps over the other. -/
theorem steps_map (step : τ → Gathering α → Run (Progress α)) (f : σ → τ) (xs : List σ)
    (g : Gathering α) :
    steps step (xs.map f) g = steps (fun x => step (f x)) xs g := by
  induction xs generalizing g with
  | nil => rfl
  | cons x rest ih => simp only [List.map_cons, steps, ih]

/-- Steps that do nothing come to nothing. -/
theorem steps_going (xs : List σ) (g : Gathering α) :
    steps (fun _ g => return .going g) xs g = return .going g := by
  induction xs with
  | nil => rfl
  | cons x rest ih =>
    rw [steps, pure_bind]
    exact ih

end Gathering

end Conform
