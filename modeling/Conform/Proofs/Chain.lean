/-
  Conform/Proofs/Chain.lean
  =========================
  **Chains of constraints.**  Constraints around a schema are tested from the inside
  outwards, on the value that the schema has come to.  A failed test adds one issue;
  the first failed one that ends the validation leaves the others untested
  (`Context.Tested`).

  What a chain comes to is what the schema inside comes to, with the issues of the
  tests after its own (`Dataset.tested`).  The induction is on the constraints, with
  the schema inside them changing: the innermost constraint joins it.

  If no test ends the validation and none depends on what was called before, then the
  order of the tests is the order of their issues and nothing else.
-/
import Conform.Proofs.Protocol
import Conform.Proofs.Steady
import Conform.Stock.Callable

namespace Conform

/-- A constraint without the schema inside it. -/
structure Link where
  message : Value
  check : Check
  name : String
  abort : Bool

namespace Link

/-- The constraint around a schema. -/
def around (l : Link) (s : Schema) : Schema := .constraint l.message l.check l.name l.abort s

/-- What the constraint does around a validator. -/
def validator (l : Link) (inner : Validator) : Validator :=
  .constraint l.message l.check l.name l.abort inner

/-- The issue of a value that fails the test. -/
def issue (l : Link) (ctx : Context) (v : Value) : Effect Issue := do
  let f ← .ofExcept (l.check.finding ctx.typeNames l.name v)
  ctx.report l.message f

/-- A failed test ends the validation. -/
def stops (l : Link) (ctx : Context) : Bool := l.abort || ctx.config.abortEarly

/-- The test of a value in some world, and the issue that it leads to if it fails. -/
inductive Judges (ctx : Context) (l : Link) (v : Value) : World → Option Issue → World → Prop where
  | passed {w u : World} : l.check.test ctx v w = (.ok true, u) → Judges ctx l v w none u
  | failed {w u t : World} {i : Issue} : l.check.test ctx v w = (.ok false, u) →
      l.issue ctx v u = (.ok i, t) → Judges ctx l v w (some i) t

/-- The test does not raise, and a failed one can be reported. -/
def Answers (ctx : Context) (l : Link) (v : Value) : Prop :=
  ∀ w, ∃ i? u, Judges ctx l v w i? u

/-- What the constraint calls does not depend on what was called before. -/
structure Repeats (ctx : Context) (l : Link) : Prop where
  test : ∀ predicate, l.check = .refine predicate → ctx.Steady predicate
  message : ctx.Steady l.message
  config : ctx.Steady ctx.config.message

end Link

/-- The schema inside constraints; the first of them is the innermost. -/
def Schema.chain (s : Schema) (links : List Link) : Schema :=
  links.foldl (fun t l => l.around t) s

/-- Constraints are tested on a value one after another, up to the first failed test that ends the
validation.  Their issues are given in order, and whether there was such a test. -/
inductive Context.Tested (ctx : Context) (v : Value) :
    List Link → World → List Issue → Bool → World → Prop where
  | done {w : World} : Tested ctx v [] w [] false w
  | passed {l : Link} {ls : List Link} {w u t : World} {is : List Issue} {stopped : Bool} :
      l.Judges ctx v w none u → Tested ctx v ls u is stopped t →
      Tested ctx v (l :: ls) w is stopped t
  | failed {l : Link} {ls : List Link} {w u t : World} {i : Issue} {is : List Issue}
      {stopped : Bool} : l.Judges ctx v w (some i) u → l.stops ctx = false →
      Tested ctx v ls u is stopped t → Tested ctx v (l :: ls) w (i :: is) stopped t
  | stopped {l : Link} {ls : List Link} {w u : World} {i : Issue} :
      l.Judges ctx v w (some i) u → l.stops ctx = true → Tested ctx v (l :: ls) w [i] true u

/-- A typed dataset after tests with some issues, of which the last has ended the validation or
not. -/
def Dataset.tested (d : Dataset) (is : List Issue) (stopped : Bool) : Dataset where
  status :=
    if stopped then .failure else if (d.issues ++ is).isEmpty then .success else .partly
  value := d.value
  issues := d.issues ++ is

section

variable {ctx : Context} {l : Link} {ls : List Link} {v : Value} {d e : Dataset} {w u t : World}
  {i? : Option Issue} {is : List Issue} {stopped : Bool}

/-! ### Datasets -/

/-- A typed dataset whose status agrees with its issues is as it is without tests. -/
theorem Dataset.tested_nil (h : d.Settled ctx) (htyped : d.isTyped = true) :
    d.tested [] false = d := by
  obtain ⟨status, value, issues⟩ := d
  have hsuccess : issues = [] ↔ status = .success := h.success
  cases status with
  | unknown => exact absurd rfl h.known
  | failure => cases htyped
  | success => simp [tested, hsuccess.mpr rfl]
  | partly =>
    have hne : issues ≠ [] := fun hnil => by cases hsuccess.mp hnil
    simp [tested, hne]

/-- After one failed test that does not end the validation, the others follow. -/
theorem Dataset.tested_violate (d : Dataset) (i : Issue) (is : List Issue) (stopped : Bool) :
    (d.violate false i).tested is stopped = d.tested (i :: is) stopped := by
  simp [tested, violate, add]

theorem Dataset.tested_nil_violate (d : Dataset) (i : Issue) :
    (d.violate false i).tested [] false = d.violate false i := by
  simp [tested, violate, add]

theorem Dataset.isTyped_violate (d : Dataset) (i : Issue) :
    (d.violate false i).isTyped = true := rfl

/-! ### One constraint -/

theorem Link.isViolation_of_judges {i : Issue} (h : l.Judges ctx v w (some i) u) :
    i.isViolation := by
  obtain - | ⟨-, hissue⟩ := h
  obtain ⟨f, u', hfinding, hreport⟩ := bind_eq_ok hissue
  have hfinding : l.check.finding ctx.typeNames l.name v = .ok f := congrArg Prod.fst hfinding
  obtain ⟨message, -, rfl⟩ := gives_report (I := fun _ => True) ⟨u', _, trivial, hreport⟩
  exact (kind_of_checkFinding hfinding).1

/-- A constraint leaves a dataset alone that is not typed. -/
theorem Link.validator_untyped {inner : Validator} {d₀ : Dataset}
    (hrun : inner ctx d₀ w = (.ok d, u)) (htyped : d.isTyped = false) :
    l.validator inner ctx d₀ w = (.ok d, u) := by
  unfold validator Validator.constraint
  rw [bind_of_eq_ok hrun, htyped]
  rfl

/-- What a constraint does when its issue is taken as one step. -/
theorem Link.validator_eq {inner : Validator} {d₀ : Dataset} (hrun : inner ctx d₀ w = (.ok d, u))
    (htyped : d.isTyped = true) :
    l.validator inner ctx d₀ w =
      (within d (l.check.test ctx d.value) >>= fun passed =>
        if passed then pure d
        else within d (l.issue ctx d.value) >>= fun i =>
          pure (d.violate (l.stops ctx) i)) u := by
  unfold validator Validator.constraint
  rw [bind_of_eq_ok hrun, htyped]
  simp only [Bool.not_true, Bool.false_eq_true, if_false, issue, within_bind, bind_assoc,
    Dataset.violate, stops]
  -- the two sides differ in where they ask whether the violation ends the validation
  congr! 5
  split <;> next h => simp only [h, if_true, Bool.false_eq_true, if_false]

/-- A constraint around a typed dataset tests its value. -/
theorem Link.validator_eq_ok_iff {inner : Validator} {d₀ : Dataset}
    (hrun : inner ctx d₀ w = (.ok d, u)) (htyped : d.isTyped = true) :
    l.validator inner ctx d₀ w = (.ok e, t) ↔
      ∃ i?, l.Judges ctx d.value u i? t ∧ e = i?.elim d (d.violate (l.stops ctx)) := by
  rw [validator_eq hrun htyped]
  constructor
  · intro h
    obtain ⟨passed, u', htest, h⟩ := bind_eq_ok h
    have htest := within_eq_ok htest
    cases passed with
    | true =>
      obtain ⟨rfl, rfl⟩ := pure_eq_ok h
      exact ⟨none, .passed htest, rfl⟩
    | false =>
      obtain ⟨i, u'', hissue, h⟩ := bind_eq_ok h
      obtain ⟨rfl, rfl⟩ := pure_eq_ok h
      exact ⟨some i, .failed htest (within_eq_ok hissue), rfl⟩
  · rintro ⟨i?, hjudges, rfl⟩
    cases hjudges with
    | passed htest =>
      rw [bind_of_eq_ok (within_of_eq_ok d htest)]
      rfl
    | failed htest hissue =>
      rw [bind_of_eq_ok (within_of_eq_ok d htest)]
      simp only [Bool.false_eq_true, if_false]
      rw [bind_of_eq_ok (within_of_eq_ok d hissue)]
      rfl

/-- The test of a constraint comes out one way from one world. -/
theorem Link.Judges.unique {j? : Option Issue} (h : l.Judges ctx v w i? u)
    (h' : l.Judges ctx v w j? t) : i? = j? ∧ u = t := by
  cases h with
  | passed htest =>
    cases h' with
    | passed htest' => cases htest.symm.trans htest'; exact ⟨rfl, rfl⟩
    | failed htest' => cases htest.symm.trans htest'
  | failed htest hissue =>
    cases h' with
    | passed htest' => cases htest.symm.trans htest'
    | failed htest' hissue' =>
      cases htest.symm.trans htest'
      cases hissue.symm.trans hissue'
      exact ⟨rfl, rfl⟩

/-! ### Chains -/

theorem Schema.validator_chain (s : Schema) (links : List Link) (resolve : Schema → Validator) :
    (s.chain links).validator resolve =
      links.foldl (fun v l => l.validator v) (s.validator resolve) := by
  induction links generalizing s with
  | nil => rfl
  | cons l ls ih => exact ih (l.around s)

theorem Schema.validatorUpTo_chain (s : Schema) (links : List Link) (n : Nat) :
    (s.chain links).validatorUpTo n = links.foldl (fun v l => l.validator v) (s.validatorUpTo n) := by
  rw [validatorUpTo_eq, validatorUpTo_eq]
  exact s.validator_chain links _

/-- Constraints bring no references, and make no room for any. -/
theorem Context.bound_chain (ctx : Context) (s : Schema) (links : List Link) (x : Value) :
    ctx.bound (s.chain links) x = ctx.bound s x := by
  induction links generalizing s with
  | nil => rfl
  | cons l ls ih => exact ih (l.around s)

theorem Schema.run_chain (ctx : Context) (s : Schema) (links : List Link) (x : Value) :
    (s.chain links).run ctx (.fresh x) =
      links.foldl (fun v l => l.validator v) (s.validatorUpTo (ctx.bound s x)) ctx (.fresh x) := by
  unfold run
  rw [Schema.validatorUpTo_chain, Dataset.fresh, ctx.bound_chain]

/-- A chain leaves a dataset alone that is not typed. -/
theorem chain_untyped {inner : Validator} {d₀ : Dataset} (ls : List Link)
    (hrun : inner ctx d₀ w = (.ok d, u)) (htyped : d.isTyped = false) :
    ls.foldl (fun v l => l.validator v) inner ctx d₀ w = (.ok d, u) := by
  induction ls generalizing inner with
  | nil => exact hrun
  | cons l ls ih => exact ih (Link.validator_untyped hrun htyped)

theorem chain_faults {inner : Validator} {d₀ : Dataset} {h : Halt} (ls : List Link)
    (hrun : inner ctx d₀ w = (.error h, u)) :
    ls.foldl (fun v l => l.validator v) inner ctx d₀ w = (.error h, u) := by
  induction ls generalizing inner with
  | nil => exact hrun
  | cons l ls ih => exact ih (bind_of_eq_error hrun)

/-- The tests of a chain around a typed dataset decide what the chain comes to. -/
theorem chain_of_tested {inner : Validator} {d₀ : Dataset}
    (htested : ctx.Tested v ls u is stopped t) (hrun : inner ctx d₀ w = (.ok d, u))
    (hvalue : d.value = v) (htyped : d.isTyped = true) (hstatus : d.tested [] false = d) :
    ls.foldl (fun v l => l.validator v) inner ctx d₀ w = (.ok (d.tested is stopped), t) := by
  -- each test that is done moves its constraint into `inner`, whose dataset has one issue more
  induction htested generalizing inner d with
  | done => rwa [hstatus]
  | passed hjudges _ ih =>
    subst hvalue
    have hnext := (Link.validator_eq_ok_iff hrun htyped).mpr ⟨none, hjudges, rfl⟩
    exact ih hnext rfl htyped hstatus
  | @failed l ls u u' t i is stopped hjudges hstops _ ih =>
    subst hvalue
    have hnext := (Link.validator_eq_ok_iff hrun htyped).mpr ⟨some i, hjudges, rfl⟩
    rw [hstops] at hnext
    rw [← d.tested_violate]
    exact ih hnext rfl (d.isTyped_violate i) (d.tested_nil_violate i)
  | @stopped l ls u u' i hjudges hstops =>
    subst hvalue
    have hnext := (Link.validator_eq_ok_iff hrun htyped).mpr ⟨some i, hjudges, rfl⟩
    rw [hstops] at hnext
    exact chain_untyped ls hnext rfl

/-- What a chain around a typed dataset comes to is decided by its tests. -/
theorem tested_of_chain {inner : Validator} {d₀ : Dataset} (hrun : inner ctx d₀ w = (.ok d, u))
    (htyped : d.isTyped = true) (hstatus : d.tested [] false = d)
    (h : ls.foldl (fun v l => l.validator v) inner ctx d₀ w = (.ok e, t)) :
    ∃ is stopped, ctx.Tested d.value ls u is stopped t ∧ e = d.tested is stopped := by
  induction ls generalizing inner d u with
  | nil =>
    cases hrun.symm.trans h
    exact ⟨[], false, .done, hstatus.symm⟩
  | cons l ls ih =>
    rcases hnext : l.validator inner ctx d₀ w with ⟨halt | d', u'⟩
    -- a fault of the innermost constraint would have been that of the chain
    · cases h.symm.trans (chain_faults ls hnext)
    obtain ⟨i?, hjudges, rfl⟩ := (Link.validator_eq_ok_iff hrun htyped).mp hnext
    cases i? with
    | none =>
      obtain ⟨is, stopped, htested, rfl⟩ := ih hnext htyped hstatus h
      exact ⟨is, stopped, .passed hjudges htested, rfl⟩
    | some i =>
      dsimp only [Option.elim] at hnext
      cases hstops : l.stops ctx with
      | true =>
        rw [hstops] at hnext
        cases h.symm.trans (chain_untyped ls hnext rfl)
        exact ⟨[i], true, .stopped hjudges hstops, rfl⟩
      | false =>
        rw [hstops] at hnext
        obtain ⟨is, stopped, htested, rfl⟩ :=
          ih hnext (d.isTyped_violate i) (d.tested_nil_violate i) h
        exact ⟨i :: is, stopped, .failed hjudges hstops htested, d.tested_violate i is stopped⟩

/-- The tests can be run one after another when each of them answers. -/
theorem exists_tested (h : ∀ l ∈ ls, l.Answers ctx v) (w : World) :
    ∃ is stopped t, ctx.Tested v ls w is stopped t := by
  induction ls generalizing w with
  | nil => exact ⟨[], false, w, .done⟩
  | cons l ls ih =>
    rw [List.forall_mem_cons] at h
    obtain ⟨i?, u, hjudges⟩ := h.1 w
    obtain ⟨is, stopped, t, htested⟩ := ih h.2 u
    cases i? with
    | none => exact ⟨is, stopped, t, .passed hjudges htested⟩
    | some i =>
      cases hstops : l.stops ctx with
      | true => exact ⟨[i], true, u, .stopped hjudges hstops⟩
      | false => exact ⟨i :: is, stopped, t, .failed hjudges hstops htested⟩

theorem Context.Tested.isViolation (h : ctx.Tested v ls w is stopped t) :
    ∀ i ∈ is, i.isViolation := by
  induction h with
  | done => exact List.forall_mem_nil _
  | passed _ _ ih => exact ih
  | failed hjudges _ _ ih => exact List.forall_mem_cons.mpr ⟨Link.isViolation_of_judges hjudges, ih⟩
  | stopped hjudges _ => exact List.forall_mem_singleton.mpr (Link.isViolation_of_judges hjudges)

/-! ### The order of the constraints -/

/-- A test that does not depend on earlier calls comes out one way in all worlds. -/
theorem Link.Repeats.judges (hrepeats : l.Repeats ctx) (h : l.Judges ctx v w i? u) (w' : World) :
    ∃ u', l.Judges ctx v w' i? u' := by
  have htest : Steadily (l.check.test ctx v) := Manner.steady.test hrepeats.test v
  have hissue : Steadily (l.issue ctx v) :=
    Manner.steady.bind (Manner.steady.ofExcept (l.check.mild_finding _ _ _)) fun f _ =>
      Manner.steady.report hrepeats.config hrepeats.message f
  have hagain {α : Type} {x : Effect α} (hx : Steadily x) {a : α} {w u : World}
      (h : x w = (.ok a, u)) (w' : World) : ∃ u', x w' = (.ok a, u') :=
    ⟨(x w').2, Prod.ext ((hx w' w).trans (by rw [h])) rfl⟩
  cases h with
  | passed h =>
    obtain ⟨u', h⟩ := hagain htest h w'
    exact ⟨u', .passed h⟩
  | failed h h' =>
    obtain ⟨u', h⟩ := hagain htest h w'
    obtain ⟨u'', h'⟩ := hagain hissue h' u'
    exact ⟨u'', .failed h h'⟩

theorem Context.Tested.not_stopped (h : ctx.Tested v ls w is stopped t)
    (hstops : ∀ l ∈ ls, l.stops ctx = false) : stopped = false := by
  induction h with
  | done => rfl
  | passed _ _ ih => exact ih (List.forall_mem_cons.mp hstops).2
  | failed _ _ _ ih => exact ih (List.forall_mem_cons.mp hstops).2
  | stopped _ htrue =>
    rw [hstops _ List.mem_cons_self] at htrue
    cases htrue

/-- Each of the tests that are run leads to its issue, or to none. -/
theorem Context.Tested.eq_filterMap (h : ctx.Tested v ls w is false t)
    {verdict : Link → Option Issue}
    (hverdict : ∀ l ∈ ls, ∀ w i? u, l.Judges ctx v w i? u → i? = verdict l) :
    is = ls.filterMap verdict := by
  generalize hstopped : false = stopped at h
  induction h with
  | done => rfl
  | passed hjudges _ ih =>
    rw [List.forall_mem_cons] at hverdict
    rw [List.filterMap_cons_none (hverdict.1 _ _ _ hjudges).symm]
    exact ih hverdict.2 hstopped
  | failed hjudges _ _ ih =>
    rw [List.forall_mem_cons] at hverdict
    rw [List.filterMap_cons_some (hverdict.1 _ _ _ hjudges).symm, ih hverdict.2 hstopped]
  | stopped => cases hstopped

/-- Each of the constraints of a chain that nothing ends has been tested. -/
theorem Context.Tested.exists_judges (h : ctx.Tested v ls w is false t) :
    ∀ l ∈ ls, ∃ w i? u, l.Judges ctx v w i? u := by
  generalize hstopped : false = stopped at h
  induction h with
  | done => exact List.forall_mem_nil _
  | passed hjudges _ ih => exact List.forall_mem_cons.mpr ⟨⟨_, _, _, hjudges⟩, ih hstopped⟩
  | failed hjudges _ _ ih => exact List.forall_mem_cons.mpr ⟨⟨_, _, _, hjudges⟩, ih hstopped⟩
  | stopped => cases hstopped

/-- In another order, tests of which none ends the validation lead to the same issues in another
order. -/
theorem Context.Tested.perm (h : ctx.Tested v ls w is false t)
    (hstops : ∀ l ∈ ls, l.stops ctx = false) (hrepeats : ∀ l ∈ ls, l.Repeats ctx)
    {ls' : List Link} (hperm : ls.Perm ls') :
    ∃ is' t', ctx.Tested v ls' w is' false t' ∧ is.Perm is' := by
  have hsettled : ∀ l, ∃ verdict, l ∈ ls → (∀ w i? u, l.Judges ctx v w i? u → i? = verdict) ∧
      ∀ w, ∃ u, l.Judges ctx v w verdict u := by
    intro l
    by_cases hl : l ∈ ls
    · obtain ⟨w₁, verdict, u₁, hjudges⟩ := h.exists_judges l hl
      have hagain := (hrepeats l hl).judges hjudges
      refine ⟨verdict, fun _ => ⟨fun w i? u hother => ?_, hagain⟩⟩
      obtain ⟨u', hsame⟩ := hagain w
      exact (hother.unique hsame).1
    · exact ⟨none, fun hmem => absurd hmem hl⟩
  -- one verdict for each link, in whatever world it is reached
  choose verdict hverdict using hsettled
  have hanswers : ∀ l ∈ ls', l.Answers ctx v := fun l hl w =>
    ⟨verdict l, (hverdict l (hperm.mem_iff.mpr hl)).2 w⟩
  obtain ⟨is', stopped, t', htested⟩ := exists_tested hanswers w
  cases htested.not_stopped fun l hl => hstops l (hperm.mem_iff.mpr hl)
  refine ⟨is', t', htested, ?_⟩
  rw [h.eq_filterMap fun l hl => (hverdict l hl).1,
    htested.eq_filterMap fun l hl => (hverdict l (hperm.mem_iff.mpr hl)).1]
  exact hperm.filterMap verdict

end

/-- What a chain of constraints comes to, by what the schema inside it has come to.  A dataset that is
not typed is left alone.  The value of a typed one is tested, from the inside outwards; the issues of
failed tests come after its own, up to the first failed test that ends the validation, and the status
is by these.  The chain comes to something when every test answers and every failed one can be
reported.  Constraints that end nothing and depend on no earlier calls can be put in another order, and
then nothing changes but the order of their issues. -/
theorem chain_run {ctx : Context} {s : Schema} {x : Value} {d : Dataset} {w u : World}
    (hrun : s.run ctx (.fresh x) w = (.ok d, u)) (links : List Link) :
    (d.isTyped = false → (s.chain links).run ctx (.fresh x) w = (.ok d, u)) ∧
    (d.isTyped = true →
      (∀ e t, (s.chain links).run ctx (.fresh x) w = (.ok e, t) ↔
        ∃ is stopped, ctx.Tested d.value links u is stopped t ∧ (∀ i ∈ is, i.isViolation) ∧
          e = d.tested is stopped) ∧
      ((∀ l ∈ links, l.Answers ctx d.value) →
        ∃ e t, (s.chain links).run ctx (.fresh x) w = (.ok e, t))) ∧
    (ctx.config.abortEarly = false → (∀ l ∈ links, l.abort = false ∧ l.Repeats ctx) →
      ∀ e t, (s.chain links).run ctx (.fresh x) w = (.ok e, t) → ∀ links', links.Perm links' →
        ∃ e' t' is is', (s.chain links').run ctx (.fresh x) w = (.ok e', t') ∧
          e'.status = e.status ∧ e'.value = e.value ∧ e.issues = d.issues ++ is ∧
          e'.issues = d.issues ++ is' ∧ is.Perm is') := by
  have hsettled : d.Settled ctx :=
    settled_of_yields (closed_true ctx) trivial ⟨_, w, u, trivial, hrun⟩
  replace hrun : s.validatorUpTo (ctx.bound s x) ctx (.fresh x) w = (.ok d, u) := hrun
  simp only [Schema.run_chain]
  refine ⟨fun huntyped => chain_untyped links hrun huntyped, fun htyped => ⟨fun e t => ?_,
    fun hanswers => ?_⟩, fun hearly hsteady e t he links' hperm => ?_⟩
  · have hstatus := d.tested_nil hsettled htyped
    constructor
    · intro h
      obtain ⟨is, stopped, htested, heq⟩ := tested_of_chain hrun htyped hstatus h
      exact ⟨is, stopped, htested, htested.isViolation, heq⟩
    · rintro ⟨is, stopped, htested, -, rfl⟩
      exact chain_of_tested htested hrun rfl htyped hstatus
  · obtain ⟨is, stopped, t, htested⟩ := exists_tested hanswers u
    exact ⟨_, t, chain_of_tested htested hrun rfl htyped (d.tested_nil hsettled htyped)⟩
  · cases htyped : d.isTyped with
    | false =>
      cases he.symm.trans (chain_untyped links hrun htyped)
      exact ⟨d, u, [], [], chain_untyped links' hrun htyped, rfl, rfl, (List.append_nil _).symm,
        (List.append_nil _).symm, .refl _⟩
    | true =>
      have hstatus := d.tested_nil hsettled htyped
      have hstops : ∀ l ∈ links, l.stops ctx = false := fun l hl => by
        rw [Link.stops, (hsteady l hl).1, hearly, Bool.or_false]
      obtain ⟨is, stopped, htested, rfl⟩ := tested_of_chain hrun htyped hstatus he
      cases htested.not_stopped hstops
      obtain ⟨is', t', htested', his⟩ := htested.perm hstops (fun l hl => (hsteady l hl).2) hperm
      refine ⟨_, t', is, is', chain_of_tested htested' hrun rfl htyped hstatus, ?_, rfl, rfl, rfl, his⟩
      have hempty : (d.issues ++ is').isEmpty = (d.issues ++ is).isEmpty := by
        rw [Bool.eq_iff_iff, List.isEmpty_iff_length_eq_zero, List.isEmpty_iff_length_eq_zero,
          (his.append_left d.issues).length_eq]
      simp only [Dataset.tested, hempty]

/-- A text that is neither in small letters nor in capitals: one issue for each, in either order. -/
theorem chain_run_letters :
    let ctx : Context := ⟨.default, [], [], [], ⟨fun _ _ _ => .error .callable, 0⟩⟩
    let s : Schema := .primitive .null .string
    let x : Value := .scalar .shared (.str .base "aB")
    let small : Link := ⟨.null, .lowercase, "lowercase", false⟩
    let capital : Link := ⟨.null, .uppercase, "uppercase", false⟩
    ∃ e t e' t', (s.chain [small, capital]).run ctx (.fresh x) .empty = (.ok e, t) ∧
      (s.chain [capital, small]).run ctx (.fresh x) .empty = (.ok e', t') ∧ e.status = .partly ∧
      e.issues.length = 2 ∧ e'.status = .partly ∧ e.issues.Perm e'.issues := by
  intro ctx s x small capital
  have hrun : s.run ctx (.fresh x) .empty = (.ok (.valid x), .empty) := rfl
  have hrepeats : ∀ l ∈ [small, capital], l.abort = false ∧ l.Repeats ctx := by
    refine List.forall_mem_cons.mpr ⟨⟨rfl, fun _ h => ?_, fun _ _ _ => rfl, fun _ _ _ => rfl⟩,
      List.forall_mem_singleton.mpr ⟨rfl, fun _ h => ?_, fun _ _ _ => rfl, fun _ _ _ => rfl⟩⟩
    · cases h
    · cases h
  obtain ⟨-, htyped, hperm⟩ := chain_run hrun [small, capital]
  obtain ⟨i, hi⟩ : ∃ i, small.Judges ctx x .empty (some i) .empty := by
    dsimp only [small, ctx, x]
    exact ⟨_, .failed (u := .empty) rfl rfl⟩
  obtain ⟨j, hj⟩ : ∃ j, capital.Judges ctx x .empty (some j) .empty := by
    dsimp only [capital, ctx, x]
    exact ⟨_, .failed (u := .empty) rfl rfl⟩
  have htested : ctx.Tested x [small, capital] .empty [i, j] false .empty :=
    .failed hi rfl (.failed hj rfl .done)
  have he := ((htyped rfl).1 _ _).mpr ⟨_, false, htested, htested.isViolation, rfl⟩
  obtain ⟨e', t', is, is', he', hstatus, -, his, his', hsame⟩ :=
    hperm rfl hrepeats _ _ he [capital, small] (.swap capital small [])
  refine ⟨_, _, e', t', he, he', rfl, rfl, hstatus, ?_⟩
  rw [his, his']
  exact hsame.append_left _

/-- A test that counts its calls: the first one fails, whichever it is, and no other does.  So the order
of two such tests is seen in more than the order of the issues.  And a test that fails without a fault
has no issue when its message raises one. -/
theorem chain_calls_seen :
    let text (t : String) : Value := .scalar .shared (.str .base t)
    let counter : Value := .scalar .shared (.callable (Stock.function Stock.counterKey))
    let ctx : Context := ⟨.default, [], [], [], Stock.host⟩
    let link (message predicate : Value) : Link := ⟨message, .refine predicate, "check()", false⟩
    let s : Schema := .anything .null false
    (∃ e t e' t',
      (s.chain [link (text "A") counter, link (text "B") counter]).run ctx (.fresh .null) .empty =
        (.ok e, t) ∧
      (s.chain [link (text "B") counter, link (text "A") counter]).run ctx (.fresh .null) .empty =
        (.ok e', t') ∧
      e.issues.map (·.message) = [text "A"] ∧ e'.issues.map (·.message) = [text "B"] ∧
      ¬e.issues.Perm e'.issues) ∧
    ∃ h t,
      (s.chain [link (.scalar .shared (.callable (Stock.function "boom"))) counter]).run ctx
        (.fresh .null) .empty = (.error h, t) := by
  intro text counter ctx link s
  have hcounts : ∃ e t e' t',
      (s.chain [link (text "A") counter, link (text "B") counter]).run ctx (.fresh .null) .empty =
        (.ok e, t) ∧
      (s.chain [link (text "B") counter, link (text "A") counter]).run ctx (.fresh .null) .empty =
        (.ok e', t') ∧
      e.issues.map (·.message) = [text "A"] ∧ e'.issues.map (·.message) = [text "B"] := by
    dsimp only [counter, ctx, link, s, text]
    exact ⟨_, _, _, _, rfl, rfl, rfl, rfl⟩
  refine ⟨?_, ?_⟩
  · obtain ⟨e, t, e', t', he, he', ha, hb⟩ := hcounts
    refine ⟨e, t, e', t', he, he', ha, hb, fun hperm => ?_⟩
    have hmessages := hperm.map (·.message)
    rw [ha, hb, List.singleton_perm_singleton] at hmessages
    simp [text] at hmessages
  · dsimp only [counter, ctx, link, s, text]
    exact ⟨_, _, rfl⟩

end Conform
