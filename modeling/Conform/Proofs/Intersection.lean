/-
  Conform/Proofs/Intersection.lean
  ================================
  **What an intersection comes to.**  It accepts a value exactly when all its members do,
  one after another, and their outputs can be merged (`intersection_contract`).

  If it does not stop at the first issue, then it runs all its members whatever they come
  to, and carries all their issues.  What it comes to is said by what they have come to
  (`Concluded`): merged outputs, valid or partly so; or a failure, because one of them is
  untyped or because their outputs clash.
-/
import Conform.Proofs.Orderly
import Conform.Proofs.Outputs

namespace Conform

open Validator

/-- What is gathered when members have come to something. -/
def Gathering.withMembers (g : Gathering (List Value)) (ds : List Dataset) : Gathering (List Value) :=
  ⟨g.dataset.addAll (ds.flatMap (·.issues)), g.output ++ (ds.filter (·.isTyped)).map (·.value),
    g.typed && ds.all (·.isTyped)⟩

/-- The dataset has issues, and the first issue is to end the validation. -/
def Dataset.Breaks (ctx : Context) (d : Dataset) : Prop :=
  d.issues ≠ [] ∧ ctx.config.abortEarly = true

namespace Validator

section

variable {ctx : Context} {I : Found → Prop} {R : Runs} {x y : Value} {l : Label}
  {members : List Validator} {g g' : Gathering (List Value)} {p : Progress (List Value)}
  {w v u : World} {d : Dataset} {ds : List Dataset} {first : Value} {rest : List Value}

/-! ### Members one after another -/

/-- A member is run, and what it brings is taken in. -/
theorem memberStep_eq (m : Validator) (g : Gathering (List Value)) :
    memberStep x ctx m g = within g.dataset (m.apply ctx x) >>= fun part =>
      pure (g.receive ctx ⟨part.issues, part.isTyped, fun output => output ++ [part.value]⟩) := by
  refine bind_congr fun part => ?_
  dsimp only
  cases hstop : !part.issues.isEmpty && ctx.config.abortEarly with
  | true => simp only [Gathering.receive, hstop, if_true]
  | false => cases htyped : part.isTyped <;> simp [Gathering.receive, hstop]

/-- A member goes on without issues exactly when it comes to something. -/
theorem memberStep_clean_iff {m : Validator} {s : Schema} (hm : Follows ctx I R m s)
    (hsettled : ∀ x d, R s x d → d.Settled ctx) (hI : I w.resolved) :
    memberStep x ctx m g w = (.ok (.going g'), u) ∧ g'.dataset.issues = [] ↔
      g.dataset.issues = [] ∧ ∃ y, m.output ctx x w = (.ok (some y), u) ∧
        g' = { g with output := g.output ++ [y] } := by
  rw [memberStep_eq]
  have h := take_clean_iff (g := g) (q := g') (w := w) (u := u) hm hsettled (x := x) id
    (fun v output => output ++ [v]) hI
  simpa only [List.map_id] using h

theorem putAll_append {σ β : Type} {xs : List σ} {bs output : List β} (h : xs.length = bs.length) :
    putAll (fun _ b output => output ++ [b]) xs bs output = output ++ bs := by
  induction xs generalizing bs output with
  | nil =>
    obtain rfl := List.length_eq_zero_iff.mp h.symm
    exact (List.append_nil output).symm
  | cons x rest ih =>
    cases bs with
    | nil => cases h
    | cons b bs => rw [putAll, ih (Nat.succ.inj h), List.append_assoc, List.singleton_append]

/-- A member goes on with what it brings, unless it brings issues and the first is to be the last. -/
theorem memberStep_goes {m : Validator} (hgo : ¬d.Breaks ctx) (h : m.apply ctx x w = (.ok d, u)) :
    memberStep x ctx m g w = (.ok (.going (g.withMembers [d])), u) := by
  have hgo : (!d.issues.isEmpty && ctx.config.abortEarly) = false := by
    rw [Bool.and_eq_false_iff, Bool.not_eq_false', List.isEmpty_iff]
    exact or_iff_not_and_not.mpr fun ⟨hissues, hearly⟩ => hgo ⟨hissues, by simpa using hearly⟩
  rw [memberStep_eq, bind_of_eq_ok (within_of_eq_ok _ h), Gathering.receive, hgo]
  cases htyped : d.isTyped <;> simp [Gathering.withMembers, htyped] <;> rfl

theorem memberStep_breaks {m : Validator} (hbreaks : d.Breaks ctx)
    (h : m.apply ctx x w = (.ok d, u)) :
    memberStep x ctx m g w = (.ok (.stopped (g.dataset.addAll d.issues)), u) := by
  rw [memberStep_eq, bind_of_eq_ok (within_of_eq_ok _ h),
    Gathering.receive_of_early hbreaks.2 _ hbreaks.1]
  rfl

theorem withMembers_cons (g : Gathering (List Value)) (d : Dataset) (ds : List Dataset) :
    (g.withMembers [d]).withMembers ds = g.withMembers (d :: ds) := by
  cases htyped : d.isTyped <;> simp [Gathering.withMembers, Dataset.addAll, htyped]

theorem withMembers_nil (g : Gathering (List Value)) : g.withMembers [] = g := by
  simp [Gathering.withMembers, Dataset.addAll]

/-- As long as none of them is to be the last, all members are run, and all they bring is taken in. -/
theorem steps_of_mapM (hds : members.mapM (fun m => m.apply ctx x) w = (.ok ds, u))
    (hgo : ∀ d ∈ ds, ¬d.Breaks ctx) :
    Gathering.steps (memberStep x ctx) members g w = (.ok (.going (g.withMembers ds)), u) := by
  induction members generalizing g w ds with
  | nil =>
    rw [List.mapM_nil] at hds
    obtain ⟨rfl, rfl⟩ := pure_eq_ok hds
    rw [withMembers_nil]
    rfl
  | cons m rest ih =>
    rw [List.mapM_cons] at hds
    obtain ⟨part, v, hpart, h⟩ := bind_eq_ok hds
    obtain ⟨ds', v', hrest, h⟩ := bind_eq_ok h
    cases h
    rw [List.forall_mem_cons] at hgo
    rw [Gathering.steps, bind_of_eq_ok (memberStep_goes hgo.1 hpart)]
    dsimp only
    rw [ih hrest hgo.2, withMembers_cons]

/-- All members have been run, or the last that was run has issues and is to be the last. -/
theorem cases_of_steps (h : Gathering.steps (memberStep x ctx) members g w = (.ok p, u)) :
    (∃ ds, members.mapM (fun m => m.apply ctx x) w = (.ok ds, u) ∧ (∀ d ∈ ds, ¬d.Breaks ctx) ∧
      p = .going (g.withMembers ds)) ∨
    ∃ front back ds e, members = front ++ back ∧
      front.mapM (fun m => m.apply ctx x) w = (.ok ds, u) ∧ (∃ d ∈ ds, d.Breaks ctx) ∧
      p = .stopped e ∧ e.value = g.dataset.value := by
  induction members generalizing g w with
  | nil =>
    cases h
    exact .inl ⟨[], rfl, List.forall_mem_nil _, congrArg _ (withMembers_nil g).symm⟩
  | cons m rest ih =>
    rw [Gathering.steps] at h
    obtain ⟨q, v, hfirst, h⟩ := bind_eq_ok h
    obtain ⟨part, v', hpart, -⟩ := bind_eq_ok ((memberStep_eq m g).symm ▸ hfirst)
    have hpart := within_eq_ok hpart
    by_cases hbreaks : part.Breaks ctx
    · have hstop := memberStep_breaks (g := g) hbreaks hpart
      cases hstop.symm.trans hfirst
      cases h
      refine .inr ⟨[m], rest, [part], _, rfl, ?_, ⟨part, List.mem_singleton_self _, hbreaks⟩, rfl, rfl⟩
      rw [List.mapM_cons, bind_of_eq_ok hpart]
      rfl
    · cases (memberStep_goes (g := g) hbreaks hpart).symm.trans hfirst
      have next {ms : List Validator} {ds : List Dataset}
          (h : ms.mapM (fun m => m.apply ctx x) v = (.ok ds, u)) :
          (m :: ms).mapM (fun m => m.apply ctx x) w = (.ok (part :: ds), u) := by
        rw [List.mapM_cons, bind_of_eq_ok hpart, bind_of_eq_ok h]
        rfl
      rcases ih h with ⟨ds, hds, hgo, rfl⟩ | ⟨front, back, ds, e, rfl, hds, ⟨d, hd, hd'⟩, rfl, hvalue⟩
      · exact .inl ⟨part :: ds, next hds, List.forall_mem_cons.mpr ⟨hbreaks, hgo⟩,
          congrArg _ (withMembers_cons g part ds)⟩
      · exact .inr ⟨m :: front, back, part :: ds, e, rfl, next hds,
          ⟨d, List.mem_cons_of_mem _ hd, hd'⟩, rfl, hvalue⟩

/-- Without early abort all members are run, and all they bring is taken in. -/
theorem steps_members_iff (hfull : ctx.config.abortEarly = false) :
    Gathering.steps (memberStep x ctx) members g w = (.ok p, u) ↔
      ∃ ds, members.mapM (fun m => m.apply ctx x) w = (.ok ds, u) ∧ p = .going (g.withMembers ds) := by
  have hgo (d : Dataset) : ¬d.Breaks ctx := fun hbreaks => by cases hfull.symm.trans hbreaks.2
  constructor
  · intro h
    rcases cases_of_steps h with ⟨ds, hds, -, hp⟩ | ⟨front, back, ds, e, -, -, ⟨d, -, hd⟩, -⟩
    · exact ⟨ds, hds, hp⟩
    · exact absurd hd (hgo d)
  · rintro ⟨ds, hds, rfl⟩
    exact steps_of_mapM hds fun d _ => hgo d

theorem forall₂_of_mapM (hkeep : ∀ m ∈ members, ∀ d, Keeps I (m ctx d)) (hI : I w.resolved)
    (h : members.mapM (fun m => m.apply ctx x) w = (.ok ds, u)) :
    List.Forall₂ (fun m d => Gives I (m.apply ctx x) d) members ds := by
  induction members generalizing ds w with
  | nil =>
    rw [List.mapM_nil] at h
    obtain ⟨rfl, rfl⟩ := pure_eq_ok h
    exact .nil
  | cons m rest ih =>
    rw [List.forall_mem_cons] at hkeep
    rw [List.mapM_cons] at h
    obtain ⟨part, v, hpart, h⟩ := bind_eq_ok h
    obtain ⟨ds', v', hds, h⟩ := bind_eq_ok h
    cases h
    have hI' := keeps_apply hkeep.1 x w hI
    rw [hpart] at hI'
    exact .cons ⟨w, v, hI, hpart⟩ (ih hkeep.2 hI' hds)

/-! ### The end -/

/-- The end of an intersection, when its members have been run. -/
def conclude (l : Label) (ctx : Context) : Progress (List Value) → Run Dataset
  | .stopped d => giveUp d
  | .going g =>
    match g.typed, g.output with
    | true, first :: rest => do
      match ← withinExcept g.dataset (mergeAll? first rest) with
      | none => mismatch l ctx g.dataset
      | some output =>
        if g.dataset.issues.isEmpty then return g.dataset.succeed output
        else return g.dataset.succeedPartly output
    | _, _ => giveUp g.dataset

theorem intersection_fresh (l : Label) (members : List Validator) (ctx : Context) (x : Value) :
    intersection l members ctx (.fresh x) =
      Gathering.steps (memberStep x ctx) members (.start (.fresh x) []) >>= conclude l ctx := by
  refine bind_congr fun p => ?_
  cases p <;> rfl

theorem conclude_merged (htyped : g.typed = true) (houtput : g.output = first :: rest)
    (h : mergeAll? first rest = .ok (some y)) :
    conclude l ctx (.going g) w = (.ok ⟨if g.dataset.issues = [] then .success else .partly, y,
      g.dataset.issues⟩, w) := by
  simp only [conclude, htyped, houtput, h]
  by_cases hissues : g.dataset.issues = []
  · rw [if_pos hissues]
    refine (bind_of_eq_ok rfl).trans ?_
    dsimp only
    rw [if_pos (List.isEmpty_iff.mpr hissues)]
    rfl
  · rw [if_neg hissues]
    refine (bind_of_eq_ok rfl).trans ?_
    dsimp only
    rw [if_neg (mt List.isEmpty_iff.mp hissues)]
    rfl

theorem conclude_clash (htyped : g.typed = true) (houtput : g.output = first :: rest)
    (h : mergeAll? first rest = .ok none) : conclude l ctx (.going g) = mismatch l ctx g.dataset := by
  funext w
  simp only [conclude, htyped, houtput, h]
  exact bind_of_eq_ok rfl

theorem conclude_untyped (htyped : g.typed = false) :
    conclude l ctx (.going g) = giveUp g.dataset := by
  simp only [conclude, htyped]

theorem giveUp_of_issues (h : d.issues ≠ []) (w : World) :
    giveUp d w = (.ok { d with status := .failure }, w) := by
  rw [giveUp, Dataset.fail_eq_ok_iff.mpr ⟨h, rfl⟩]
  rfl

/-- An end without a fault is one of these: merged outputs, a clash, or something untyped. -/
theorem cases_of_conclude (h : conclude l ctx (.going g) w = (.ok d, u)) :
    (∃ first rest y, g.typed = true ∧ g.output = first :: rest ∧ mergeAll? first rest = .ok (some y) ∧
        u = w ∧ d = ⟨if g.dataset.issues = [] then .success else .partly, y, g.dataset.issues⟩) ∨
      (∃ first rest i, g.typed = true ∧ g.output = first :: rest ∧ mergeAll? first rest = .ok none ∧
        ctx.report l.message (l.finding ctx.typeNames g.dataset.value) w = (.ok i, u) ∧
        d = g.dataset.failWith i) ∨
      (g.typed = false ∨ g.output = []) ∧ u = w ∧ d = { g.dataset with status := .failure } := by
  have given (heq : conclude l ctx (.going g) = giveUp g.dataset) :
      u = w ∧ d = { g.dataset with status := .failure } := by
    rw [heq] at h
    obtain ⟨hissues, rfl⟩ := Gathering.gives_giveUp (I := fun _ => True) ⟨w, u, trivial, h⟩
    cases (giveUp_of_issues hissues w).symm.trans h
    exact ⟨rfl, rfl⟩
  cases htyped : g.typed with
  | false => exact .inr (.inr ⟨.inl rfl, given (by simp only [conclude, htyped])⟩)
  | true =>
    cases houtput : g.output with
    | nil => exact .inr (.inr ⟨.inr rfl, given (by simp only [conclude, htyped, houtput])⟩)
    | cons first rest =>
      rcases hmerge : mergeAll? first rest with f | (_ | y)
      · simp only [conclude, htyped, houtput, hmerge] at h
        cases h
      · rw [conclude_clash htyped houtput hmerge] at h
        obtain ⟨i, v, hi, h⟩ := bind_eq_ok h
        obtain ⟨rfl, rfl⟩ := pure_eq_ok h
        exact .inr (.inl ⟨first, rest, i, rfl, rfl, hmerge, within_eq_ok hi, rfl⟩)
      · cases (conclude_merged htyped houtput hmerge).symm.trans h
        exact .inl ⟨first, rest, y, rfl, rfl, hmerge, rfl, rfl⟩

/-- What an intersection comes to when all its members have come to something. -/
inductive Concluded (ctx : Context) (l : Label) (x : Value) (ds : List Dataset) (v : World) :
    Dataset → World → Prop where
  | merged {y : Value} : (∀ d ∈ ds, d.isTyped = true) → Merges (ds.map (·.value)) y →
      Concluded ctx l x ds v
        ⟨if ds.flatMap (·.issues) = [] then .success else .partly, y, ds.flatMap (·.issues)⟩ v
  | untyped {d : Dataset} : d ∈ ds → d.isTyped = false →
      Concluded ctx l x ds v ⟨.failure, x, ds.flatMap (·.issues)⟩ v
  | clash {first : Value} {rest : List Value} {i : Issue} {u : World} :
      (∀ d ∈ ds, d.isTyped = true) → ds.map (·.value) = first :: rest → Clashes first rest →
      ctx.report l.message (l.finding ctx.typeNames x) v = (.ok i, u) →
      Concluded ctx l x ds v ⟨.failure, x, ds.flatMap (·.issues) ++ [i]⟩ u

end

end Validator

/-! ### Runs of an intersection -/

section

variable {ctx : Context} {I : Found → Prop} {U : Schema → Prop} {objects : Nat → Value}

/-- The members of an intersection, as their validators. -/
def Schema.memberValidators (members : List Schema) (n : Nat) : List Validator :=
  members.map fun t => t.validatorUpTo n

theorem Schema.validatorUpTo_intersection (m : Value) (members : List Schema) (n : Nat) :
    (Schema.intersection m members).validatorUpTo n =
      Validator.intersection (label (.intersection m members)) (memberValidators members n) := by
  simp only [validatorUpTo_eq, validator, validators_eq_map, memberValidators]

theorem Schema.run_intersection (ctx : Context) (m : Value) (members : List Schema) (x : Value) :
    (Schema.intersection m members).run ctx (.fresh x) =
      Validator.intersection (label (.intersection m members))
        (memberValidators members (ctx.bound (.intersection m members) x)) ctx (.fresh x) := by
  rw [run, validatorUpTo_intersection]
  rfl

theorem follows_memberValidators (hclosed : ctx.Closed I U) {members : List Schema} (hs : ∀ t ∈ members, U t)
    (n : Nat) : ∀ m ∈ Schema.memberValidators members n, ∃ t, U t ∧
      Follows ctx I (fun c y d => U c ∧ ctx.Yields I c y d) m t := by
  intro m hm
  obtain ⟨t, ht, rfl⟩ := List.mem_map.mp hm
  refine ⟨t, hs t ht, ?_⟩
  rw [Schema.validatorUpTo_eq]
  exact follows_validator hclosed n (hs t ht)

/-- Whatever members come to from a sound value is orderly if it is typed, and settled. -/
theorem forall_of_members (hclosed : ctx.Closed I U) (horderly : ctx.Orderly objects U)
    {members : List Schema} (hs : ∀ t ∈ members, U t) {n : Nat} {x : Value} (hx : x.Sound objects)
    (hheld : x.Held objects) {w u : World} (hI : I w.resolved) {ds : List Dataset}
    (h : (Schema.memberValidators members n).mapM (fun m => m.apply ctx x) w = (.ok ds, u)) :
    ∀ d ∈ ds, d.Settled ctx ∧ (d.isTyped = true → d.value.Orderly objects) := by
  have hfollows := follows_memberValidators hclosed hs n
  have hgives := forall₂_of_mapM (I := I) (fun m hm => by
    obtain ⟨t, -, hv⟩ := hfollows m hm
    exact hv.keeps) hI h
  intro d hd
  obtain ⟨i, hi, rfl⟩ := List.getElem_of_mem hd
  have hlength := hgives.length_eq
  obtain ⟨t, ht, hv⟩ := hfollows _ (List.getElem_mem (hlength ▸ hi))
  have hrun := (hv.apply ((List.forall₂_iff_get.mp hgives).2 i (hlength ▸ hi) hi)).2
  exact ⟨settled_of_yields hclosed ht hrun, orderly_of_yields hclosed horderly ht hrun hx hheld⟩

/-- Members go on without issues exactly when each comes to something. -/
theorem memberSteps_clean_iff (hclosed : ctx.Closed I U) {members : List Schema}
    (hs : ∀ t ∈ members, U t) {n : Nat} {x : Value} {w u : World} (hI : I w.resolved)
    {g : Gathering (List Value)} :
    let validators := Schema.memberValidators members n
    Gathering.steps (memberStep x ctx) validators (.start (.fresh x) []) w = (.ok (.going g), u) ∧
        g.dataset.issues = [] ↔
      ∃ ys, each (fun m => m.output ctx x) validators w = (.ok (some ys), u) ∧
        g = ⟨.fresh x, ys, true⟩ := by
  intro validators
  have hfollows := follows_memberValidators hclosed hs n
  have hsteps := @steps_clean_iff Validator Value (List Value) I (memberStep x ctx)
    (fun m => m.output ctx x) (fun _ y output => output ++ [y]) validators
    (fun m hm g => by
      obtain ⟨t, -, hv⟩ := hfollows m hm
      exact keeps_memberStep hv.keeps x g)
    (fun m hm g g' w u hI => by
      obtain ⟨t, ht, hv⟩ := hfollows m hm
      exact memberStep_clean_iff hv (fun x d hd => settled_of_yields hclosed ht hd.2) hI)
    (.start (.fresh x) []) g w u hI
  have outputs {ys : List Value}
      (h : each (fun m => m.output ctx x) validators w = (.ok (some ys), u)) :
      putAll (fun _ y output => output ++ [y]) validators ys [] = ys :=
    putAll_append (forall₂_of_each h).length_eq
  rw [hsteps]
  constructor
  · rintro ⟨-, ys, heach, rfl⟩
    exact ⟨ys, heach, congrArg (Gathering.mk (.fresh x) · true) (outputs heach)⟩
  · rintro ⟨ys, heach, rfl⟩
    exact ⟨rfl, ys, heach, congrArg (Gathering.mk (.fresh x) · true) (outputs heach).symm⟩

/-- An intersection succeeds exactly when its members come to outputs that can be merged. -/
theorem intersection_success_iff (hclosed : ctx.Closed I U) {members : List Schema}
    (hs : ∀ t ∈ members, U t) {n : Nat} {l : Label} {x : Value} {w u : World} (hI : I w.resolved)
    {d : Dataset} :
    let validators := Schema.memberValidators members n
    intersection l validators ctx (.fresh x) w = (.ok d, u) ∧ d.status = .success ↔
      ∃ first rest y, each (fun m => m.output ctx x) validators w = (.ok (some (first :: rest)), u) ∧
        mergeAll? first rest = .ok (some y) ∧ d = .valid y := by
  intro validators
  rw [intersection_fresh]
  constructor
  · rintro ⟨h, hstatus⟩
    obtain ⟨p, v, hp, hend⟩ := bind_eq_ok h
    cases p with
    | stopped e => exact (giveUp_ne_ok hend hstatus).elim
    | going g =>
      rcases cases_of_conclude hend with ⟨first, rest, y, htyped, houtput, hmerge, rfl, rfl⟩ |
        ⟨first, rest, i, -, -, -, -, rfl⟩ | ⟨-, -, rfl⟩
      · have hclean : g.dataset.issues = [] := by
          by_contra hissues
          dsimp only at hstatus
          rw [if_neg hissues] at hstatus
          cases hstatus
        obtain ⟨ys, heach, rfl⟩ := (memberSteps_clean_iff hclosed hs hI).mp ⟨hp, hclean⟩
        obtain rfl : ys = first :: rest := houtput
        refine ⟨first, rest, y, heach, hmerge, ?_⟩
        rw [if_pos hclean, hclean]
        rfl
      · cases hstatus
      · cases hstatus
  · rintro ⟨first, rest, y, heach, hmerge, rfl⟩
    obtain ⟨hp, hclean⟩ := (memberSteps_clean_iff hclosed hs hI).mpr ⟨first :: rest, heach, rfl⟩
    refine ⟨?_, rfl⟩
    rw [bind_of_eq_ok hp, conclude_merged rfl rfl hmerge, if_pos hclean]
    rfl

/-- Members that all succeed come to orderly outputs. -/
theorem orderly_of_outputs (hclosed : ctx.Closed I U) (horderly : ctx.Orderly objects U)
    {members : List Schema} (hs : ∀ t ∈ members, U t) {n : Nat} {x : Value} (hx : x.Sound objects)
    (hheld : x.Held objects) {w u : World} (hI : I w.resolved) {ys : List Value}
    (h : each (fun m => m.output ctx x) (Schema.memberValidators members n) w = (.ok (some ys), u)) :
    ∀ y ∈ ys, y.Orderly objects := by
  have runs {ms : List Validator} {ys : List Value} {w : World}
      (h : each (fun m => m.output ctx x) ms w = (.ok (some ys), u)) :
      ∃ ds : List Dataset, ms.mapM (fun m => m.apply ctx x) w = (.ok ds, u) ∧
        ds.map (·.value) = ys ∧ ∀ d ∈ ds, d.status = .success := by
    induction ms generalizing ys w with
    | nil =>
      cases h
      exact ⟨[], rfl, rfl, List.forall_mem_nil _⟩
    | cons m rest ih =>
      obtain ⟨y, ys, v, rfl, hone, hrest⟩ := each_cons_eq_ok h
      obtain ⟨d, hrun, hstatus, rfl⟩ := output_eq_some_iff.mp hone
      obtain ⟨ds, hds, rfl, hall⟩ := ih hrest
      refine ⟨d :: ds, ?_, rfl, List.forall_mem_cons.mpr ⟨hstatus, hall⟩⟩
      rw [List.mapM_cons, bind_of_eq_ok hrun, bind_of_eq_ok hds]
      rfl
  obtain ⟨ds, hds, rfl, hall⟩ := runs h
  intro y hy
  obtain ⟨d, hd, rfl⟩ := List.mem_map.mp hy
  refine (forall_of_members hclosed horderly hs hx hheld hI hds d hd).2 ?_
  rw [Dataset.isTyped, hall d hd]
  rfl

/-- What members have come to, if they are all typed, is gathered as their outputs. -/
theorem Gathering.output_withMembers {d : Dataset} {ds : List Dataset} (h : ∀ d ∈ ds, d.isTyped = true) :
    ((Gathering.start d []).withMembers ds).typed = true ∧
      ((Gathering.start d []).withMembers ds).output = ds.map (·.value) := by
  refine ⟨List.all_eq_true.mpr h, ?_⟩
  rw [withMembers, List.filter_eq_self.mpr h]
  rfl

theorem Gathering.typed_withMembers {d : Dataset} {ds : List Dataset}
    (h : ((Gathering.start d []).withMembers ds).typed = true) : ∀ d ∈ ds, d.isTyped = true :=
  List.all_eq_true.mp h

section

variable (hclosed : ctx.Closed I U) (horderly : ctx.Orderly objects U)
  (hfull : ctx.config.abortEarly = false) {members : List Schema} (hlength : 2 ≤ members.length)
  (hs : ∀ t ∈ members, U t) {n : Nat} {l : Label} {x : Value} (hx : x.Sound objects)
  (hheld : x.Held objects) {w v u : World} (hI : I w.resolved) {d : Dataset} {ds : List Dataset}

include hclosed horderly hs hx hheld hI

theorem orderly_of_mapM
    (hds : (Schema.memberValidators members n).mapM (fun m => m.apply ctx x) w = (.ok ds, v))
    (htyped : ∀ d ∈ ds, d.isTyped = true) : ∀ y ∈ ds.map (·.value), y.Orderly objects := by
  intro y hy
  obtain ⟨d, hd, rfl⟩ := List.mem_map.mp hy
  exact (forall_of_members hclosed horderly hs hx hheld hI hds d hd).2 (htyped d hd)

omit horderly hx hheld in
theorem length_of_mapM
    (hds : (Schema.memberValidators members n).mapM (fun m => m.apply ctx x) w = (.ok ds, v)) :
    (ds.map (·.value)).length = members.length := by
  have hgives := forall₂_of_mapM (fun m hm => by
    obtain ⟨t, -, hv⟩ := follows_memberValidators hclosed hs n m hm
    exact hv.keeps) hI hds
  rw [List.length_map, ← hgives.length_eq, Schema.memberValidators, List.length_map]

include hfull hlength

/-- Without early abort an intersection ends as its members have come to something. -/
theorem concluded_of_intersection
    (h : intersection l (Schema.memberValidators members n) ctx (.fresh x) w = (.ok d, u)) :
    ∃ ds v, (Schema.memberValidators members n).mapM (fun m => m.apply ctx x) w = (.ok ds, v) ∧
      Concluded ctx l x ds v d u := by
  rw [intersection_fresh] at h
  obtain ⟨p, v, hp, hend⟩ := bind_eq_ok h
  obtain ⟨ds, hds, rfl⟩ := (steps_members_iff hfull).mp hp
  refine ⟨ds, v, hds, ?_⟩
  rw [← length_of_mapM hclosed hs hI hds] at hlength
  rcases cases_of_conclude hend with ⟨first, rest, y, htyped, houtput, hmerge, rfl, rfl⟩ |
    ⟨first, rest, i, htyped, houtput, hmerge, hi, rfl⟩ | ⟨huntyped, rfl, rfl⟩
  · have htyped := Gathering.typed_withMembers htyped
    have hvalues := (Gathering.output_withMembers htyped).2.symm.trans houtput
    have horderly := orderly_of_mapM hclosed horderly hs hx hheld hI hds htyped
    rw [hvalues] at horderly hlength
    rw [List.forall_mem_cons] at horderly
    have hmerges := merges_of_mergeAll? horderly.1 horderly.2
      (by rintro rfl; simp at hlength) hmerge
    exact .merged htyped (hvalues ▸ hmerges)
  · have htyped := Gathering.typed_withMembers htyped
    have hvalues := (Gathering.output_withMembers htyped).2.symm.trans houtput
    have horderly := orderly_of_mapM hclosed horderly hs hx hheld hI hds htyped
    rw [hvalues, List.forall_mem_cons] at horderly
    exact .clash htyped hvalues ((mergeAll?_eq_none_iff horderly.1.held
      fun v hv => (horderly.2 v hv).held).mp hmerge) hi
  · by_cases htyped : ∀ d ∈ ds, d.isTyped = true
    · obtain ⟨hall, houtput⟩ := Gathering.output_withMembers (d := .fresh x) htyped
      rcases huntyped with huntyped | hnone
      · cases hall.symm.trans huntyped
      · rw [← houtput, hnone] at hlength
        simp at hlength
    · push Not at htyped
      obtain ⟨d, hd, huntyped⟩ := htyped
      exact .untyped hd (Bool.eq_false_iff.mpr huntyped)

/-- Without early abort an intersection ends whenever it can be concluded what it comes to. -/
theorem exists_of_concluded
    (hds : (Schema.memberValidators members n).mapM (fun m => m.apply ctx x) w = (.ok ds, v))
    (h : Concluded ctx l x ds v d u) :
    ∃ e, intersection l (Schema.memberValidators members n) ctx (.fresh x) w = (.ok e, u) := by
  have hp := (steps_members_iff (g := .start (.fresh x) []) hfull).mpr ⟨ds, hds, rfl⟩
  rw [intersection_fresh, bind_of_eq_ok hp]
  cases h with
  | merged htyped hmerges =>
    obtain ⟨hall, houtput⟩ := Gathering.output_withMembers (d := .fresh x) htyped
    have horderly := orderly_of_mapM hclosed horderly hs hx hheld hI hds htyped
    have hagree := hmerges.agree
    rw [← length_of_mapM hclosed hs hI hds] at hlength
    obtain ⟨first, rest, hvalues⟩ := List.exists_cons_of_length_pos (Nat.lt_of_lt_of_le Nat.two_pos hlength)
    rw [hvalues] at hagree horderly
    rw [List.forall_mem_cons] at horderly
    obtain ⟨y, hy⟩ := (exists_mergeAll?_iff horderly.1.held
      fun v hv => (horderly.2 v hv).held).mpr hagree
    exact ⟨_, conclude_merged hall (houtput.trans hvalues) hy⟩
  | @untyped d hd huntyped =>
    have hall : ((Gathering.start (.fresh x) []).withMembers ds).typed = false := by
      refine Bool.eq_false_iff.mpr fun hall => ?_
      cases huntyped.symm.trans (Gathering.typed_withMembers hall d hd)
    have hsettled := (forall_of_members hclosed horderly hs hx hheld hI hds d hd).1
    rw [conclude_untyped hall]
    refine ⟨_, giveUp_of_issues (fun hnone => hsettled.justified.untyped huntyped ?_) v⟩
    exact List.flatMap_eq_nil_iff.mp hnone d hd
  | clash htyped hvalues hclash hi =>
    obtain ⟨hall, houtput⟩ := Gathering.output_withMembers (d := .fresh x) htyped
    have horderly := orderly_of_mapM hclosed horderly hs hx hheld hI hds htyped
    rw [hvalues, List.forall_mem_cons] at horderly
    have hmerge := (mergeAll?_eq_none_iff horderly.1.held
      fun v hv => (horderly.2 v hv).held).mpr hclash
    rw [conclude_clash hall (houtput.trans hvalues) hmerge]
    exact ⟨_, bind_of_eq_ok (within_of_eq_ok _ hi)⟩

end

end

/-- What an intersection comes to.  It succeeds exactly when its members all succeed on the value, one
after another, and their outputs are all mappings or all strictly equal to the first; and then it comes
to what they are merged into.  If it does not stop at the first issue then it comes to what is concluded
from what its members come to. -/
theorem intersection_contract {ctx : Context} {objects : Nat → Value} {m : Value}
    {members : List Schema} (hlength : 2 ≤ members.length) {x : Value} (hx : x.Sound objects)
    (hheld : x.Held objects) {w : World}
    (horderly : ctx.Orderly objects (ctx.Reaches w.resolved (.intersection m members))) :
    let s := Schema.intersection m members
    let validators := Schema.memberValidators members (ctx.bound s x)
    (∀ u, (∃ d, s.run ctx (.fresh x) w = (.ok d, u) ∧ d.status = .success) ↔
      ∃ outputs, each (fun m => m.output ctx x) validators w = (.ok (some outputs), u) ∧
        (AllMappings outputs ∨ AllEqual outputs)) ∧
    (∀ d u outputs, s.run ctx (.fresh x) w = (.ok d, u) → d.status = .success →
      each (fun m => m.output ctx x) validators w = (.ok (some outputs), u) → Merges outputs d.value) ∧
    (ctx.config.abortEarly = false →
      (∀ d u, s.run ctx (.fresh x) w = (.ok d, u) → ∃ ds v,
        validators.mapM (fun m => m.apply ctx x) w = (.ok ds, v) ∧ Concluded ctx s.label x ds v d u) ∧
      ∀ ds v d u, validators.mapM (fun m => m.apply ctx x) w = (.ok ds, v) →
        Concluded ctx s.label x ds v d u → ∃ e, s.run ctx (.fresh x) w = (.ok e, u)) := by
  intro s validators
  have hclosed := ctx.closed_reaches w.resolved s
  have hstart := ctx.leads_reaches w.resolved s
  have hs : ∀ t ∈ members, ctx.Reaches w.resolved s t := fun t ht => hclosed.part .start ht
  have hrun : s.run ctx (.fresh x) = intersection s.label validators ctx (.fresh x) :=
    Schema.run_intersection ctx m members x
  have outputs {u : World} {first : Value} {rest : List Value}
      (heach : each (fun m => m.output ctx x) validators w = (.ok (some (first :: rest)), u)) :=
    List.forall_mem_cons.mp (orderly_of_outputs hclosed horderly hs hx hheld hstart heach)
  have hvalidators : 2 ≤ validators.length := by
    rw [show validators.length = members.length from List.length_map _]
    exact hlength
  rw [hrun]
  refine ⟨fun u => ?_, fun d u ys h hstatus heach => ?_, fun hfull => ⟨fun d u h => ?_,
    fun ds v d u hds h => ?_⟩⟩
  · constructor
    · rintro ⟨d, h⟩
      obtain ⟨first, rest, y, heach, hmerge, -⟩ := (intersection_success_iff hclosed hs hstart).mp h
      obtain ⟨hfirst, hrest⟩ := outputs heach
      exact ⟨first :: rest, heach, (exists_mergeAll?_iff hfirst.held
        fun v hv => (hrest v hv).held).mp ⟨y, hmerge⟩⟩
    · rintro ⟨ys, heach, hagree⟩
      have hys := (forall₂_of_each heach).length_eq
      obtain ⟨first, rest, rfl⟩ := List.exists_cons_of_length_pos
        (Nat.lt_of_lt_of_le Nat.two_pos (hys ▸ hvalidators))
      obtain ⟨hfirst, hrest⟩ := outputs heach
      obtain ⟨y, hmerge⟩ := (exists_mergeAll?_iff hfirst.held
        fun v hv => (hrest v hv).held).mpr hagree
      exact ⟨_, (intersection_success_iff hclosed hs hstart).mpr ⟨first, rest, y, heach, hmerge, rfl⟩⟩
  · obtain ⟨first, rest, y, heach', hmerge, rfl⟩ :=
      (intersection_success_iff hclosed hs hstart).mp ⟨h, hstatus⟩
    cases heach.symm.trans heach'
    obtain ⟨hfirst, hrest⟩ := outputs heach
    have hys := (forall₂_of_each heach).length_eq
    rw [hys, List.length_cons] at hvalidators
    exact merges_of_mergeAll? hfirst hrest (by rintro rfl; simp at hvalidators) hmerge
  · exact concluded_of_intersection hclosed horderly hfull hlength hs hx hheld hstart h
  · exact exists_of_concluded hclosed horderly hfull hlength hs hx hheld hstart hds h

/-- Two objects that each look at one key of a mapping: their outputs are combined. -/
theorem intersection_contract_objects :
    let a : Value := .scalar .shared (.str .base "a")
    let b : Value := .scalar .shared (.str .base "b")
    let ctx : Context := ⟨.default, [], [], [], ⟨fun _ _ _ => .error .callable, 0⟩⟩
    let one (key : Value) : Schema :=
      .object .null 0 .plain .strip .reject [(key, .anything .null false)]
    let s := Schema.intersection .null [one a, one b]
    let x : Value := .ofMapping [(b, .int 2), (a, .int 1)]
    2 ≤ [one a, one b].length ∧ x.Sound (fun _ => .null) ∧ x.Held (fun _ => .null) ∧
      ctx.Orderly (fun _ => .null) (ctx.Reaches [] s) ∧
      ∃ d u, s.run ctx (.fresh x) .empty = (.ok d, u) ∧ d.status = .success ∧
        Merges [.ofMapping [(a, .int 1)], .ofMapping [(b, .int 2)]] d.value := by
  intro a b ctx one s x
  have keyable {k : String} : (Value.scalar .shared (.str .base k)).Keyable fun _ => .null :=
    Target.keyable_of_accepts (t := .string) rfl fun _ h => by cases h
  have number {n : Int} : (Value.int n).Sound fun _ => .null :=
    (Target.keyable_of_accepts (t := .number) rfl fun _ h => by cases h).sound
  have hx : x.Sound fun _ => .null := by
    refine .mapping ?_ ?_ ?_
    · exact List.pairwise_pair.mpr rfl
    · simp only [List.forall_mem_cons]
      exact ⟨keyable, keyable, List.forall_mem_nil _⟩
    · simp only [List.forall_mem_cons]
      exact ⟨number, number, List.forall_mem_nil _⟩
  have hheld : x.Held fun _ => .null := fun i hi => by cases hi
  have hparts : ∀ t, ctx.Reaches [] s t → t = s ∨ t = one a ∨ t = one b ∨ t = .anything .null false := by
    intro t ht
    refine ht.closed (Q := fun t => t = s ∨ t = one a ∨ t = one b ∨ t = .anything .null false)
      (.inl rfl) (fun t c ht hc => ?_) fun m id getter r ht => ?_
    · rcases ht with rfl | rfl | rfl | rfl <;>
        simp only [Schema.children, List.mem_cons, List.not_mem_nil, List.map_cons, List.map_nil,
          or_false, s, one] at hc ⊢ <;> tauto
    · simp [s, one] at ht
  have horderly : ctx.Orderly (fun _ => .null) (ctx.Reaches [] s) := by
    refine ⟨⟨fun ht => ?_, fun ht => ?_⟩, fun ht => ?_, fun ht => ?_, fun {m id kind extra absent entries} ht => ?_⟩
    · simpa [s, one] using hparts _ ht
    · simpa [s, one] using hparts _ ht
    · simpa [s, one] using hparts _ ht
    · simpa [s, one] using hparts _ ht
    · have hentries : entries = [(a, .anything .null false)] ∨ entries = [(b, .anything .null false)] := by
        rcases hparts _ ht with h | h | h | h
        · simp [s] at h
        · exact .inl (Schema.object.inj h).2.2.2.2.2
        · exact .inr (Schema.object.inj h).2.2.2.2.2
        · cases h
      rcases hentries with rfl | rfl <;>
        exact ⟨List.pairwise_singleton _ _, List.forall_mem_singleton.mpr keyable⟩
  have hlength : 2 ≤ [one a, one b].length := Nat.le_refl 2
  obtain ⟨hsuccess, hmerges, -⟩ :=
    intersection_contract (m := .null) (w := .empty) hlength hx hheld horderly
  have heach : each (fun m => m.output ctx x) (Schema.memberValidators [one a, one b] (ctx.bound s x))
      .empty = (.ok (some [.ofMapping [(a, .int 1)], .ofMapping [(b, .int 2)]]), .empty) := rfl
  have hall : AllMappings [.ofMapping [(a, .int 1)], .ofMapping [(b, .int 2)]] := by
    simp [AllMappings, Value.isMapping, Value.entries?, Value.ofMapping]
  obtain ⟨d, hrun, hstatus⟩ := (hsuccess .empty).mpr ⟨_, heach, .inl hall⟩
  exact ⟨hlength, hx, hheld, horderly, d, .empty, hrun, hstatus, hmerges d .empty _ hrun hstatus heach⟩

end Conform
