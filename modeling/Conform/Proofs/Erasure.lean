/-
  Conform/Proofs/Erasure.lean
  ===========================
  **Constraints only add issues.**  The run of a schema and the run of the schema
  without its constraints go the same way: whatever one of them comes to typed, so
  does the other, with the same value, and the issues differ by those of the
  constraints (`run_erase`).

  The second run is put together along the first.  A violated constraint leaves its
  part typed, so every container gathers the same output from both
  (`Gathering.Pared`), and ends alike.
-/
import Conform.Proofs.Completeness
import Conform.Proofs.Erase

namespace Conform

/-! ### Without what constraints have reported -/

/-- A dataset next to what it is without the issues of violated constraints: typed values are valid
then, and all others have failed. -/
structure Dataset.Pared (d e : Dataset) : Prop where
  status : e.status = if d.isTyped then .success else .failure
  clean : e.issues = [] ↔ d.isTyped = true
  value : d.isTyped = true → e.value = d.value
  sublist : e.issues.Sublist d.issues

/-- What a part brings, next to what it brings without the issues of violated constraints. -/
structure Contribution.Pared {α : Type} (c c' : Contribution α) : Prop where
  typed : c'.typed = c.typed
  clean : c'.issues = [] ↔ c.typed = true
  put : c.typed = true → c'.put = c.put
  sublist : c'.issues.Sublist c.issues

/-- What is gathered, next to what is gathered without the issues of violated constraints. -/
structure Gathering.Pared {α : Type} (g g' : Gathering α) : Prop where
  output : g'.output = g.output
  typed : g'.typed = g.typed
  value : g'.dataset.value = g.dataset.value
  clean : g'.dataset.issues = [] ↔ g.typed = true
  sublist : g'.dataset.issues.Sublist g.dataset.issues

section

variable {α σ τ : Type} {ctx : Context}

namespace Dataset

theorem pared_valid (y : Value) : (valid y).Pared (valid y) where
  status := rfl
  clean := ⟨fun _ => rfl, fun _ => rfl⟩
  value _ := rfl
  sublist := .refl _

theorem pared_of_failure {d : Dataset} (hstatus : d.status = .failure) (hissues : d.issues ≠ []) :
    d.Pared d := by
  have htyped : d.isTyped = false := by rw [isTyped, hstatus]; rfl
  refine ⟨?_, ?_, ?_, .refl _⟩ <;> simp [htyped, hstatus, hissues]

theorem pared_invalid (x : Value) (i : Issue) : (invalid x i []).Pared (.invalid x i []) :=
  pared_of_failure rfl (List.cons_ne_nil i [])

/-- A violated constraint leaves a typed value typed. -/
theorem Pared.violate {d e : Dataset} (h : d.Pared e) (htyped : d.isTyped = true) (i : Issue) :
    (d.violate false i).Pared e := by
  have hviolated : (d.violate false i).isTyped = true := rfl
  refine ⟨?_, ?_, fun _ => h.value htyped, ?_⟩
  · rw [hviolated, h.status, htyped]
  · rw [hviolated, h.clean, htyped]
  · rw [issues_violate]
    exact h.sublist.trans (List.sublist_append_left _ _)

theorem Pared.isTyped_eq {d e : Dataset} (h : d.Pared e) : e.isTyped = d.isTyped := by
  rw [isTyped, h.status]
  cases d.isTyped <;> rfl

theorem Pared.contribution {d e : Dataset} (h : d.Pared e) (key : Value) (put : Value → α → α) :
    (d.contribution key put).Pared (e.contribution key put) where
  typed := h.isTyped_eq
  clean := List.map_eq_nil_iff.trans h.clean
  put htyped := congrArg put (h.value htyped)
  sublist := h.sublist.map _

end Dataset

theorem Contribution.pared_plain (put : α → α) : (Contribution.plain put).Pared (.plain put) :=
  ⟨rfl, ⟨fun _ => rfl, fun _ => rfl⟩, fun _ => rfl, .refl _⟩

theorem Issue.pared_contribution (i : Issue) :
    (i.contribution : Contribution α).Pared i.contribution :=
  ⟨rfl, ⟨fun h => (by cases h), fun h => (by cases h)⟩, fun _ => rfl, .refl _⟩

namespace Gathering

theorem pared_start (x : Value) (output : α) :
    (start (.fresh x) output).Pared (start (.fresh x) output) :=
  ⟨rfl, rfl, rfl, ⟨fun _ => rfl, fun _ => rfl⟩, .refl _⟩

/-- What is gathered, after one more contribution when nothing stops it. -/
def accept (g : Gathering α) (c : Contribution α) : Gathering α :=
  ⟨g.dataset.addAll c.issues, if c.typed then c.put g.output else g.output, g.typed && c.typed⟩

theorem Pared.accept {g g' : Gathering α} (hg : g.Pared g') {c c' : Contribution α}
    (hc : c.Pared c') : (g.accept c).Pared (g'.accept c') where
  output := by
    cases htyped : c.typed with
    | false => simp [Gathering.accept, hc.typed, htyped, hg.output]
    | true => simp [Gathering.accept, hc.typed, htyped, hg.output, hc.put htyped]
  typed := by simp only [Gathering.accept, hg.typed, hc.typed]
  value := hg.value
  clean := by
    simp only [Gathering.accept, Dataset.addAll, List.append_eq_nil_iff, hg.clean, hc.clean,
      Bool.and_eq_true]
  sublist := hg.sublist.append hc.sublist

/-- Without early abort, a path over parts has a path over the pared parts beside it; both gather
what the turns of the parts say. -/
theorem pared_of_path (hfull : ctx.config.abortEarly = false)
    {brings : σ → Contribution α → Prop} {brings' : τ → Contribution α → Prop} {f : σ → τ}
    {turn : σ → Turn → Prop}
    {xs : List σ} (hbrings : ∀ s ∈ xs, ∀ c, brings s c →
      ∃ c', c.Pared c' ∧ brings' (f s) c' ∧ turn s ⟨c.issues, c'.issues⟩)
    {g g' : Gathering α} {p : Progress α} (h : Path ctx brings xs g p) (hg : g.Pared g') :
    ∃ h h' turns, p = .going h ∧ Path ctx brings' (xs.map f) g' (.going h') ∧ h.Pared h' ∧
      List.Forall₂ turn xs turns ∧
      h.dataset.issues = g.dataset.issues ++ turns.flatMap (·.issues) ∧
      h'.dataset.issues = g'.dataset.issues ++ turns.flatMap (·.left) := by
  induction h generalizing g' with
  | @done g => exact ⟨g, g', [], rfl, .done, hg, .nil, by simp, by simp⟩
  | @next s rest c g g₁ p hc hreceive _ ih =>
    obtain rfl := eq_of_receive hreceive
    rw [List.forall_mem_cons] at hbrings
    obtain ⟨c', hpared, hc', hturn⟩ := hbrings.1 c hc
    obtain ⟨h, h', turns, rfl, hpath, hgathered, hturns, hissues, hleft⟩ :=
      ih hbrings.2 (hg.accept hpared)
    refine ⟨h, h', _ :: turns, rfl, .next hc' (receive_of_full hfull _ _) hpath, hgathered,
      .cons hturn hturns, ?_, ?_⟩
    · simpa [Dataset.addAll] using hissues
    · simpa [accept, Dataset.addAll] using hleft
  | stop _ hreceive =>
    rw [receive_of_full hfull] at hreceive
    cases hreceive

/-- Without issues everything is typed. -/
theorem Pared.typed_of_nil {g g' : Gathering α} (hg : g.Pared g') (hissues : g.dataset.issues = []) :
    g.typed = true := by
  rw [← hg.clean, ← List.sublist_nil, ← hissues]
  exact hg.sublist

theorem Pared.succeed {g g' : Gathering α} (hg : g.Pared g') (htyped : g.typed = true)
    {d : Dataset} (hd : d.isTyped = true) : d.Pared (g'.dataset.succeed d.value) where
  status := by
    rw [hd]
    rfl
  clean := by rw [Dataset.issues_succeed, hg.clean, htyped, hd]
  value _ := rfl
  sublist := by
    rw [Dataset.issues_succeed, hg.clean.mpr htyped]
    exact List.nil_sublist _

theorem Pared.fails {g g' : Gathering α} (hg : g.Pared g') (htyped : g.typed = false) :
    g'.dataset.issues ≠ [] ∧
      Dataset.Pared { g.dataset with status := .failure } { g'.dataset with status := .failure } := by
  have hleft : g'.dataset.issues ≠ [] := by
    rw [ne_eq, hg.clean, htyped]
    exact Bool.false_ne_true
  refine ⟨hleft, rfl, ?_, ?_, hg.sublist⟩
  · simp [hleft, Dataset.isTyped, Status.isTyped]
  · intro h
    cases h

/-- A container ends alike with what is gathered without the issues of constraints. -/
theorem pared_of_finished {make : α → Except Fault Value} {g g' : Gathering α} {d : Dataset}
    (hg : g.Pared g') (h : Finished make (.going g) d) :
    ∃ e, Finished make (.going g') e ∧ d.Pared e ∧ e.issues = g'.dataset.issues := by
  have made {output : Value} (hmake : make g.output = .ok output) : make g'.output = .ok output :=
    hg.output ▸ hmake
  cases h with
  | valid hissues hmake =>
    have htyped := hg.typed_of_nil hissues
    exact ⟨_, .valid (hg.clean.mpr htyped) (made hmake), hg.succeed htyped rfl, rfl⟩
  | partly hissues htyped hmake =>
    exact ⟨_, .valid (hg.clean.mpr htyped) (made hmake), hg.succeed htyped rfl, rfl⟩
  | failed hissues htyped hmake =>
    obtain ⟨hleft, hpared⟩ := hg.fails htyped
    exact ⟨_, .failed hleft (hg.typed.trans htyped) (made hmake), hpared, rfl⟩

end Gathering

/-- An intersection of members that are all typed or not merges alike. -/
theorem pared_of_merged {I : Found → Prop} {l : Label} {g g' : Gathering (List Value)} {d : Dataset}
    (hg : g.Pared g') (houtput : g.typed = true → g.output ≠ [])
    (h : Merged ctx I l (.going g) d) :
    ∃ e reported, Merged ctx I l (.going g') e ∧ d.Pared e ∧
      d.issues = g.dataset.issues ++ reported ∧ e.issues = g'.dataset.issues ++ reported ∧
      (reported = [] ∨ ∃ i, reported = [i] ∧
        Gives I (ctx.report l.message (l.finding ctx.typeNames g.dataset.value)) i) := by
  have valid {first output : Value} {rest : List Value} (htyped : g.typed = true)
      (heq : g.output = first :: rest)
      (hmerge : Validator.mergeAll? first rest = .ok (some output)) :
      Merged ctx I l (.going g') (g'.dataset.succeed output) :=
    .valid (hg.typed.trans htyped) (hg.output.trans heq) hmerge (hg.clean.mpr htyped)
  cases h with
  | valid htyped heq hmerge _ =>
    exact ⟨_, [], valid htyped heq hmerge, hg.succeed htyped rfl, by simp, by simp, .inl rfl⟩
  | partly htyped heq hmerge _ =>
    refine ⟨_, [], valid htyped heq hmerge, hg.succeed htyped rfl, ?_, by simp, .inl rfl⟩
    exact (List.append_nil _).symm
  | @conflict _ first rest i htyped heq hmerge hi =>
    refine ⟨g'.dataset.failWith i, [i],
      .conflict (hg.typed.trans htyped) (hg.output.trans heq) hmerge (by rwa [hg.value]), ?_, rfl,
      rfl, .inr ⟨i, rfl, hi⟩⟩
    refine ⟨rfl, ⟨fun hnil => ?_, fun h => (by cases h)⟩, fun h => (by cases h),
      hg.sublist.append (.refl _)⟩
    simp at hnil
  | failed hor hissues =>
    have huntyped : g.typed = false := by
      rcases hor with htyped | hnil
      · exact htyped
      · exact Bool.eq_false_iff.mpr fun htyped => houtput htyped hnil
    obtain ⟨hleft, hpared⟩ := hg.fails huntyped
    refine ⟨_, [], .failed (.inl (hg.typed.trans huntyped)) hleft, hpared, ?_, ?_, .inl rfl⟩ <;>
      exact (List.append_nil _).symm

end

/-! ### Runs of parts -/

/-- The schema sets another value in the place of a valid one. -/
def Schema.isOverwrite : Schema → Bool
  | .overwrite .. => true
  | _ => false

/-- Schemas `U` that are steady, and those `V` among them that are erased: no constraint of these
ends the validation, and neither does the configuration. -/
structure Context.Erases (ctx : Context) (U V : Schema → Prop) : Prop where
  steadies : ctx.Steadies U
  full : ctx.config.abortEarly = false
  known {s : Schema} : V s → U s
  exposed {s c : Schema} : V s → c ∈ s.exposed → V c
  aborts {s : Schema} : V s → s.aborts = false
  overwrite {s : Schema} : V s → s.isOverwrite = false

/-- A run, and the run of the schema without its constraints beside it. -/
structure Beside (ctx : Context) (s : Schema) (x : Value) (d e : Dataset) : Prop where
  yields : ctx.Yields (fun _ => True) s x d
  returns : Returns (s.erase.validatorUpTo 0 ctx (.fresh x)) (· = e)
  pared : d.Pared e
  sheds : s.Sheds ctx x d e.issues

/-- Runs of parts, which have one beside them if the part is erased. -/
abbrev Context.Accompanied (ctx : Context) (U V : Schema → Prop) : Runs := fun s x d =>
  U s ∧ ctx.Yields (fun _ => True) s x d ∧ (V s → ∃ e, Beside ctx s x d e)

/-- What runs leave of the issues that they have come to. -/
abbrev Context.Leaves (ctx : Context) : Leavings := fun s x d left =>
  ctx.Yields (fun _ => True) s x d ∧ s.Sheds ctx x d left

section

variable {ctx : Context} {U V : Schema → Prop} (h : ctx.Erases U V)

include h

omit h in
theorem Beside.leaves {s : Schema} {x : Value} {d e : Dataset} (he : Beside ctx s x d e) :
    ctx.Leaves s x d e.issues :=
  ⟨he.yields, he.sheds⟩

omit h in
theorem pared_of_partBrings {p : Position} (hp : V p.schema) {c : Contribution (List Value)}
    (hc : PartBrings (ctx.Accompanied U V) p c) :
    ∃ c', c.Pared c' ∧ PartBrings ctx.Answers p.erase c' ∧
      PositionTurn ctx.Leaves p ⟨c.issues, c'.issues⟩ := by
  cases hc with
  | run hrun =>
    obtain ⟨e, he⟩ := hrun.2.2 hp
    exact ⟨_, he.pared.contribution _ _, .run (p := p.erase) he.returns, .run he.leaves⟩

omit h in
theorem pared_of_memberBrings {s : Schema} (hs : V s) {x : Value} {c : Contribution (List Value)}
    (hc : MemberBrings (ctx.Accompanied U V) x s c) :
    ∃ c', c.Pared c' ∧ MemberBrings ctx.Answers x s.erase c' ∧
      MemberTurn ctx.Leaves x s ⟨c.issues, c'.issues⟩ := by
  cases hc with
  | run hrun =>
    obtain ⟨e, he⟩ := hrun.2.2 hs
    refine ⟨_, ?_, .run he.returns, .run he.leaves⟩
    refine ⟨he.pared.isTyped_eq, he.pared.clean, fun htyped => ?_, he.pared.sublist⟩
    simp only [he.pared.value htyped]

/-- A step of an object over the declared keys whose schemas are erased. -/
def eraseStep : (Value × Schema) ⊕ (Value × Value) → (Value × Schema) ⊕ (Value × Value) :=
  Sum.map (fun e => (e.1, e.2.erase)) id

omit h in
theorem pared_of_objectBrings {l : Label} {kind : ObjectKind} {extra : Extra} {absent : Absent}
    {input : Value.Entries} {step : (Value × Schema) ⊕ (Value × Value)}
    (hstep : ∀ e, step = .inl e → V e.2) {c : Contribution Value.Entries}
    (hc : ObjectBrings ctx (fun _ => True) (ctx.Accompanied U V) l kind extra absent input step c) :
    ∃ c', c.Pared c' ∧
      ObjectBrings ctx (fun _ => True) ctx.Answers l kind extra absent input (eraseStep step) c' ∧
      ObjectTurn ctx ctx.Leaves l kind extra absent input step ⟨c.issues, c'.issues⟩ := by
  cases hc with
  | @declared e _ hdeclared =>
    cases hdeclared with
    | present hget hrun =>
      obtain ⟨d, hd⟩ := hrun.2.2 (hstep e rfl)
      exact ⟨_, hd.pared.contribution _ _, .declared (.present hget hd.returns),
        .present hget hd.leaves⟩
    | validated hget habsent hrun =>
      obtain ⟨d, hd⟩ := hrun.2.2 (hstep e rfl)
      exact ⟨_, hd.pared.contribution _ _, .declared (.validated hget habsent hd.returns),
        .validated hget habsent hd.leaves⟩
    | skipped hget habsent =>
      exact ⟨_, Contribution.pared_plain id, .declared (.skipped hget habsent),
        .own (.declared (.skipped hget habsent))⟩
    | missing hget habsent hi =>
      refine ⟨_, Issue.pared_contribution _, .declared (.missing hget habsent ?_),
        .own (.declared (.missing hget habsent hi))⟩
      rwa [Schema.expects_erase]
  | extra hextra =>
    cases hextra with
    | dropped hextra =>
      exact ⟨_, Contribution.pared_plain _, .extra (.dropped hextra), .own (.extra (.dropped hextra))⟩
    | kept hextra =>
      exact ⟨_, Contribution.pared_plain _, .extra (.kept hextra), .own (.extra (.kept hextra))⟩
    | unexpected hextra hi hkind =>
      exact ⟨_, Issue.pared_contribution _, .extra (.unexpected hextra hi hkind),
        .own (.extra (.unexpected hextra hi hkind))⟩

theorem pared_of_recordBrings {l : Label} {key value : Schema} (hvalue : V value)
    {e : Value × Value} {c : Contribution Value.Entries}
    (hc : RecordBrings ctx (fun _ => True) (ctx.Accompanied U V) l key value e c) :
    ∃ c', c.Pared c' ∧
      RecordBrings ctx (fun _ => True) ctx.Answers l key value.erase e c' ∧
      RecordTurn ctx ctx.Leaves l key value e ⟨c.issues, c'.issues⟩ := by
  have answered {r : Issue ⊕ (Value × Bool)}
      (hr : Checked ctx (fun _ => True) (ctx.Accompanied U V) l "map_key" e.1 key e.1 r) :
      Checked ctx (fun _ => True) ctx.Answers l "map_key" e.1 key e.1 r :=
    hr.mono fun _ hrun => h.steadies.answers hrun.1 hrun.2.1
  have yielded {r : Issue ⊕ (Value × Bool)}
      (hr : Checked ctx (fun _ => True) (ctx.Accompanied U V) l "map_key" e.1 key e.1 r) :
      Checked ctx (fun _ => True) (ctx.Yields fun _ => True) l "map_key" e.1 key e.1 r :=
    hr.mono fun _ hrun => hrun.2.1
  cases hc with
  | badKey hchecked =>
    exact ⟨_, Issue.pared_contribution _, .badKey (answered hchecked), .badKey (yielded hchecked)⟩
  | run hchecked hrun hhashable =>
    obtain ⟨d, hd⟩ := hrun.2.2 hvalue
    refine ⟨_, hd.pared.contribution _ _, .run (answered hchecked) hd.returns fun htyped _ => ?_,
      .run (yielded hchecked) hd.leaves⟩
    exact hhashable (hd.pared.isTyped_eq ▸ htyped) (.inr h.full)

/-! ### Runs of schemas -/

omit h in
theorem Schema.message_erase {s : Schema} (hs : s.isConstraint = false) :
    s.erase.message = s.message :=
  congrArg Label.message (label_erase hs)

omit h in
theorem Schema.callees_erase {s : Schema} (hs : s.isConstraint = false) :
    s.erase.callees = s.callees := by
  cases s with
  | constraint => cases hs
  | wrapper m w inner => cases w <;> rfl
  | tuple => rw [erase_tuple]; rfl
  | _ => rfl

omit h in
theorem Schema.isLazy_erase {s : Schema} (hs : s.isConstraint = false) :
    s.erase.isLazy = s.isLazy := by
  cases s with
  | constraint => cases hs
  | tuple => rw [erase_tuple]; rfl
  | _ => rfl

omit h in
theorem Schema.isMap_erase {s : Schema} (hs : s.isConstraint = false) :
    s.erase.isMap = s.isMap := by
  cases s with
  | constraint => cases hs
  | tuple => rw [erase_tuple]; rfl
  | _ => rfl

/-- What the schema without its constraints returns is found by a rule for it. -/
theorem Context.Erases.returns {s : Schema} (hs : V s) (hconstraint : s.isConstraint = false)
    (hmap : s.isMap = false) {x : Value} {e : Dataset}
    (he : s.erase.Outcome ctx (fun _ => True) ctx.Answers x e) :
    Returns (s.erase.validatorUpTo 0 ctx (.fresh x)) (· = e) := by
  rw [Schema.validatorUpTo_eq]
  have hcalls : ∀ callee ∈ s.erase.callees, ctx.Steady callee := by
    rw [Schema.callees_erase hconstraint]
    exact h.steadies.calls (h.known hs)
  refine returns_of_outcome (fun f hf => hcalls f (Schema.functions_subset_callees _ hf)) ?_ ?_
    (fun c _ y f hf => ?_) (.inr ?_) he
  · rw [Schema.isLazy_erase hconstraint]
    exact h.steadies.lazy (h.known hs)
  · rw [Schema.isMap_erase hconstraint, hmap]
  · rwa [← Schema.validatorUpTo_eq]
  · exact Manner.steady.report h.steadies.config (hcalls _ s.erase.message_mem_callees)

/-- A schema of which nothing is erased. -/
theorem Context.Erases.beside_whole {s : Schema} (hs : V s) (hconstraint : s.isConstraint = false)
    (hnil : s.exposed = []) {x : Value} {d : Dataset} (hd : ctx.Yields (fun _ => True) s x d)
    (hpared : d.Pared d) : Beside ctx s x d d := by
  refine ⟨hd, ?_, hpared, ?_⟩
  · rw [Schema.erase_of_exposed_nil hconstraint hnil]
    exact h.steadies.answers (h.known hs) hd
  · exact .intro (fun _ _ _ _ => False) (.whole hnil) (fun _ _ _ _ hf => hf.elim)
      fun _ _ _ _ hf => hf.elim

omit h in
theorem Schema.sheds_alone {s : Schema} {x : Value} {d : Dataset}
    (hs : s.Outcome ctx (fun _ => True) (fun _ _ _ => False) x d) : s.Sheds ctx x d d.issues :=
  .intro (fun _ _ _ _ => False) (.alone hs) (fun _ _ _ _ hf => hf.elim) fun _ _ _ _ hf => hf.elim

omit h in
theorem Schema.exposed_of_judgement {s : Schema} {j : Judgement} (hj : s.judgement? = some j) :
    s.exposed = [] ∧ s.isConstraint = false := by
  cases s <;> first | exact ⟨rfl, rfl⟩ | cases hj

omit h in
theorem Schema.sheds_of_turns {s : Schema} {x : Value} {d : Dataset} {left : List Issue}
    (hs : s.ShedsBy ctx ctx.Leaves x d left) : s.Sheds ctx x d left :=
  .intro ctx.Leaves hs (fun _ _ _ _ hleaves => hleaves.1) fun _ _ _ _ hleaves => hleaves.2

theorem Context.Erases.beside_sequence {s : Schema} (hs : V s) {x : Value} {d : Dataset}
    {positions : List Position} {make : List Value → Except Fault Value}
    {p : Progress (List Value)} (hd : ctx.Yields (fun _ => True) s x d)
    (hobjection : s.objection? ctx.typeNames x = .ok none)
    (hlayout : s.layout? x = some (positions, make))
    (hp : Gathering.Path ctx (PartBrings (ctx.Accompanied U V)) positions (.start (.fresh x) []) p)
    (hfinished : Gathering.Finished make p d) : ∃ e, Beside ctx s x d e := by
  have hsequence := Schema.isSequence_of_layout hlayout
  have hconstraint : s.isConstraint = false := by cases s <;> first | rfl | cases hsequence
  have hexposed : s.exposed = s.children := by cases s <;> first | rfl | cases hsequence
  obtain ⟨g, g', turns, rfl, hpath, hg, hturns, hissues, hleft⟩ :=
    Gathering.pared_of_path h.full
      (fun p hp c hc => pared_of_partBrings
        (h.exposed hs (hexposed ▸ Validator.schema_of_layout hlayout hp)) hc)
      hp (Gathering.pared_start x [])
  obtain ⟨e, he, hpared, heq⟩ := Gathering.pared_of_finished hg hfinished
  rw [Gathering.start, Dataset.fresh, List.nil_append] at hissues hleft
  refine ⟨e, hd, ?_, hpared, Schema.sheds_of_turns ?_⟩
  · have hmap : s.isMap = false := by cases s <;> first | rfl | cases hsequence
    refine h.returns hs hconstraint hmap (.sequence ?_ (Schema.layout?_erase hlayout) hpath he)
    rwa [Schema.objection?_erase hconstraint]
  · rw [heq, hleft]
    exact .sequence hlayout hturns ((Gathering.issues_of_finished hfinished).trans hissues)

theorem Context.Erases.beside_object {m : Value} {id : Nat} {kind : ObjectKind} {extra : Extra}
    {absent : Absent} {entries : List (Value × Schema)}
    (hs : V (.object m id kind extra absent entries)) {x : Value} {d : Dataset}
    {input : Value.Entries} {p : Progress Value.Entries}
    (hd : ctx.Yields (fun _ => True) (.object m id kind extra absent entries) x d)
    (hinput : x.entries? = some input)
    (hp : Gathering.Path ctx (ObjectBrings ctx (fun _ => True) (ctx.Accompanied U V)
        (Schema.object m id kind extra absent entries).label kind extra absent input)
      (entries.map .inl ++ (Schema.undeclared entries input).map .inr) (.start (.fresh x) []) p)
    (hfinished : Gathering.Finished (fun output => .ok (.ofMapping output)) p d) :
    ∃ e, Beside ctx (.object m id kind extra absent entries) x d e := by
  have hlabel := Schema.label_erase (s := .object m id kind extra absent entries) rfl
  have hdeclared {step : (Value × Schema) ⊕ (Value × Value)} {e : Value × Schema}
      (hstep : step ∈ entries.map .inl ++ (Schema.undeclared entries input).map .inr)
      (he : step = .inl e) : V e.2 := by
    rw [he] at hstep
    have hmem : e ∈ entries := by simpa using hstep
    exact h.exposed hs (List.mem_map_of_mem hmem)
  obtain ⟨g, g', turns, rfl, hpath, hg, hturns, hissues, hleft⟩ :=
    Gathering.pared_of_path h.full
      (fun _ hstep _ hc => pared_of_objectBrings (fun _ he => hdeclared hstep he) hc) hp
      (Gathering.pared_start x [])
  obtain ⟨e, he, hpared, heq⟩ := Gathering.pared_of_finished hg hfinished
  rw [Gathering.start, Dataset.fresh, List.nil_append] at hissues hleft
  refine ⟨e, hd, h.returns hs rfl rfl ?_, hpared, Schema.sheds_of_turns ?_⟩
  · rw [← hlabel, List.map_append, List.map_map, List.map_map] at hpath
    simp only [Schema.erase, Schema.eraseEntries_eq_map] at hpath ⊢
    refine .object hinput ?_ he
    rw [Schema.undeclared_erase, List.map_map]
    exact hpath
  · rw [heq, hleft]
    exact .object hinput hturns ((Gathering.issues_of_finished hfinished).trans hissues)

theorem Context.Erases.beside_record {m : Value} {key value : Schema}
    (hs : V (.record m key value)) {x : Value} {d : Dataset} {input : Value.Entries}
    {p : Progress Value.Entries} (hd : ctx.Yields (fun _ => True) (.record m key value) x d)
    (hinput : x.entries? = some input)
    (hp : Gathering.Path ctx (RecordBrings ctx (fun _ => True) (ctx.Accompanied U V)
      (Schema.record m key value).label key value) input (.start (.fresh x) []) p)
    (hfinished : Gathering.Finished (fun output => .ok (.ofMapping output)) p d) :
    ∃ e, Beside ctx (.record m key value) x d e := by
  have hvalue : V value := h.exposed hs (List.mem_singleton.mpr rfl)
  have hlabel := Schema.label_erase (s := .record m key value) rfl
  obtain ⟨g, g', turns, rfl, hpath, hg, hturns, hissues, hleft⟩ :=
    Gathering.pared_of_path (f := id) h.full (fun _ _ _ hc => pared_of_recordBrings h hvalue hc)
      hp (Gathering.pared_start x [])
  obtain ⟨e, he, hpared, heq⟩ := Gathering.pared_of_finished hg hfinished
  rw [Gathering.start, Dataset.fresh, List.nil_append] at hissues hleft
  rw [List.map_id, ← hlabel] at hpath
  refine ⟨e, hd, h.returns hs rfl rfl (.record hinput hpath he), hpared, Schema.sheds_of_turns ?_⟩
  rw [heq, hleft]
  exact .record hinput hturns ((Gathering.issues_of_finished hfinished).trans hissues)

theorem Context.Erases.beside_intersection {m : Value} {members : List Schema}
    (hs : V (.intersection m members)) {x : Value} {d : Dataset} {p : Progress (List Value)}
    (hd : ctx.Yields (fun _ => True) (.intersection m members) x d)
    (hp : Gathering.Path ctx (MemberBrings (ctx.Accompanied U V) x) members
      (.start (.fresh x) []) p)
    (hmerged : Merged ctx (fun _ => True) (Schema.intersection m members).label p d) :
    ∃ e, Beside ctx (.intersection m members) x d e := by
  have hlabel := Schema.label_erase (s := .intersection m members) rfl
  have hmembers : members ≠ [] := h.steadies.members (h.known hs)
  obtain ⟨g, g', turns, rfl, hpath, hg, hturns, hissues, hleft⟩ :=
    Gathering.pared_of_path h.full (fun c hc _ hbrings => pared_of_memberBrings (h.exposed hs hc)
      hbrings) hp (Gathering.pared_start x [])
  have houtput : g.typed = true → g.output ≠ [] := fun htyped =>
    (Manner.output_of_path hp htyped).2 (.inl hmembers)
  obtain ⟨e, reported, he, hpared, hall, heq, hreported⟩ := pared_of_merged hg houtput hmerged
  rw [Gathering.start, Dataset.fresh, List.nil_append] at hissues hleft
  refine ⟨e, hd, h.returns hs rfl rfl ?_, hpared, Schema.sheds_of_turns ?_⟩
  · rw [← hlabel] at he
    simp only [Schema.erase, Schema.eraseAll_eq_map] at he ⊢
    exact .intersection hpath he
  · rw [hissues] at hall
    rw [heq, hleft]
    rcases hreported with rfl | ⟨i, rfl, hi⟩
    · rw [List.append_nil] at hall ⊢
      exact .agreed hturns hall
    · have hvalue : g.dataset.value = x := Gathering.value_of_path hp
      rw [hvalue] at hi
      exact .conflict hturns hi hall

/-- The step of the induction: a run whose parts have one beside them has one beside it. -/
theorem Context.Erases.beside_of_outcome {s : Schema} (hs : V s) {x : Value} {d : Dataset}
    (hd : ctx.Yields (fun _ => True) s x d)
    (houtcome : s.Outcome ctx (fun _ => True) (ctx.Accompanied U V) x d) :
    ∃ e, Beside ctx s x d e := by
  cases houtcome with
  | accepted hj =>
    obtain ⟨hnil, hconstraint⟩ := Schema.exposed_of_judgement hj
    exact ⟨_, h.beside_whole hs hconstraint hnil hd (Dataset.pared_valid _)⟩
  | rejected hj =>
    obtain ⟨hnil, hconstraint⟩ := Schema.exposed_of_judgement hj
    exact ⟨_, h.beside_whole hs hconstraint hnil hd (Dataset.pared_invalid x _)⟩
  | @objected _ _ f i hobjection hi =>
    have hpared := Dataset.pared_invalid x i
    cases hmap : s.isMap with
    | false =>
      have hconstraint : s.isConstraint = false := by
        cases s <;> first | rfl | cases hobjection
      refine ⟨_, hd, h.returns hs hconstraint hmap (.objected (f := f) ?_ ?_), hpared,
        Schema.sheds_alone (.objected hobjection hi)⟩
      · exact (Schema.objection?_erase hconstraint _ _).trans hobjection
      · rwa [Schema.message_erase hconstraint]
    | true =>
      cases s with
      | map => exact ⟨_, h.beside_whole hs rfl rfl hd hpared⟩
      | _ => cases hmap
  | @untyped m check name abort inner _ _ hrun htyped =>
    obtain ⟨e, he⟩ := hrun.2.2 (h.exposed hs (List.mem_singleton.mpr rfl))
    refine ⟨e, hd, he.returns, he.pared, Schema.sheds_of_turns (.passed he.leaves ?_)⟩
    rw [htyped]
    intro hf
    cases hf
  | @passed m check name abort inner _ _ hrun htyped hpassed =>
    obtain ⟨e, he⟩ := hrun.2.2 (h.exposed hs (List.mem_singleton.mpr rfl))
    exact ⟨e, hd, he.returns, he.pared, Schema.sheds_of_turns (.passed he.leaves fun _ => hpassed)⟩
  | @violated m check name abort inner _ f finding i hrun htyped hfailed hfinding hi =>
    obtain ⟨e, he⟩ := hrun.2.2 (h.exposed hs (List.mem_singleton.mpr rfl))
    have hgo : (abort || ctx.config.abortEarly) = false := by
      rw [show abort = false from h.aborts hs, h.full]
      rfl
    refine ⟨e, hd, he.returns, ?_, Schema.sheds_of_turns
      (.violated he.leaves htyped hfailed hfinding hi)⟩
    rw [hgo]
    exact he.pared.violate htyped i
  | spared hspared =>
    exact ⟨_, hd, h.returns hs rfl rfl (.spared hspared), Dataset.pared_valid _,
      Schema.sheds_alone (.spared hspared)⟩
  | @wrapped m w inner _ _ hspared hdefault hrun =>
    obtain ⟨e, he⟩ := hrun.2.2 (h.exposed hs (List.mem_singleton.mpr rfl))
    exact ⟨e, hd, h.returns hs rfl rfl (.wrapped hspared hdefault he.returns), he.pared,
      Schema.sheds_of_turns (.wrapped hspared hdefault he.leaves)⟩
  | @supplied m w inner _ _ _ _ hdefault hsupply hrun =>
    obtain ⟨e, he⟩ := hrun.2.2 (h.exposed hs (List.mem_singleton.mpr rfl))
    exact ⟨e, hd, h.returns hs rfl rfl (.supplied hdefault hsupply he.returns), he.pared,
      Schema.sheds_of_turns (.supplied hdefault hsupply he.leaves)⟩
  | overwritten => cases h.overwrite hs
  | untouched => cases h.overwrite hs
  | behind => cases h.steadies.lazy (h.known hs)
  | sequence hobjection hlayout hp hfinished =>
    exact h.beside_sequence hs hd hobjection hlayout hp hfinished
  | object hinput hp hfinished => exact h.beside_object hs hd hinput hp hfinished
  | map _ _ _ hfinished =>
    refine ⟨_, h.beside_whole hs rfl rfl hd ?_⟩
    cases hfinished with
    | stopped hissues => exact Dataset.pared_of_failure rfl hissues
    | @valid g hissues =>
      have hvalid : g.dataset.succeed g.output.value = .valid g.output.value := by
        rw [Dataset.succeed, hissues]
        rfl
      rw [hvalid]
      exact Dataset.pared_valid _
    | failed hissues => exact Dataset.pared_of_failure rfl hissues
  | record hinput hp hfinished => exact h.beside_record hs hd hinput hp hfinished
  | first => exact ⟨_, h.beside_whole hs rfl rfl hd (Dataset.pared_valid _)⟩
  | noneOf => exact ⟨_, h.beside_whole hs rfl rfl hd (Dataset.pared_invalid x _)⟩
  | intersection hp hmerged => exact h.beside_intersection hs hd hp hmerged

/-- Every run of a schema that is erased has one beside it. -/
theorem Context.Erases.beside_of_yields {s : Schema} (hs : V s) {x : Value} {d : Dataset}
    (hd : ctx.Yields (fun _ => True) s x d) : ∃ e, Beside ctx s x d e := by
  refine yields_recursion (P := fun s x d => V s → ∃ e, Beside ctx s x d e) h.steadies.closed
    (fun s x d _ hd houtcome hs => ?_) (h.known hs) hd hs
  exact h.beside_of_outcome hs hd houtcome

end

/-! ### Whole runs -/

theorem Schema.Exposed.part {s t : Schema} (h : Exposed t s) : t.Part s := by
  induction h with
  | self => exact .self
  | inside hc _ ih => exact .child (mem_children_of_exposed hc) ih

theorem Schema.Exposed.trans {s t u : Schema} (hst : s.Exposed t) (htu : t.Exposed u) :
    s.Exposed u := by
  induction htu with
  | self => exact hst
  | inside hc _ ih => exact .inside hc ih

/-- Inside all constraints around it, a schema is none; it is erased with them. -/
theorem Schema.exists_erase_eq (s : Schema) :
    ∃ t : Schema, t.Part s ∧ t.isConstraint = false ∧ s.erase = t.erase := by
  induction s with
  | constraint m check name abort inner ih =>
    obtain ⟨t, ht, hconstraint, heq⟩ := ih
    exact ⟨t, .child (List.mem_singleton.mpr rfl) ht, hconstraint, heq⟩
  | _ => exact ⟨_, .self, rfl, rfl⟩

/-- The parts of an erased schema are erased parts, and parts. -/
theorem Schema.mem_children_erase {s c : Schema} (hs : s.isConstraint = false)
    (h : c ∈ s.erase.children) : ∃ t ∈ s.children, c = t.erase ∨ c = t := by
  cases s with
  | constraint => cases hs
  | object m id kind extra absent entries =>
    simp only [erase, eraseEntries_eq_map, children, List.map_map, List.mem_map] at h
    obtain ⟨e, he, rfl⟩ := h
    exact ⟨e.2, List.mem_map_of_mem he, .inl rfl⟩
  | tuple m items rest =>
    rw [erase_tuple] at h
    rcases List.mem_append.mp h with h | h
    · obtain ⟨t, ht, rfl⟩ := List.mem_map.mp h
      exact ⟨t, List.mem_append_left _ ht, .inl rfl⟩
    · obtain ⟨t, ht, rfl⟩ := Option.map_eq_some_iff.mp (Option.mem_toList.mp h)
      exact ⟨t, List.mem_append_right _ (Option.mem_toList.mpr ht), .inl rfl⟩
  | intersection m members =>
    simp only [erase, eraseAll_eq_map, children, List.mem_map] at h
    obtain ⟨t, ht, rfl⟩ := h
    exact ⟨t, ht, .inl rfl⟩
  | wrapper m w inner =>
    exact ⟨inner, List.mem_singleton.mpr rfl, .inl (List.mem_singleton.mp h)⟩
  | array m limits item =>
    exact ⟨item, List.mem_singleton.mpr rfl, .inl (List.mem_singleton.mp h)⟩
  | set m limits item =>
    exact ⟨item, List.mem_singleton.mpr rfl, .inl (List.mem_singleton.mp h)⟩
  | record m key value =>
    rcases List.mem_cons.mp h with rfl | h
    · exact ⟨c, List.mem_cons_self, .inr rfl⟩
    · exact ⟨value, by simp [children], .inl (List.mem_singleton.mp h)⟩
  | _ => exact ⟨c, h, .inr rfl⟩

/-- A schema without references has none when its constraints are gone, so it runs as far as one
likes. -/
theorem Schema.validatorUpTo_erase {s : Schema} (h : ∀ t : Schema, t.Part s → t.isLazy = false)
    (n : Nat) : s.erase.validatorUpTo n = s.erase.validatorUpTo 0 := by
  rw [validatorUpTo_eq 0]
  refine validatorUpTo_congr (U := fun t => ∃ r : Schema, r.Part s ∧ (t = r.erase ∨ t = r)) ?_ ?_
    ⟨s, .self, .inl rfl⟩ n _
  · rintro t c ⟨r, hr, rfl | rfl⟩ hc
    · obtain ⟨r', hr', hconstraint, heq⟩ := r.exists_erase_eq
      rw [heq] at hc
      obtain ⟨u, hu, huc⟩ := mem_children_erase hconstraint hc
      exact ⟨u, (Part.child hu .self).trans (hr'.trans hr), huc⟩
    · exact ⟨c, (Part.child hc .self).trans hr, .inr rfl⟩
  · rintro t ⟨r, hr, rfl | rfl⟩
    · obtain ⟨r', hr', hconstraint, heq⟩ := r.exists_erase_eq
      rw [heq, isLazy_erase hconstraint]
      exact h r' (hr'.trans hr)
    · exact h _ hr

/-- **Constraints only add issues.**  Let a schema have no overwritten parts and no references, let
no constraint that is erased end the validation, and let its callables be pure.  When a run of it
ends without a fault, so does the run without constraints; the first is typed exactly when the second
is valid, and then the values are the same; and the issues of the second are those of the first
without the issues that the erased constraints have reported, in the same order. -/
theorem run_erase {ctx : Context} {s : Schema} (hfull : ctx.config.abortEarly = false)
    (hconfig : ctx.Steady ctx.config.message)
    (hparts : ∀ t : Schema, t.Part s → t.isLazy = false ∧ t.isOverwrite = false ∧ t.HasMembers ∧
      ∀ callee ∈ t.callees, ctx.Steady callee)
    (haborts : ∀ t : Schema, t.Exposed s → t.aborts = false) {x : Value} {d : Dataset}
    {w w' : World} (hrun : s.run ctx (.fresh x) w = (.ok d, w')) :
    ∃ e, (∀ u, ∃ u', s.erase.run ctx (.fresh x) u = (.ok e, u')) ∧
      (d.isTyped = true ↔ e.status = .success) ∧ (d.isTyped = true → e.value = d.value) ∧
      e.issues.Sublist d.issues ∧ s.Sheds ctx x d e.issues := by
  have herases : ctx.Erases (·.Part s) (·.Exposed s) := by
    refine ⟨⟨fun ht hc => ?_, fun ht => (hparts _ ht).1, fun ht => (hparts _ ht).2.2.1,
      fun ht => (hparts _ ht).2.2.2, hconfig⟩, hfull, fun ht => ht.part, fun ht hc => ?_,
      fun ht => haborts _ ht, fun ht => (hparts _ ht.part).2.1⟩
    · exact (Schema.Part.child hc .self).trans ht
    · exact (Schema.Exposed.inside hc .self).trans ht
  obtain ⟨e, he⟩ := herases.beside_of_yields .self ⟨_, w, w', trivial, hrun⟩
  refine ⟨e, fun u => ?_, ?_, he.pared.value, he.pared.sublist, he.sheds⟩
  · obtain ⟨_, u', hu, rfl⟩ := he.returns u
    refine ⟨u', ?_⟩
    unfold Schema.run
    rw [Schema.validatorUpTo_erase fun t ht => (hparts t ht).1]
    exact hu
  · rw [he.pared.status]
    cases d.isTyped <;> simp

/-- A pair whose first item fails a test and whose second is never valid: without the test, the
issue of the second item is left. -/
theorem run_erase_pair :
    let ctx : Context := ⟨.default, [], [], [], ⟨fun _ _ _ => .error .endless, 0⟩⟩
    let tested : Schema := .constraint .null .lowercase "lowercase" false (.anything .null false)
    let pair : Schema := .tuple .null [tested, .never .null] none
    let x : Value := .ofTuple [.ofList [], .null]
    ∃ d w' e, pair.run ctx (.fresh x) .empty = (.ok d, w') ∧ d.issues.length = 2 ∧
      (∀ u, ∃ u', pair.erase.run ctx (.fresh x) u = (.ok e, u')) ∧ e.issues.length = 1 ∧
      (d.isTyped = true ↔ e.status = .success) ∧ (d.isTyped = true → e.value = d.value) ∧
      e.issues.Sublist d.issues ∧ pair.Sheds ctx x d e.issues := by
  intro ctx tested pair x
  have hsteady : ctx.Steady .null := fun _ _ _ => rfl
  have hcases : ∀ t : Schema, t.Part pair →
      t = .anything .null false ∨ t = .never .null ∨ t = tested ∨ t = pair := by
    intro t ht
    refine ht.closed (Q := fun t => t = .anything .null false ∨ t = .never .null ∨ t = tested ∨
      t = pair) (.inr (.inr (.inr rfl))) ?_
    rintro _ c (rfl | rfl | rfl | rfl) hc
    · cases hc
    · cases hc
    · exact .inl (List.mem_singleton.mp hc)
    · simp only [pair, Schema.children, Option.toList, List.append_nil, List.mem_cons,
        List.not_mem_nil, or_false] at hc
      rcases hc with rfl | rfl
      · exact .inr (.inr (.inl rfl))
      · exact .inr (.inl rfl)
  have hparts : ∀ t : Schema, t.Part pair → t.isLazy = false ∧ t.isOverwrite = false ∧
      t.HasMembers ∧ ∀ callee ∈ t.callees, ctx.Steady callee := by
    intro t ht
    rcases hcases t ht with rfl | rfl | rfl | rfl <;>
      exact ⟨rfl, rfl, trivial, fun _ hcallee => List.mem_singleton.mp hcallee ▸ hsteady⟩
  have haborts : ∀ t : Schema, t.Exposed pair → t.aborts = false := by
    intro t ht
    rcases hcases t ht.part with rfl | rfl | rfl | rfl <;> rfl
  obtain ⟨d, w', hrun, hissues⟩ : ∃ d w', pair.run ctx (.fresh x) .empty = (.ok d, w') ∧
      d.issues.length = 2 := by
    dsimp only [ctx, tested, pair, x]
    refine ⟨_, _, rfl, ?_⟩
    rfl
  obtain ⟨f, v, hrest, hleft⟩ : ∃ f v, pair.erase.run ctx (.fresh x) .empty = (.ok f, v) ∧
      f.issues.length = 1 := by
    dsimp only [ctx, tested, pair, x]
    refine ⟨_, _, rfl, ?_⟩
    rfl
  obtain ⟨e, he, htyped, hvalue, hsublist, hsheds⟩ := run_erase rfl hsteady hparts haborts hrun
  have hfe : f = e := by
    obtain ⟨v', hv⟩ := he .empty
    cases hrest.symm.trans hv
    rfl
  exact ⟨d, w', e, hrun, hissues, he, hfe ▸ hleft, htyped, hvalue, hsublist, hsheds⟩

end Conform
