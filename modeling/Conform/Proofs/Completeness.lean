/-
  Conform/Proofs/Completeness.lean
  ================================
  **The rules are complete.**  Every run ends by the rules (`outcome_of_yields`);
  here is the converse for steady callables: what a rule says of a schema whose
  parts return is what the schema returns (`returns_of_outcome`).  So a run can be
  followed by giving a rule for it.  A run without issues asks for no message, so
  messages have to be steady only if there are issues.

  A map has no part in this, since writing over its entries may end in a fault
  that no rule speaks of, and neither has a reference.
-/
import Conform.Proofs.Steady

namespace Conform

/-- There are no issues, or they are put into the same words in all worlds. -/
def Context.Assured (ctx : Context) (own : Value) (issues : List Issue) : Prop :=
  issues = [] ∨ ∀ f, Steadily (ctx.report own f)

theorem Context.Assured.mono {ctx : Context} {own : Value} {is js : List Issue}
    (h : ctx.Assured own js) (hsub : is ⊆ js) : ctx.Assured own is := by
  rcases h with rfl | h
  · exact .inl (List.subset_nil.mp hsub)
  · exact .inr h

theorem Context.Assured.steadily {ctx : Context} {own : Value} {is : List Issue}
    (h : ctx.Assured own is) {i : Issue} (hi : i ∈ is) (f : Finding) :
    Steadily (ctx.report own f) := by
  rcases h with rfl | h
  · cases hi
  · exact h f

/-! ### Runs over parts -/

theorem Checked.mono {ctx : Context} {I : Found → Prop} {R R' : Runs} {l : Label}
    {messageKey : String} {key x : Value} {s : Schema} {r : Issue ⊕ (Value × Bool)}
    (h : Checked ctx I R l messageKey key s x r) (hR : ∀ d, R s x d → R' s x d) :
    Checked ctx I R' l messageKey key s x r := by
  cases h with
  | valid hrun hstatus => exact .valid (hR _ hrun) hstatus
  | excused hrun hstatus hissues hexcused => exact .excused (hR _ hrun) hstatus hissues hexcused
  | refused hrun hstatus hissues hexcused hj =>
    exact .refused (hR _ hrun) hstatus hissues hexcused hj

namespace Gathering

variable {α σ : Type} {ctx : Context} {brings : σ → Contribution α → Prop}

/-- Issues are only added. -/
theorem issues_subset_of_path {xs : List σ} {g : Gathering α} {p : Progress α}
    (h : Path ctx brings xs g p) : g.dataset.issues ⊆ p.dataset.issues := by
  induction h with
  | done => exact List.Subset.refl _
  | @next s rest c g g' p _ hreceive _ ih =>
    rw [eq_of_receive hreceive] at ih
    exact List.Subset.trans (List.subset_append_left _ _) ih
  | @stop s rest c g d _ hreceive =>
    have hdataset := dataset_receive g ctx c
    rw [hreceive] at hdataset
    rw [hdataset]
    exact List.subset_append_left _ _

variable {J : Found → Prop}

/-- Steps that return what their parts bring return along a path. -/
theorem certain_of_path {step : σ → Gathering α → Run (Progress α)} {xs : List σ}
    {g : Gathering α} {p : Progress α}
    (hstep : ∀ s ∈ xs, ∀ c, brings s c → c.issues ⊆ p.dataset.issues →
      ∀ g, Certain J (step s g) (g.receive ctx c))
    (h : Path ctx brings xs g p) : Certain J (steps step xs g) p := by
  induction h with
  | done => exact certain_pure _
  | @next s rest c g g' p hc hreceive hpath ih =>
    rw [List.forall_mem_cons] at hstep
    have hissues := issues_subset_of_path hpath
    rw [eq_of_receive hreceive] at hissues
    refine (hstep.1 _ hc (List.Subset.trans (List.subset_append_right _ _) hissues) _).bind ?_
    rw [hreceive]
    exact ih hstep.2
  | @stop s rest c g d hc hreceive =>
    rw [List.forall_mem_cons] at hstep
    have hdataset := dataset_receive g ctx c
    rw [hreceive] at hdataset
    rw [hdataset] at hstep
    refine (hstep.1 _ hc (List.subset_append_right _ _) _).bind ?_
    rw [hreceive]
    exact certain_pure _

theorem returns_of_path {step : σ → Gathering α → Run (Progress α)} {xs : List σ}
    {g : Gathering α} {p : Progress α}
    (hstep : ∀ s ∈ xs, ∀ c, brings s c → c.issues ⊆ p.dataset.issues →
      ∀ g, Returns (step s g) (· = g.receive ctx c))
    (h : Path ctx brings xs g p) : Returns (steps step xs g) (· = p) :=
  certain_true.mp (certain_of_path
    (fun s hs c hc hissues g => certain_true.mpr (hstep s hs c hc hissues g)) h)

theorem certain_giveUp {d : Dataset} (h : d.issues ≠ []) :
    Certain J (Validator.giveUp d) { d with status := .failure } :=
  certain_withinExcept (Dataset.fail_eq_ok_iff.mpr ⟨h, rfl⟩) d

theorem returns_giveUp {d : Dataset} (h : d.issues ≠ []) :
    Returns (Validator.giveUp d) (· = { d with status := .failure }) :=
  certain_true.mp (certain_giveUp h)

theorem certain_of_finished {make : α → Except Fault Value} {p : Progress α} {d : Dataset}
    (h : Finished make p d) : Certain J (p.finish make) d := by
  have finish {g : Gathering α} {output : Value} (hmake : make g.output = .ok output)
      (hd : g.dataset.finish output g.typed = .ok d) :
      Certain J ((Progress.going g).finish make) d :=
    (certain_withinExcept hmake _).bind (certain_withinExcept hd _)
  cases h with
  | stopped hissues => exact certain_giveUp hissues
  | valid hissues hmake => exact finish hmake (by simp [Dataset.finish, hissues])
  | partly hissues htyped hmake => exact finish hmake (by simp [Dataset.finish, hissues, htyped])
  | failed hissues htyped hmake =>
    refine finish hmake ?_
    simp only [Dataset.finish, List.isEmpty_iff, hissues, htyped]
    exact Dataset.fail_eq_ok_iff.mpr ⟨hissues, rfl⟩

theorem returns_of_finished {make : α → Except Fault Value} {p : Progress α} {d : Dataset}
    (h : Finished make p d) : Returns (p.finish make) (· = d) :=
  certain_true.mp (certain_of_finished h)

end Gathering

namespace Validator

section

variable {ctx : Context} {I : Found → Prop}

/-- A validator returns what it is known to come to. -/
def Realizes (ctx : Context) (R : Runs) (v : Validator) (s : Schema) : Prop :=
  ∀ x d, R s x d → Returns (v ctx (.fresh x)) (· = d)

variable {R : Runs}

theorem Realizes.apply {v : Validator} {s : Schema} (h : Realizes ctx R v s) {x : Value}
    {d : Dataset} (hd : R s x d) : Returns (v.apply ctx x) (· = d) :=
  (h x d hd).toEffect

/-! ### Lists, tuples and sets -/

theorem realizes_partStep {v : Validator} {p : Position} (hv : Realizes ctx R v p.schema)
    {c : Contribution (List Value)} (hc : PartBrings R p c) (g : Gathering (List Value)) :
    Returns (partStep ctx ⟨p.key, p.value, v⟩ g) (· = g.receive ctx c) := by
  cases hc with
  | run hrun =>
    refine ((hv.apply hrun).within _).next ?_
    rw [Gathering.take_eq_receive]
    exact returns_pure rfl

theorem realizes_positions {resolve : Schema → Validator} {positions : List Position}
    (hv : ∀ p ∈ positions, Realizes ctx R (p.schema.validator resolve) p.schema) {x : Value}
    {make : List Value → Except Fault Value} {p : Progress (List Value)} {d : Dataset}
    (hp : Gathering.Path ctx (PartBrings R) positions (.start (.fresh x) []) p)
    (hfinished : Gathering.Finished make p d) :
    Returns (parts ctx (.fresh x) (positions.map (Part.ofPosition resolve)) >>=
      fun p => p.finish make) (· = d) := by
  have hparts : Returns (parts ctx (.fresh x) (positions.map (Part.ofPosition resolve)))
      (· = p) := by
    unfold parts
    rw [Gathering.steps_map]
    exact Gathering.returns_of_path (fun p hp c hc _ g => realizes_partStep (hv p hp) hc g) hp
  exact hparts.next (Gathering.returns_of_finished hfinished)

/-! ### Reports -/

variable {l : Label}

theorem realizes_refusal {d : Dataset} {f : Finding} (hreport : Steadily (ctx.report l.message f))
    {i : Issue} (hi : Gives I (ctx.report l.message f) i) :
    Returns (reject ctx d l.message f) (· = d.failWith i) :=
  ((returns_of_gives hreport hi).within _).next (returns_pure rfl)

/-! ### Keys and values of mappings -/

theorem realizes_signal {x : Value} {s : Schema} {v : Validator} (hv : Realizes ctx R v s)
    {d : Dataset} (hrun : R s x d) (hstatus : d.status = .success) :
    Returns (v.check ctx x) (· = if d.value.same x then .asIs else .replaced d.value) := by
  refine (hv.apply hrun).next ?_
  obtain ⟨status, value, issues⟩ := d
  cases hstatus
  exact returns_pure rfl

theorem realizes_reason {x : Value} {s : Schema} {v : Validator} (hv : Realizes ctx R v s)
    {d : Dataset} (hrun : R s x d) (hstatus : d.status ≠ .success) {i : Issue} {rest : List Issue}
    (hissues : d.issues = i :: rest) : Returns (v.check ctx x) (· = .ofMessage i.message) := by
  refine (hv.apply hrun).next ?_
  obtain ⟨status, value, issues⟩ := d
  cases hissues
  cases status with
  | success => exact absurd rfl hstatus
  | _ => exact returns_pure rfl

/-- What is accepted for a key or value. -/
theorem realizes_accepted {messageKey : String} {key x : Value} {s : Schema} {v : Validator}
    (hv : Realizes ctx R v s) {y : Value × Bool} (h : Checked ctx I R l messageKey key s x (.inr y)) :
    Returns (entryCheck l ctx messageKey key x ⟨s.expects, v⟩) (· = .inr y) := by
  cases h with
  | @valid d hrun hstatus =>
    refine (realizes_signal hv hrun hstatus).next ?_
    by_cases hsame : d.value.same x = true
    · simp only [hsame, if_true]
      exact returns_pure rfl
    · simp only [hsame]
      exact returns_pure rfl
  | @excused d i rest hrun hstatus hissues hexcused =>
    refine (realizes_reason hv hrun hstatus hissues).next ?_
    rw [Signal.ofMessage, if_pos hexcused]
    exact returns_pure rfl

/-- What is reported for a key or value. -/
theorem realizes_refused {messageKey : String} {key x : Value} {s : Schema} {v : Validator}
    (hreport : ∀ f, Steadily (ctx.report l.message f)) (hv : Realizes ctx R v s) {k : Issue}
    (h : Checked ctx I R l messageKey key s x (.inl k)) :
    Returns (entryCheck l ctx messageKey key x ⟨s.expects, v⟩) (· = .inl k) := by
  cases h with
  | @refused d i j rest hrun hstatus hissues hexcused hj =>
    refine (realizes_reason hv hrun hstatus hissues).next ?_
    rw [Signal.ofMessage, hexcused]
    have hissue : Returns (entryIssue l ctx messageKey key x ⟨s.expects, v⟩ i.message)
        (· = j.under key) := (returns_of_gives (hreport _) hj).next (returns_pure rfl)
    exact hissue.next (returns_pure rfl)

theorem realizes_record {key value : Schema} {vk vv : Validator} (hkey : Realizes ctx R vk key)
    (hvalue : Realizes ctx R vv value) {e : Value × Value} {c : Contribution Value.Entries}
    (hc : RecordBrings ctx I R l key value e c) (hreport : ctx.Assured l.message c.issues)
    (g : Gathering Value.Entries) :
    Returns (recordStep l ⟨key.expects, vk⟩ vv ctx e g) (· = g.receive ctx c) := by
  cases hc with
  | badKey hchecked =>
    exact ((realizes_refused (hreport.steadily List.mem_cons_self) hkey hchecked).within _).next
      (returns_pure (Gathering.addIssue_eq_receive g ctx _))
  | @run newKey part hchecked hrun hhashable =>
    refine ((realizes_accepted hkey hchecked).within _).next
      (((hvalue.apply hrun).within _).next ?_)
    have htake := Gathering.take_eq_receive g ctx e.1 part
      fun v (output : Value.Entries) => output.insert newKey.1 v
    dsimp only
    rw [htake, Dataset.contribution]
    split
    · next hgoing =>
      have hwritten : ¬(part.isTyped && !newKey.1.isHashable) = true := by
        intro hboth
        obtain ⟨htyped, hunhashable⟩ := Bool.and_eq_true_iff.mp hboth
        have hor := (Gathering.clean_or_full_of_receive hgoing).imp_left List.map_eq_nil_iff.mp
        rw [hhashable htyped hor] at hunhashable
        cases hunhashable
      rw [if_neg hwritten]
      exact returns_pure rfl
    · exact returns_pure rfl

/-! ### Objects -/

section

variable {J : Found → Prop} {c : Contribution Value.Entries}
  (hreport : c.issues ≠ [] → ∀ f i, Gives I (ctx.report l.message f) i →
    Certain J (ctx.report l.message f) i)

include hreport

/-- A declared key brings what it is known to bring, whatever has been gathered. -/
theorem certain_declared {absent : Absent} {input : Value.Entries} {e : Value × Schema}
    {v : Validator} (hv : ∀ y part, R e.2 y part → Certain J (v.apply ctx y) part)
    (hc : DeclaredBrings ctx I R l absent input e c) (g : Gathering Value.Entries) :
    Certain J (entryStep l absent input ctx ⟨e.1, e.2.expects, v⟩ g) (g.receive ctx c) := by
  have validate {y : Value} {part : Dataset} (hrun : R e.2 y part) :
      Certain J (within g.dataset (v.apply ctx y) >>= fun part =>
        pure (g.take ctx e.1 part (putEntry e.1)))
        (g.receive ctx (part.contribution e.1 (putEntry e.1))) := by
    refine ((hv y part hrun).within _).bind ?_
    rw [Gathering.take_eq_receive]
    exact certain_pure _
  unfold entryStep
  cases hc with
  | present hget hrun =>
    simp only [hget]
    exact validate hrun
  | validated hget habsent hrun =>
    simp only [hget, habsent]
    exact validate hrun
  | skipped hget habsent =>
    simp only [hget, habsent]
    rw [Gathering.receive_of_clean rfl]
    simpa [Contribution.plain] using certain_pure (Progress.going g)
  | @missing i hget habsent hi =>
    have hissue : Certain J (missingIssue l ctx e.1 e.2.expects) (i.under e.1) :=
      (hreport (List.cons_ne_nil _ _) _ _ hi).bind (certain_pure _)
    simp only [hget, habsent]
    refine (hissue.within _).bind ?_
    rw [Gathering.addIssue_eq_receive]
    exact certain_pure _

theorem certain_extra {kind : ObjectKind} {extra : Extra} {e : Value × Value}
    (hc : ExtraBrings ctx I l kind extra e c) (g : Gathering Value.Entries) :
    Certain J (extraStep l kind extra ctx e g) (g.receive ctx c) := by
  cases hc with
  | dropped hextra =>
    subst hextra
    have hreceive : g.receive ctx (.plain id) = .going g := by
      rw [Gathering.receive_of_clean rfl]
      simp [Contribution.plain]
    rw [hreceive]
    exact certain_pure _
  | kept hextra =>
    subst hextra
    have hreceive : g.receive ctx (.plain fun output => output ++ [e]) =
        .going { g with output := g.output ++ [e] } := by
      rw [Gathering.receive_of_clean rfl]
      simp [Contribution.plain]
    rw [hreceive]
    exact certain_pure _
  | @unexpected i hextra hi hkind =>
    subst hextra
    have hissue : Certain J (extraIssue l kind ctx e.1 e.2) (i.under e.1) := by
      unfold extraIssue
      rw [if_neg (by simpa using hkind)]
      exact (hreport (List.cons_ne_nil _ _) _ _ hi).bind (certain_pure _)
    refine (hissue.within _).bind ?_
    rw [Gathering.addIssue_eq_receive]
    exact certain_pure _

end

/-- An object comes to what its steps are known to come to. -/
theorem certain_object {J : Found → Prop} {resolve : Schema → Validator} {m : Value} {id : Nat}
    {kind : ObjectKind} {extra : Extra} {absent : Absent} {entries : List (Value × Schema)} {x : Value}
    {input : Value.Entries} {p : Progress Value.Entries} {d : Dataset}
    (hv : ∀ e ∈ entries, ∀ y part, R e.2 y part →
      Certain J ((e.2.validator resolve).apply ctx y) part)
    (hreport : d.issues ≠ [] → ∀ f i, Gives I (ctx.report m f) i → Certain J (ctx.report m f) i)
    (hx : x.entries? = some input)
    (hp : Gathering.Path ctx (ObjectBrings ctx I R (Schema.object m id kind extra absent entries).label
        kind extra absent input)
      (entries.map .inl ++ (Schema.undeclared entries input).map .inr) (.start (.fresh x) []) p)
    (hfinished : Gathering.Finished (fun output => .ok (.ofMapping output)) p d) :
    Certain J ((Schema.object m id kind extra absent entries).validator resolve ctx (.fresh x)) d := by
  cases x with
  | mapping identity mappingKind _ =>
    cases hx
    rw [Schema.validator, object_mapping]
    refine (Gathering.certain_of_path ?_ hp).bind (Gathering.certain_of_finished hfinished)
    intro s hs c hc hissues g
    have hreport : c.issues ≠ [] → ∀ f i, Gives I (ctx.report m f) i →
        Certain J (ctx.report m f) i := by
      rw [← Gathering.issues_of_finished hfinished] at hissues
      exact fun hne => hreport fun hnil => hne (List.subset_nil.mp (hnil ▸ hissues))
    cases hc with
    | declared hc => exact certain_declared hreport (hv _ (by simpa using hs)) hc g
    | extra hc => exact certain_extra hreport hc g
  | _ => cases hx

/-! ### Operators -/

theorem realizes_firstSuccess {resolve : Schema → Validator} {before after : List Schema}
    {s : Schema} {x : Value} {d : Dataset}
    (hv : ∀ t ∈ before ++ s :: after, Realizes ctx R (t.validator resolve) t)
    (hbefore : ∀ b ∈ before, ∃ e, R b x e ∧ e.status ≠ .success) (hd : R s x d)
    (hsuccess : d.status = .success) (issues : List Issue) :
    Returns (firstSuccess ctx x ((before ++ s :: after).map (Schema.validator resolve)) issues)
      (· = .inl d.value) := by
  induction before generalizing issues with
  | nil =>
    refine ((hv s (by simp)).apply hd).next ?_
    simp only [hsuccess, beq_self_eq_true, if_true]
    exact returns_pure rfl
  | cons b rest ih =>
    rw [List.forall_mem_cons] at hbefore
    obtain ⟨⟨e, he, hfailed⟩, hrest⟩ := hbefore
    refine ((hv b (by simp)).apply he).next ?_
    simp only [beq_eq_false_iff_ne.mpr hfailed]
    exact ih (fun t ht => hv t (List.mem_cons_of_mem b ht)) hrest _

theorem realizes_noSuccess {resolve : Schema → Validator} {members : List Schema} {x : Value}
    {outcomes : List Dataset} (hv : ∀ t ∈ members, Realizes ctx R (t.validator resolve) t)
    (h : List.Forall₂ (fun s e => R s x e ∧ e.status ≠ .success) members outcomes)
    (issues : List Issue) :
    Returns (firstSuccess ctx x (members.map (Schema.validator resolve)) issues)
      (· = .inr (issues ++ outcomes.flatMap (·.issues))) := by
  induction h generalizing issues with
  | nil => exact returns_pure (by simp)
  | @cons s e members outcomes hs _ ih =>
    rw [List.forall_mem_cons] at hv
    refine (hv.1.apply hs.1).next ?_
    simp only [beq_eq_false_iff_ne.mpr hs.2]
    have hrest := ih hv.2 (issues ++ e.issues)
    rw [List.append_assoc, ← List.flatMap_cons] at hrest
    exact hrest

theorem realizes_member {s : Schema} {v : Validator} (hv : Realizes ctx R v s) {x : Value}
    {c : Contribution (List Value)} (hc : MemberBrings R x s c) (g : Gathering (List Value)) :
    Returns (memberStep x ctx v g) (· = g.receive ctx c) := by
  cases hc with
  | @run part hrun =>
    refine ((hv.apply hrun).within _).next ?_
    dsimp only
    unfold Gathering.receive
    split
    · exact returns_pure rfl
    · cases htyped : part.isTyped
      · exact returns_pure (by simp)
      · exact returns_pure (by simp)

theorem realizes_intersection {resolve : Schema → Validator} {members : List Schema}
    (hv : ∀ t ∈ members, Realizes ctx R (t.validator resolve) t) {x : Value}
    {p : Progress (List Value)} {d : Dataset}
    (hp : Gathering.Path ctx (MemberBrings R x) members (.start (.fresh x) []) p)
    (hmerged : Merged ctx I l p d) (hreport : ctx.Assured l.message d.issues) :
    Returns (intersection l (members.map (Schema.validator resolve)) ctx (.fresh x)) (· = d) := by
  have hsteps : Returns (Gathering.steps (memberStep x ctx)
      (members.map (Schema.validator resolve)) (.start (.fresh x) [])) (· = p) := by
    rw [Gathering.steps_map]
    exact Gathering.returns_of_path (fun t ht c hc _ g => realizes_member (hv t ht) hc g) hp
  refine hsteps.next ?_
  cases hmerged with
  | stopped hissues => exact Gathering.returns_giveUp hissues
  | @valid g first output rest htyped houtput hmerge hissues =>
    simp only [htyped, houtput]
    refine (returns_ok hmerge _).next ?_
    simp only [hissues, List.isEmpty_nil, if_true]
    exact returns_pure rfl
  | @partly g first output rest htyped houtput hmerge hissues =>
    simp only [htyped, houtput]
    refine (returns_ok hmerge _).next ?_
    simp only [List.isEmpty_iff, hissues, if_false]
    exact returns_pure rfl
  | @conflict g first rest i htyped houtput hmerge hi =>
    simp only [htyped, houtput]
    have hlast : i ∈ (g.dataset.failWith i).issues :=
      List.mem_append_right _ (List.mem_singleton_self i)
    exact (returns_ok hmerge _).next (realizes_refusal (hreport.steadily hlast _) hi)
  | @failed g hor hissues =>
    rcases hor with htyped | houtput
    · simp only [htyped]
      exact Gathering.returns_giveUp hissues
    · cases htyped : g.typed with
      | false =>
        simp only [htyped]
        exact Gathering.returns_giveUp hissues
      | true =>
        simp only [htyped, houtput]
        exact Gathering.returns_giveUp hissues

end

end Validator

/-! ### Schemas -/

open Validator

/-- What a container has against a value is what it reports. -/
theorem realizes_objected {ctx : Context} {I : Found → Prop} {resolve : Schema → Validator}
    {s : Schema} {x : Value} {f : Finding} (hreport : Steadily (ctx.report s.message f))
    {i : Issue} (hobjection : s.objection? ctx.typeNames x = .ok (some f))
    (hi : Gives I (ctx.report s.message f) i) :
    Returns (s.validator resolve ctx (.fresh x)) (· = .invalid x i []) := by
  have hrefusal : Returns (reject ctx (.fresh x) s.label.message f) (· = .invalid x i []) :=
    realizes_refusal (l := s.label) hreport hi
  have hsequence (hs : s.isSequence = true) :
      Returns (s.validator resolve ctx (.fresh x)) (· = .invalid x i []) := by
    rw [validator_of_sequence hs]
    exact (returns_ok hobjection _).next hrefusal
  cases s with
  | array => exact hsequence rfl
  | set => exact hsequence rfl
  | tuple => exact hsequence rfl
  | map m limits key value =>
    cases x with
    | mapping id kind input => exact (returns_ok hobjection _).next hrefusal
    | _ =>
      cases hobjection
      exact hrefusal
  | record m key value =>
    cases x with
    | mapping id kind input => cases hobjection
    | _ =>
      cases hobjection
      exact hrefusal
  | object m id kind extra absent entries =>
    cases x with
    | mapping id kind input => cases hobjection
    | _ =>
      cases hobjection
      exact hrefusal
  | _ => cases hobjection

theorem Schema.isSequence_of_layout {s : Schema} {x : Value} {positions : List Position}
    {make : List Value → Except Fault Value} (h : s.layout? x = some (positions, make)) :
    s.isSequence = true := by
  cases s <;> first | rfl | simp [layout?] at h

/-- The schema describes the keys and values of a mapping, which is written over. -/
def Schema.isMap : Schema → Bool
  | .map .. => true
  | _ => false

/-- What a schema itself calls to make something of a value. -/
def Schema.functions : Schema → List Value
  | .constraint _ (.refine predicate) _ _ _ => [predicate]
  | .wrapper _ (.default v) _ => [v]
  | .overwrite _ transform _ => [transform]
  | _ => []

theorem Schema.functions_subset_callees (s : Schema) : s.functions ⊆ s.callees := by
  unfold functions
  split <;> simp [callees]

/-- **The rules are complete.**  When callables are steady, and messages too if there are issues, a
schema whose parts return what is known of them returns whatever a rule says of it. -/
theorem returns_of_outcome {ctx : Context} {I : Found → Prop} {R : Runs}
    {resolve : Schema → Validator} {s : Schema}
    (hcalls : ∀ f ∈ s.functions, ctx.Steady f) (hlazy : s.isLazy = false) (hmap : s.isMap = false)
    (hparts : ∀ c ∈ s.children, Realizes ctx R (c.validator resolve) c) {x : Value} {d : Dataset}
    (hown : ctx.Assured s.message d.issues) (h : s.Outcome ctx I R x d) :
    Returns (s.validator resolve ctx (.fresh x)) (· = d) := by
  cases h with
  | accepted hj hverdict =>
    rw [Schema.validator_eq_judge hj]
    exact (returns_ok hverdict _).next (returns_pure rfl)
  | @rejected _ _ _ _ i hj hverdict hi =>
    rw [Schema.validator_eq_judge hj]
    have hreport := hown.steadily (i := i) List.mem_cons_self
    exact (returns_ok hverdict _).next (realizes_refusal (l := s.label) (hreport _) hi)
  | @objected _ _ _ i hobjection hi =>
    have hreport := hown.steadily (i := i) List.mem_cons_self
    exact realizes_objected (hreport _) hobjection hi
  | @untyped m check name abort inner _ _ hrun htyped =>
    refine (hparts inner (by simp [Schema.children]) x d hrun).next ?_
    simp only [htyped]
    exact returns_pure rfl
  | @passed m check name abort inner _ _ hrun htyped hpassed =>
    have htest : Steadily (check.test ctx d.value) :=
      Manner.steady.test (fun p hp => hcalls p (by simp [Schema.functions, hp])) _
    refine (hparts inner (by simp [Schema.children]) x d hrun).next ?_
    simp only [htyped]
    exact ((returns_of_gives htest hpassed).within _).next (returns_pure rfl)
  | @violated m check name abort inner _ e f i hrun htyped hpassed hfinding hi =>
    have htest : Steadily (check.test ctx e.value) :=
      Manner.steady.test (fun p hp => hcalls p (by simp [Schema.functions, hp])) _
    refine (hparts inner (by simp [Schema.children]) x e hrun).next ?_
    simp only [htyped]
    have hreport : Steadily (ctx.report m f) := by
      rw [Dataset.issues_violate] at hown
      exact hown.steadily (List.mem_append_right _ (List.mem_singleton_self i)) f
    refine ((returns_of_gives htest hpassed).within _).next ((returns_ok hfinding _).next
      (((returns_of_gives hreport hi).within _).next ?_))
    unfold Dataset.violate
    split <;> exact returns_pure rfl
  | @spared m w inner _ y hspared =>
    rw [Schema.validator, wrapper_fresh, hspared]
    exact returns_pure rfl
  | @wrapped m w inner _ _ hspared hdefault hrun =>
    rw [Schema.validator, wrapper_fresh, hspared, hdefault]
    exact hparts inner (by simp [Schema.children]) x d hrun
  | @supplied m w inner _ given y _ hdefault hsupply hrun =>
    obtain rfl := Wrapping.eq_default_of_default? hdefault
    have hsteady : Steadily (supply ctx given) :=
      Manner.steady.supply (hcalls given (by simp [Schema.functions]))
    rw [Schema.validator, wrapper_fresh, hdefault]
    exact ((returns_of_gives hsteady hsupply).within _).next
      (hparts inner (by simp [Schema.children]) y d hrun)
  | @overwritten m transform inner _ y e hrun hstatus hcall =>
    refine (hparts inner (by simp [Schema.children]) x e hrun).next ?_
    simp only [hstatus, beq_self_eq_true, if_true]
    exact ((returns_of_gives (hcalls transform (by simp [Schema.functions]) _) hcall).within _).next
      (returns_pure rfl)
  | @untouched m transform inner _ _ hrun hstatus =>
    refine (hparts inner (by simp [Schema.children]) x d hrun).next ?_
    simp only [beq_eq_false_iff_ne.mpr hstatus]
    exact returns_pure rfl
  | behind => cases hlazy
  | @sequence _ _ positions make p _ hobjection hlayout hp hfinished =>
    rw [validator_of_sequence (Schema.isSequence_of_layout hlayout)]
    refine (returns_ok hobjection _).next ?_
    rw [hlayout]
    exact realizes_positions (fun p hp => hparts _ (schema_of_layout hlayout hp)) hp hfinished
  | @object m id kind extra absent entries _ input p _ hinput hp hfinished =>
    rw [← certain_true]
    refine certain_object (fun e he y part hrun => ?_) (fun hne f i hi => ?_) hinput hp hfinished
    · exact certain_true.mpr ((hparts e.2 (List.mem_map_of_mem he)).apply hrun)
    · exact certain_true.mpr (returns_of_gives (hown.resolve_left hne f) hi)
  | map => cases hmap
  | @record m key value _ input p _ hinput hp hfinished =>
    cases x with
    | mapping identity mappingKind _ =>
      cases hinput
      rw [Gathering.issues_of_finished hfinished] at hown
      refine (Gathering.returns_of_path (fun e _ c hc hissues g => ?_) hp).next
        (Gathering.returns_of_finished hfinished)
      exact realizes_record (hparts key (by simp [Schema.children]))
        (hparts value (by simp [Schema.children])) hc (hown.mono hissues) g
    | _ => cases hinput
  | @first m before after t _ e hbefore hrun hstatus =>
    rw [Schema.validator, Schema.validators_eq_map]
    exact ((realizes_firstSuccess hparts hbefore hrun hstatus []).within _).next (returns_pure rfl)
  | @noneOf m members _ outcomes i houtcomes hi =>
    rw [Schema.validator, Schema.validators_eq_map]
    refine ((realizes_noSuccess hparts houtcomes []).within _).next ?_
    rw [List.nil_append]
    have hreport := hown.steadily (i := i) List.mem_cons_self
    exact realizes_refusal (l := (Schema.union m members).label) (hreport _) hi
  | @intersection m members _ p _ hp hmerged =>
    rw [Schema.validator, Schema.validators_eq_map]
    exact realizes_intersection hparts hp hmerged hown

end Conform
