/-
  Conform/Proofs/Settled.lean
  ===========================
  **Status and issues agree.**  A dataset that a run has come to is valid when
  it has no issues; it is partly valid only if the run does not stop at the first
  issue and all its issues are of failed tests (`Dataset.Settled`).

  Containers, maps and intersections decide at their end by what their parts have
  brought, and they fail without an issue of their own.  So the invariant is
  carried along a path: what is not typed has an issue, and what is typed has none
  but those of failed tests (`Context.Justifies`).
-/
import Conform.Proofs.Location

namespace Conform

/-- The kind of the issues of failed tests. -/
def Issue.isViolation (i : Issue) : Prop := i.kind = "validation"

/-- Whether something is typed agrees with the issues that it has: it is not without reason untyped,
and typed with issues only when these leave it so. -/
structure Context.Justifies (ctx : Context) (typed : Bool) (issues : List Issue) : Prop where
  untyped : typed = false → issues ≠ []
  typed : typed = true → issues ≠ [] →
    ctx.config.abortEarly = false ∧ ∀ i ∈ issues, i.isViolation

/-- The status of a dataset agrees with its issues. -/
structure Dataset.Settled (ctx : Context) (d : Dataset) : Prop where
  known : d.status ≠ .unknown
  success : d.issues = [] ↔ d.status = .success
  justified : ctx.Justifies d.isTyped d.issues

/-- What a part brings is typed or not for its issues. -/
def Contribution.Settled {α : Type} (ctx : Context) (c : Contribution α) : Prop :=
  ctx.Justifies c.typed c.issues

/-- What is gathered so far is typed or not for its issues; it was not stopped without one. -/
def Progress.Settled {α : Type} (ctx : Context) : Progress α → Prop
  | .going g => ctx.Justifies g.typed g.dataset.issues
  | .stopped d => d.issues ≠ []

section

variable {ctx : Context} {I : Found → Prop} {α σ : Type}

theorem Context.justifies_nil : ctx.Justifies true [] :=
  ⟨fun h => (by cases h), fun _ h => absurd rfl h⟩

theorem Context.justifies_untyped {issues : List Issue} (h : issues ≠ []) :
    ctx.Justifies false issues :=
  ⟨fun _ => h, fun h => (by cases h)⟩

theorem Context.Justifies.append {t u : Bool} {is js : List Issue} (hi : ctx.Justifies t is)
    (hj : ctx.Justifies u js) : ctx.Justifies (t && u) (is ++ js) := by
  refine ⟨fun huntyped => ?_, fun htyped hne => ?_⟩
  · rcases Bool.and_eq_false_iff.mp huntyped with h | h
    · exact List.append_ne_nil_of_left_ne_nil (hi.untyped h) js
    · exact List.append_ne_nil_of_right_ne_nil is (hj.untyped h)
  · obtain ⟨ht, hu⟩ := Bool.and_eq_true_iff.mp htyped
    have hearly : ctx.config.abortEarly = false := by
      by_cases his : is = []
      · exact (hj.typed hu (by rwa [his] at hne)).1
      · exact (hi.typed ht his).1
    refine ⟨hearly, fun i h => ?_⟩
    rcases List.mem_append.mp h with h | h
    · exact (hi.typed ht (List.ne_nil_of_mem h)).2 i h
    · exact (hj.typed hu (List.ne_nil_of_mem h)).2 i h

/-- Going under a key changes nothing of what issues justify. -/
theorem Context.Justifies.under {t : Bool} {is : List Issue} (h : ctx.Justifies t is) (key : Value) :
    ctx.Justifies t (is.map (·.under key)) := by
  refine ⟨fun ht => ?_, fun ht hne => ?_⟩
  · simpa using h.untyped ht
  · obtain ⟨hearly, hkinds⟩ := h.typed ht (by simpa using hne)
    refine ⟨hearly, fun i hi => ?_⟩
    obtain ⟨j, hj, rfl⟩ := List.mem_map.mp hi
    exact hkinds j hj

/-! ### Datasets -/

theorem Dataset.settled_valid (x : Value) : (Dataset.valid x).Settled ctx :=
  ⟨by simp [valid], by simp [valid], Context.justifies_nil⟩

theorem Dataset.settled_failed {d : Dataset} (h : d.issues ≠ []) :
    Dataset.Settled ctx { d with status := .failure } :=
  ⟨by simp, by simp [h], Context.justifies_untyped h⟩

theorem Dataset.settled_succeed {d : Dataset} (x : Value) (h : d.issues = []) :
    (d.succeed x).Settled ctx := by
  refine ⟨by simp [succeed], by simp [succeed, h], ?_⟩
  rw [isTyped_succeed, issues_succeed, h]
  exact Context.justifies_nil

theorem Dataset.settled_partly {d : Dataset} (x : Value) (hne : d.issues ≠ [])
    (h : ctx.Justifies true d.issues) : (d.succeedPartly x).Settled ctx :=
  ⟨by simp [succeedPartly], by simp [succeedPartly, hne], h⟩

theorem Dataset.settled_failWith (d : Dataset) (i : Issue) : (d.failWith i).Settled ctx :=
  settled_failed (d := d.add i) (by simp)

/-- A typed dataset that fails a test is partly valid, unless the test ends the validation. -/
theorem Dataset.Settled.violate {d : Dataset} (hd : d.Settled ctx) (htyped : d.isTyped = true)
    (abort : Bool) {i : Issue} (hi : i.isViolation) :
    (d.violate (abort || ctx.config.abortEarly) i).Settled ctx := by
  unfold Dataset.violate
  split
  · exact settled_failWith d i
  · next hstop =>
    have hearly : ctx.config.abortEarly = false := by
      rw [Bool.not_eq_true, Bool.or_eq_false_iff] at hstop
      exact hstop.2
    have hjustified : ctx.Justifies d.isTyped d.issues := hd.justified
    have hlast : ctx.Justifies true [i] :=
      ⟨fun h => (by cases h), fun _ _ => ⟨hearly, List.forall_mem_singleton.mpr hi⟩⟩
    refine ⟨by simp, by simp, ?_⟩
    have happend := hjustified.append hlast
    rwa [htyped] at happend

/-! ### Paths -/

namespace Gathering

theorem settled_start (d : Dataset) (output : α) (h : d.issues = []) :
    (Progress.going (start d output)).Settled ctx := by
  change ctx.Justifies true d.issues
  rw [h]
  exact Context.justifies_nil

/-- Taking in a contribution keeps the agreement. -/
theorem settled_receive {g : Gathering α} {c : Contribution α}
    (hg : (Progress.going g).Settled ctx) (hc : c.Settled ctx) : (g.receive ctx c).Settled ctx := by
  have happend : ctx.Justifies (g.typed && c.typed) (g.dataset.issues ++ c.issues) :=
    Context.Justifies.append hg hc
  unfold receive
  split
  · next hstop =>
    have hissues : c.issues ≠ [] := by
      intro h
      rw [h] at hstop
      cases hstop
    exact List.append_ne_nil_of_right_ne_nil _ hissues
  · exact happend

theorem settled_of_path {brings : σ → Contribution α → Prop} {xs : List σ} {g : Gathering α}
    {p : Progress α} (hbrings : ∀ s ∈ xs, ∀ c, brings s c → c.Settled ctx)
    (hg : (Progress.going g).Settled ctx) (h : Path ctx brings xs g p) : p.Settled ctx := by
  induction h with
  | done => exact hg
  | next hc hreceive _ ih =>
    rw [List.forall_mem_cons] at hbrings
    have hnext := settled_receive hg (hbrings.1 _ hc)
    rw [hreceive] at hnext
    exact ih hbrings.2 hnext
  | stop hc hreceive =>
    rw [List.forall_mem_cons] at hbrings
    have hlast := settled_receive hg (hbrings.1 _ hc)
    rwa [hreceive] at hlast

theorem settled_of_finished {make : α → Except Fault Value} {p : Progress α} {d : Dataset}
    (hp : p.Settled ctx) (h : Finished make p d) : d.Settled ctx := by
  cases h with
  | stopped hissues => exact Dataset.settled_failed hissues
  | valid hissues _ => exact Dataset.settled_succeed _ hissues
  | partly hissues htyped _ =>
    have hjustified : ctx.Justifies _ _ := hp
    rw [htyped] at hjustified
    exact Dataset.settled_partly _ hissues hjustified
  | failed hissues _ => exact Dataset.settled_failed hissues

end Gathering

theorem settled_of_mapFinished {p : Progress Borrowed} {d : Dataset} (h : MapFinished p d) :
    d.Settled ctx := by
  cases h with
  | stopped hissues => exact Dataset.settled_failed hissues
  | valid hissues => exact Dataset.settled_succeed _ hissues
  | failed hissues => exact Dataset.settled_failed hissues

theorem settled_of_merged {l : Label} {p : Progress (List Value)} {d : Dataset}
    (hp : p.Settled ctx) (h : Merged ctx I l p d) : d.Settled ctx := by
  cases h with
  | stopped hissues => exact Dataset.settled_failed hissues
  | valid _ _ _ hissues => exact Dataset.settled_succeed _ hissues
  | partly htyped _ _ hissues =>
    have hjustified : ctx.Justifies _ _ := hp
    rw [htyped] at hjustified
    exact Dataset.settled_partly _ hissues hjustified
  | conflict => exact Dataset.settled_failWith _ _
  | failed _ hissues => exact Dataset.settled_failed hissues

/-! ### Contributions -/

theorem Contribution.settled_plain (put : α → α) : (Contribution.plain put).Settled ctx :=
  Context.justifies_nil

theorem Issue.settled_contribution (i : Issue) :
    (i.contribution : Contribution α).Settled ctx :=
  Context.justifies_untyped (List.cons_ne_nil i [])

theorem Dataset.Settled.contribution {part : Dataset} (h : part.Settled ctx) (key : Value)
    (put : Value → α → α) : (part.contribution key put).Settled ctx :=
  h.justified.under key

variable {R : Runs} (hR : ∀ s x d, R s x d → d.Settled ctx)

include hR

theorem settled_of_partBrings {p : Position} {c : Contribution (List Value)}
    (h : PartBrings R p c) : c.Settled ctx := by
  cases h with
  | run hrun => exact (hR _ _ _ hrun).contribution _ _

theorem settled_of_memberBrings {x : Value} {s : Schema} {c : Contribution (List Value)}
    (h : MemberBrings R x s c) : c.Settled ctx := by
  cases h with
  | run hrun => exact (hR _ _ _ hrun).justified

theorem settled_of_objectBrings {l : Label} {kind : ObjectKind} {extra : Extra} {absent : Absent}
    {input : Value.Entries} {s : (Value × Schema) ⊕ (Value × Value)}
    {c : Contribution Value.Entries} (h : ObjectBrings ctx I R l kind extra absent input s c) :
    c.Settled ctx := by
  cases h with
  | declared hdeclared =>
    cases hdeclared with
    | present _ hrun => exact (hR _ _ _ hrun).contribution _ _
    | validated _ _ hrun => exact (hR _ _ _ hrun).contribution _ _
    | skipped => exact Contribution.settled_plain _
    | missing => exact Issue.settled_contribution _
  | extra hextra =>
    cases hextra with
    | dropped => exact Contribution.settled_plain _
    | kept => exact Contribution.settled_plain _
    | unexpected => exact Issue.settled_contribution _

omit hR in
theorem settled_of_mapBrings {l : Label} {key value : Schema} {e : Value × Value}
    {c : Contribution Borrowed} (h : MapBrings ctx I R l key value e c) : c.Settled ctx := by
  cases h with
  | badKey => exact Issue.settled_contribution _
  | badValue => exact Issue.settled_contribution _
  | accepted => exact Contribution.settled_plain _

theorem settled_of_recordBrings {l : Label} {key value : Schema} {e : Value × Value}
    {c : Contribution Value.Entries} (h : RecordBrings ctx I R l key value e c) :
    c.Settled ctx := by
  cases h with
  | badKey => exact Issue.settled_contribution _
  | run _ hrun => exact (hR _ _ _ hrun).contribution _ _

/-! ### Runs -/

/-- Every rule comes to a dataset whose status agrees with its issues. -/
theorem settled_of_outcome {s : Schema} {x : Value} {d : Dataset} (h : s.Outcome ctx I R x d) :
    d.Settled ctx := by
  have hstart {α : Type} (x : Value) (output : α) :
      (Progress.going (Gathering.start (.fresh x) output)).Settled ctx :=
    Gathering.settled_start _ output rfl
  cases h with
  | accepted => exact Dataset.settled_valid _
  | rejected => exact Dataset.settled_failWith (.fresh x) _
  | objected => exact Dataset.settled_failWith (.fresh x) _
  | untyped hrun _ => exact hR _ _ _ hrun
  | passed hrun _ _ => exact hR _ _ _ hrun
  | violated hrun htyped _ hfinding hi =>
    refine (hR _ _ _ hrun).violate htyped _ ?_
    obtain ⟨message, -, rfl⟩ := gives_report hi
    exact (kind_of_checkFinding hfinding).1
  | spared => exact Dataset.settled_valid _
  | wrapped _ _ hrun => exact hR _ _ _ hrun
  | supplied _ _ hrun => exact hR _ _ _ hrun
  | overwritten hrun hstatus _ =>
    obtain ⟨hknown, hsuccess, hjustified⟩ := hR _ _ _ hrun
    exact ⟨hknown, hsuccess, hjustified⟩
  | untouched hrun _ => exact hR _ _ _ hrun
  | behind _ hrun => exact hR _ _ _ hrun
  | sequence _ _ hp hfinished =>
    exact Gathering.settled_of_finished
      (Gathering.settled_of_path (fun _ _ _ => settled_of_partBrings hR) (hstart _ _) hp) hfinished
  | object _ hp hfinished =>
    exact Gathering.settled_of_finished
      (Gathering.settled_of_path (fun _ _ _ => settled_of_objectBrings hR) (hstart _ _) hp)
      hfinished
  | map _ _ _ hfinished => exact settled_of_mapFinished hfinished
  | record _ hp hfinished =>
    exact Gathering.settled_of_finished
      (Gathering.settled_of_path (fun _ _ _ => settled_of_recordBrings hR) (hstart _ _) hp)
      hfinished
  | first => exact Dataset.settled_valid _
  | noneOf => exact Dataset.settled_failWith (.fresh x) _
  | intersection hp hmerged =>
    exact settled_of_merged
      (Gathering.settled_of_path (fun _ _ _ => settled_of_memberBrings hR) (hstart _ _) hp) hmerged

omit hR

/-- Whatever a run comes to, its status agrees with its issues. -/
theorem settled_of_yields {U : Schema → Prop} (hclosed : ctx.Closed I U) {s : Schema} (hs : U s)
    {x : Value} {d : Dataset} (h : ctx.Yields I s x d) : d.Settled ctx :=
  yields_induction (P := fun _ _ d => d.Settled ctx) hclosed
    (fun _ _ _ _ houtcome => settled_of_outcome (fun _ _ _ hrun => hrun.2.2) houtcome) hs h

end

end Conform
