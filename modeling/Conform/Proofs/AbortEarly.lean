/-
  Conform/Proofs/AbortEarly.lean
  ==============================
  **Stopping at the first issue.**  A run that stops at the first issue is
  compared with the full run of the same schema on the same value.  The datasets
  that the two runs come to are related by `Dataset.Truncates`: both are valid
  with one value, or the early run has failed with one issue, which is the first
  issue of the full run.

  Two things have to be known of callables: that their answers do not depend on
  what happened before (`Context.Steady`), and that messages do not depend on
  the nested issues of an issue (`Context.IgnoresReasons`), which the early run
  cuts short.
-/
import Conform.Proofs.Inversion

namespace Conform

/-! ### Truncation -/

/-- The issues are equal in all but the nested issues. -/
def Issue.Matches (i j : Issue) : Prop := i = { j with reasons := i.reasons }

theorem Issue.Matches.under {i j : Issue} (h : i.Matches j) (key : Value) :
    (i.under key).Matches (j.under key) := by
  unfold Issue.Matches Issue.under at *
  rw [h]

theorem Issue.Matches.message_eq {i j : Issue} (h : i.Matches j) : i.message = j.message := by
  rw [h]

/-- What the early run comes to, against what the full run comes to. -/
inductive Dataset.Truncates : Dataset → Dataset → Prop where
  | valid {y : Value} : Truncates (.valid y) (.valid y)
  | failed {x : Value} {full : Dataset} {i j : Issue} {rest : List Issue} :
      full.status ≠ .success → full.issues = j :: rest → i.Matches j →
      Truncates (.invalid x i []) full

/-- What a part brings to the early run, against what it brings to the full run. -/
inductive Contribution.Truncates {α : Type} : Contribution α → Contribution α → Prop where
  | clean {c : Contribution α} : c.issues = [] → Truncates c c
  | failed {early full : Contribution α} {i j : Issue} {rest : List Issue} :
      early.issues = [i] → full.issues = j :: rest → i.Matches j → Truncates early full

/-- What the early run makes of a key or value of a mapping, against what the full run makes. -/
inductive CheckTruncates : Issue ⊕ (Value × Bool) → Issue ⊕ (Value × Bool) → Prop where
  | accepted {v : Value × Bool} : CheckTruncates (.inr v) (.inr v)
  | refused {i j : Issue} : i.Matches j → CheckTruncates (.inl i) (.inl j)

/-- How far the early run comes, against how far the full run comes. -/
inductive Progress.Truncates {α : Type} : Progress α → Progress α → Prop where
  | clean {g : Gathering α} : g.dataset.issues = [] → Truncates (.going g) (.going g)
  | failed {d : Dataset} {g : Gathering α} {i j : Issue} {rest : List Issue} :
      d.issues = [i] → g.dataset.issues = j :: rest → i.Matches j →
      Truncates (.stopped d) (.going g)

theorem Dataset.Truncates.contribution {α : Type} {early full : Dataset}
    (h : early.Truncates full) (key : Value) (put : Value → α → α) :
    (early.contribution key put).Truncates (full.contribution key put) := by
  cases h with
  | valid => exact .clean rfl
  | @failed x full i j rest _ hissues hmatches =>
    have hunder : (full.contribution key put).issues = j.under key :: rest.map (·.under key) := by
      rw [Dataset.contribution, hissues]
      rfl
    exact .failed rfl hunder (hmatches.under key)

/-! ### Paths -/

section

variable {α σ : Type} {early full : Context} {bringsEarly bringsFull : σ → Contribution α → Prop}

/-- A full run is never stopped, and keeps the issues that it has. -/
theorem going_of_full (hfull : full.config.abortEarly = false) {xs : List σ} {g : Gathering α}
    {p : Progress α} (h : Gathering.Path full bringsFull xs g p) :
    ∃ g' more, p = .going g' ∧ g'.dataset.issues = g.dataset.issues ++ more := by
  induction h with
  | done => exact ⟨_, [], rfl, (List.append_nil _).symm⟩
  | next _ hreceive _ ih =>
    obtain ⟨g', more, rfl, hmore⟩ := ih
    rw [Gathering.receive_of_full hfull] at hreceive
    cases hreceive
    exact ⟨g', _, rfl, hmore.trans (List.append_assoc ..)⟩
  | stop _ hreceive =>
    rw [Gathering.receive_of_full hfull] at hreceive
    cases hreceive

/-- Along the parts, both runs gather the same up to the first part with an issue. -/
theorem path_truncates (hearly : early.config.abortEarly = true)
    (hfull : full.config.abortEarly = false) {xs : List σ}
    (hbrings : ∀ s ∈ xs, ∀ c c', bringsEarly s c → bringsFull s c' → c.Truncates c')
    {g : Gathering α} (hclean : g.dataset.issues = []) {p q : Progress α}
    (hp : Gathering.Path early bringsEarly xs g p) (hq : Gathering.Path full bringsFull xs g q) :
    p.Truncates q := by
  induction xs generalizing g with
  | nil =>
    cases hp
    cases hq
    exact .clean hclean
  | cons s rest ih =>
    rw [List.forall_mem_cons] at hbrings
    cases hq with
    | stop _ hreceive =>
      rw [Gathering.receive_of_full hfull] at hreceive
      cases hreceive
    | next hfullBrings hfullReceive hfullRest =>
      rw [Gathering.receive_of_full hfull] at hfullReceive
      cases hfullReceive
      cases hp with
      | next hearlyBrings hearlyReceive hearlyRest =>
        cases hbrings.1 _ _ hearlyBrings hfullBrings with
        | clean hissues =>
          rw [Gathering.receive_of_clean hissues] at hearlyReceive
          cases hearlyReceive
          simp only [hissues, Dataset.addAll, List.append_nil] at hfullRest
          refine ih hbrings.2 ?_ hearlyRest hfullRest
          exact hclean
        | failed hissues =>
          rw [Gathering.receive_of_early hearly _ (by simp [hissues])] at hearlyReceive
          cases hearlyReceive
      | stop hearlyBrings hearlyReceive =>
        cases hbrings.1 _ _ hearlyBrings hfullBrings with
        | clean hissues =>
          rw [Gathering.receive_of_clean hissues] at hearlyReceive
          cases hearlyReceive
        | @failed _ i j restIssues hissues hissues' hmatches =>
          rw [Gathering.receive_of_early hearly _ (by simp [hissues])] at hearlyReceive
          cases hearlyReceive
          obtain ⟨g', more, rfl, hmore⟩ := going_of_full hfull hfullRest
          have hfirst : g'.dataset.issues = j :: (restIssues ++ more) := by
            rw [hmore, Dataset.addAll, hclean, hissues', List.nil_append, List.cons_append]
          refine .failed ?_ hfirst hmatches
          rw [Dataset.addAll, hclean, hissues, List.nil_append]

/-- The ends of the two runs of a container. -/
theorem finished_truncates {make : α → Except Fault Value} {p q : Progress α} {d e : Dataset}
    (h : p.Truncates q) (hd : Gathering.Finished make p d) (he : Gathering.Finished make q e) :
    d.Truncates e := by
  cases h with
  | @clean g hclean =>
    cases hd with
    | valid _ hmake =>
      cases he with
      | valid _ hmake' =>
        rw [hmake] at hmake'
        cases hmake'
        rw [Dataset.succeed, hclean]
        exact .valid
      | partly hissues => exact absurd hclean hissues
      | failed hissues => exact absurd hclean hissues
    | partly hissues => exact absurd hclean hissues
    | failed hissues => exact absurd hclean hissues
  | @failed d₀ g i j rest hissues hissues' hmatches =>
    cases hd with
    | stopped =>
      rw [hissues]
      cases he with
      | valid hclean => simp [hclean] at hissues'
      | partly => exact .failed (by simp [Dataset.succeedPartly]) hissues' hmatches
      | failed => exact .failed (by simp) hissues' hmatches

theorem mapFinished_truncates {p q : Progress Borrowed} {d e : Dataset} (h : p.Truncates q)
    (hd : MapFinished p d) (he : MapFinished q e) : d.Truncates e := by
  cases h with
  | @clean g hclean =>
    cases hd with
    | valid =>
      cases he with
      | valid =>
        rw [Dataset.succeed, hclean]
        exact .valid
      | failed hissues => exact absurd hclean hissues
    | failed hissues => exact absurd hclean hissues
  | @failed d₀ g i j rest hissues hissues' hmatches =>
    cases hd with
    | stopped =>
      rw [hissues]
      cases he with
      | valid hclean => simp [hclean] at hissues'
      | failed => exact .failed (by simp) hissues' hmatches

end

/-! ### Callables -/

/-- The context with the choice whether to stop at the first issue. -/
def Context.withAbort (ctx : Context) (abort : Bool) : Context :=
  { ctx with config := { ctx.config with abortEarly := abort } }

/-- What is answered does not depend on what happened before. -/
def Context.Steady (ctx : Context) (callee : Value) : Prop :=
  ∀ arguments w w', (ctx.invoke callee arguments w).1 = (ctx.invoke callee arguments w').1

/-- A message does not depend on the nested issues of the issue that it is given. -/
def Context.IgnoresReasons (ctx : Context) (message : Value) : Prop :=
  ∀ i reasons w, (ctx.invoke message [.issue { i with reasons }] w).1 =
    (ctx.invoke message [.issue i] w).1

/-- The values that a schema itself may call. -/
def Schema.callees : Schema → List Value
  | .constraint m (.refine predicate) _ _ _ => [m, predicate]
  | .wrapper m (.default v) _ => [m, v]
  | .overwrite m transform _ => [m, transform]
  | s => [s.message]

/-- The callables of schemas and of the configuration are steady, and their messages ignore
nested issues. -/
structure Context.Repeatable (ctx : Context) (U : Schema → Prop) : Prop where
  steady : ∀ s, U s → ∀ callee ∈ s.callees, ctx.Steady callee
  ignores : ∀ s, U s → ctx.IgnoresReasons s.message
  steadyConfig : ctx.Steady ctx.config.message
  ignoresConfig : ctx.IgnoresReasons ctx.config.message

theorem Schema.message_mem_callees (s : Schema) : s.message ∈ s.callees := by
  unfold callees
  split <;> simp [message]

section

variable {ctx : Context} {I : Found → Prop} {U : Schema → Prop}

/-- What steady messages make of findings that differ in nested issues matches. -/
theorem report_matches {own : Value} (hown : ctx.Steady own ∧ ctx.IgnoresReasons own)
    (hconfig : ctx.Steady ctx.config.message ∧ ctx.IgnoresReasons ctx.config.message)
    {f g : Finding} (hfg : f = { g with reasons := f.reasons }) {i j : Issue}
    (hi : Gives I ((ctx.withAbort true).report own f) i)
    (hj : Gives I ((ctx.withAbort false).report own g) j) : i.Matches j := by
  rw [hfg] at hi
  obtain ⟨message, ⟨text, hasOwn, custom, htext, hhas, hcustom, hmessage⟩, rfl⟩ := gives_report hi
  obtain ⟨message', ⟨text', hasOwn', custom', htext', hhas', hcustom', hmessage'⟩, rfl⟩ :=
    gives_report hj
  have htext : text = text' := Except.ok.inj (htext.symm.trans htext')
  have hhas : hasOwn = hasOwn' := Except.ok.inj (hhas.symm.trans hhas')
  subst htext hhas
  have hsame : custom = custom' := hcustom.trans hcustom'.symm
  have hsteady : ctx.Steady custom ∧ ctx.IgnoresReasons custom := by
    rw [hcustom]
    cases hasOwn
    · exact hconfig
    · exact hown
  subst hsame
  have heq : message = message' := by
    split at hmessage
    · next hnull =>
      rw [if_pos hnull] at hmessage'
      rw [hmessage, hmessage']
    · next hnull =>
      rw [if_neg hnull] at hmessage'
      split at hmessage
      · next hcallable =>
        rw [if_pos hcallable] at hmessage'
        refine gives_unique (fun w w' => ?_) hmessage hmessage'
        exact (hsteady.2 (g.toIssue (.str text)) f.reasons w).trans (hsteady.1 _ w w')
      · next hcallable =>
        rw [if_neg hcallable] at hmessage'
        rw [hmessage, hmessage']
  rw [heq]
  rfl

namespace Context.Repeatable

variable (hrep : ctx.Repeatable U)

include hrep

theorem report {s : Schema} (hs : U s) {f g : Finding} (hfg : f = { g with reasons := f.reasons })
    {i j : Issue} (hi : Gives I ((ctx.withAbort true).report s.message f) i)
    (hj : Gives I ((ctx.withAbort false).report s.message g) j) : i.Matches j :=
  report_matches ⟨hrep.steady s hs _ s.message_mem_callees, hrep.ignores s hs⟩
    ⟨hrep.steadyConfig, hrep.ignoresConfig⟩ hfg hi hj

theorem report_same {s : Schema} (hs : U s) {f : Finding} {i j : Issue}
    (hi : Gives I ((ctx.withAbort true).report s.message f) i)
    (hj : Gives I ((ctx.withAbort false).report s.message f) j) : i.Matches j :=
  hrep.report hs rfl hi hj

/-- The tests of a constraint come out the same in all worlds. -/
theorem test {m : Value} {check : Check} {name : String} {abort : Bool} {inner : Schema}
    (hs : U (.constraint m check name abort inner)) (v : Value) (w w' : World) :
    (check.test (ctx.withAbort true) v w).1 = (check.test (ctx.withAbort false) v w').1 := by
  cases check with
  | refine predicate =>
    refine result_bind (fun w w' => ?_) (fun _ _ _ _ => rfl) w w'
    exact hrep.steady _ hs predicate (by simp [Schema.callees]) _ w w'
  | pattern regex program =>
    simp only [Check.test]
    cases v.toStr? with
    | none => rfl
    | some text =>
      dsimp only
      split <;> rfl
  | _ => rfl

theorem supply {m v : Value} {inner : Schema} (hs : U (.wrapper m (.default v) inner))
    (w w' : World) :
    (Validator.supply (ctx.withAbort true) v w).1 =
      (Validator.supply (ctx.withAbort false) v w').1 := by
  unfold Validator.supply
  split
  · exact hrep.steady _ hs v (by simp [Schema.callees]) _ w w'
  · rfl

variable {early full : Runs} (hruns : ∀ s x d e, early s x d → full s x e → d.Truncates e)

include hruns

theorem checked {s₀ s : Schema} (hs : U s₀) {messageKey : String} {key x : Value}
    {r r' : Issue ⊕ (Value × Bool)}
    (h : Checked (ctx.withAbort true) I early s₀.label messageKey key s x r)
    (h' : Checked (ctx.withAbort false) I full s₀.label messageKey key s x r') :
    CheckTruncates r r' := by
  cases h with
  | valid hrun hstatus =>
    cases h' with
    | valid hrun' hstatus' =>
      cases hruns _ _ _ _ hrun hrun' with
      | valid => exact .accepted
      | failed => cases hstatus
    | excused hrun' hstatus' =>
      cases hruns _ _ _ _ hrun hrun' with
      | valid => exact absurd rfl hstatus'
      | failed => cases hstatus
    | refused hrun' hstatus' =>
      cases hruns _ _ _ _ hrun hrun' with
      | valid => exact absurd rfl hstatus'
      | failed => cases hstatus
  | excused hrun hstatus hissues hexcused =>
    cases h' with
    | valid hrun' hstatus' =>
      cases hruns _ _ _ _ hrun hrun' with
      | valid => exact absurd rfl hstatus
      | failed hfailed => exact absurd hstatus' hfailed
    | excused => exact .accepted
    | refused hrun' hstatus' hissues' hrefused =>
      cases hruns _ _ _ _ hrun hrun' with
      | valid => exact absurd rfl hstatus
      | failed _ hfull hmatches =>
        cases hissues
        cases hfull.symm.trans hissues'
        rw [hmatches.message_eq, hrefused] at hexcused
        cases hexcused
  | refused hrun hstatus hissues hrefused hi =>
    cases h' with
    | valid hrun' hstatus' =>
      cases hruns _ _ _ _ hrun hrun' with
      | valid => exact absurd rfl hstatus
      | failed hfailed => exact absurd hstatus' hfailed
    | excused hrun' hstatus' hissues' hexcused =>
      cases hruns _ _ _ _ hrun hrun' with
      | valid => exact absurd rfl hstatus
      | failed _ hfull hmatches =>
        cases hissues
        cases hfull.symm.trans hissues'
        rw [hmatches.message_eq, hexcused] at hrefused
        cases hrefused
    | refused hrun' hstatus' hissues' _ hj =>
      cases hruns _ _ _ _ hrun hrun' with
      | valid => exact absurd rfl hstatus
      | failed _ hfull hmatches =>
        cases hissues
        cases hfull.symm.trans hissues'
        rw [hmatches.message_eq] at hi
        exact .refused ((hrep.report_same hs hi hj).under key)

omit hrep in
theorem part {p : Position} {c c' : Contribution (List Value)} (h : PartBrings early p c)
    (h' : PartBrings full p c') : c.Truncates c' := by
  cases h with
  | run hrun =>
    cases h' with
    | run hrun' => exact (hruns _ _ _ _ hrun hrun').contribution p.key _

omit hrep in
theorem member {s : Schema} {x : Value} {c c' : Contribution (List Value)}
    (h : MemberBrings early x s c) (h' : MemberBrings full x s c') : c.Truncates c' := by
  cases h with
  | run hrun =>
    cases h' with
    | run hrun' =>
      cases hruns _ _ _ _ hrun hrun' with
      | valid => exact .clean rfl
      | failed _ hissues hmatches => exact .failed rfl hissues hmatches

theorem declared {s : Schema} (hs : U s) {absent : Absent} {input : Value.Entries}
    {e : Value × Schema} {c c' : Contribution Value.Entries}
    (h : DeclaredBrings (ctx.withAbort true) I early s.label absent input e c)
    (h' : DeclaredBrings (ctx.withAbort false) I full s.label absent input e c') :
    c.Truncates c' := by
  cases h with
  | present hget hrun =>
    cases h' with
    | present hget' hrun' =>
      cases hget.symm.trans hget'
      exact (hruns _ _ _ _ hrun hrun').contribution e.1 _
    | validated hget' => cases hget.symm.trans hget'
    | skipped hget' => cases hget.symm.trans hget'
    | missing hget' => cases hget.symm.trans hget'
  | validated hget habsent hrun =>
    cases h' with
    | present hget' => cases hget.symm.trans hget'
    | validated _ _ hrun' => exact (hruns _ _ _ _ hrun hrun').contribution e.1 _
    | skipped _ habsent' => cases habsent.symm.trans habsent'
    | missing _ habsent' => cases habsent.symm.trans habsent'
  | skipped hget habsent =>
    cases h' with
    | present hget' => cases hget.symm.trans hget'
    | validated _ habsent' => cases habsent.symm.trans habsent'
    | skipped => exact .clean rfl
    | missing _ habsent' => cases habsent.symm.trans habsent'
  | missing hget habsent hi =>
    cases h' with
    | present hget' => cases hget.symm.trans hget'
    | validated _ habsent' => cases habsent.symm.trans habsent'
    | skipped _ habsent' => cases habsent.symm.trans habsent'
    | missing _ _ hj => exact .failed rfl rfl ((hrep.report_same hs hi hj).under e.1)

omit hruns in
theorem extra {s : Schema} (hs : U s) {kind : ObjectKind} {extra : Extra} {e : Value × Value}
    {c c' : Contribution Value.Entries}
    (h : ExtraBrings (ctx.withAbort true) I s.label kind extra e c)
    (h' : ExtraBrings (ctx.withAbort false) I s.label kind extra e c') : c.Truncates c' := by
  cases h with
  | dropped hextra =>
    cases h' with
    | dropped => exact .clean rfl
    | kept hextra' => cases hextra.symm.trans hextra'
    | unexpected hextra' => cases hextra.symm.trans hextra'
  | kept hextra =>
    cases h' with
    | dropped hextra' => cases hextra.symm.trans hextra'
    | kept => exact .clean rfl
    | unexpected hextra' => cases hextra.symm.trans hextra'
  | unexpected hextra hi =>
    cases h' with
    | dropped hextra' => cases hextra.symm.trans hextra'
    | kept hextra' => cases hextra.symm.trans hextra'
    | unexpected _ hj => exact .failed rfl rfl ((hrep.report_same hs hi hj).under e.1)

theorem object {s : Schema} (hs : U s) {kind : ObjectKind} {extra : Extra} {absent : Absent}
    {input : Value.Entries} {e : (Value × Schema) ⊕ (Value × Value)} {c c' : Contribution Value.Entries}
    (h : ObjectBrings (ctx.withAbort true) I early s.label kind extra absent input e c)
    (h' : ObjectBrings (ctx.withAbort false) I full s.label kind extra absent input e c') :
    c.Truncates c' := by
  cases h with
  | declared h =>
    cases h' with
    | declared h' => exact hrep.declared hruns hs h h'
  | extra h =>
    cases h' with
    | extra h' => exact hrep.extra hs h h'

theorem map {s key value : Schema} (hs : U s) {e : Value × Value} {c c' : Contribution Borrowed}
    (h : MapBrings (ctx.withAbort true) I early s.label key value e c)
    (h' : MapBrings (ctx.withAbort false) I full s.label key value e c') : c.Truncates c' := by
  cases h with
  | badKey hkey =>
    cases h' with
    | badKey hkey' =>
      cases hrep.checked hruns hs hkey hkey' with
      | refused hmatches => exact .failed rfl rfl hmatches
    | badValue hkey' => cases hrep.checked hruns hs hkey hkey'
    | accepted hkey' => cases hrep.checked hruns hs hkey hkey'
  | badValue hkey hvalue =>
    cases h' with
    | badKey hkey' => cases hrep.checked hruns hs hkey hkey'
    | badValue _ hvalue' =>
      cases hrep.checked hruns hs hvalue hvalue' with
      | refused hmatches => exact .failed rfl rfl hmatches
    | accepted _ hvalue' => cases hrep.checked hruns hs hvalue hvalue'
  | accepted hkey hvalue =>
    cases h' with
    | badKey hkey' => cases hrep.checked hruns hs hkey hkey'
    | badValue _ hvalue' => cases hrep.checked hruns hs hvalue hvalue'
    | accepted hkey' hvalue' =>
      cases hrep.checked hruns hs hkey hkey'
      cases hrep.checked hruns hs hvalue hvalue'
      exact .clean rfl

theorem record {s key value : Schema} (hs : U s) {e : Value × Value}
    {c c' : Contribution Value.Entries}
    (h : RecordBrings (ctx.withAbort true) I early s.label key value e c)
    (h' : RecordBrings (ctx.withAbort false) I full s.label key value e c') :
    c.Truncates c' := by
  cases h with
  | badKey hkey =>
    cases h' with
    | badKey hkey' =>
      cases hrep.checked hruns hs hkey hkey' with
      | refused hmatches => exact .failed rfl rfl hmatches
    | run hkey' => cases hrep.checked hruns hs hkey hkey'
  | run hkey hrun =>
    cases h' with
    | badKey hkey' => cases hrep.checked hruns hs hkey hkey'
    | run hkey' hrun' =>
      cases hrep.checked hruns hs hkey hkey'
      exact (hruns _ _ _ _ hrun hrun').contribution e.1 _

omit hruns in
/-- The ends of the two runs of an intersection. -/
theorem merged {s : Schema} (hs : U s) {p q : Progress (List Value)} {d e : Dataset}
    (h : p.Truncates q) (hd : Merged (ctx.withAbort true) I s.label p d)
    (he : Merged (ctx.withAbort false) I s.label q e) : d.Truncates e := by
  cases h with
  | @clean g hclean =>
    cases hd with
    | valid htyped houtput hmerged =>
      cases he with
      | valid _ houtput' hmerged' =>
        cases houtput.symm.trans houtput'
        cases hmerged.symm.trans hmerged'
        rw [Dataset.succeed, hclean]
        exact .valid
      | partly _ _ _ hissues => exact absurd hclean hissues
      | conflict _ houtput' hmerged' =>
        cases houtput.symm.trans houtput'
        cases hmerged.symm.trans hmerged'
      | failed _ hissues => exact absurd hclean hissues
    | partly _ _ _ hissues => exact absurd hclean hissues
    | conflict htyped houtput hmerged hi =>
      cases he with
      | valid _ houtput' hmerged' =>
        cases houtput.symm.trans houtput'
        cases hmerged.symm.trans hmerged'
      | partly _ _ _ hissues => exact absurd hclean hissues
      | conflict _ _ _ hj =>
        rw [Dataset.failWith, Dataset.add, Dataset.failWith, Dataset.add, hclean]
        exact .failed (by simp) rfl (hrep.report_same hs hi hj)
      | failed _ hissues => exact absurd hclean hissues
    | failed _ hissues => exact absurd hclean hissues
  | @failed d₀ g i j rest hissues hissues' hmatches =>
    cases hd with
    | stopped =>
      rw [hissues]
      cases he with
      | valid _ _ _ hclean => simp [hclean] at hissues'
      | partly => exact .failed (by simp [Dataset.succeedPartly]) hissues' hmatches
      | @conflict _ _ _ k _ _ _ hj =>
        have hfirst : (g.dataset.failWith k).issues = j :: (rest ++ [k]) := by
          rw [Dataset.issues_failWith, hissues', List.cons_append]
        exact .failed (by simp [Dataset.failWith]) hfirst hmatches
      | failed => exact .failed (by simp) hissues' hmatches

theorem constraint {m : Value} {check : Check} {name : String} {abort : Bool} {inner : Schema}
    (hs : U (.constraint m check name abort inner)) {x : Value} {d e : Dataset}
    (h : (Schema.constraint m check name abort inner).Outcome (ctx.withAbort true) I early x d)
    (h' : (Schema.constraint m check name abort inner).Outcome (ctx.withAbort false) I full x e) :
    d.Truncates e := by
  obtain ⟨d₀, hrun, hd⟩ := h.of_constraint
  obtain ⟨e₀, hrun', he⟩ := h'.of_constraint
  cases hruns _ _ _ _ hrun hrun' with
  | @valid y =>
    -- both runs test one value
    have hagree : ∀ {b b' : Bool}, Gives I (check.test (ctx.withAbort true) y) b →
        Gives I (check.test (ctx.withAbort false) y) b' → b = b' :=
      gives_unique (hrep.test hs y)
    rcases hd with ⟨htyped, -⟩ | ⟨-, hpassed, rfl⟩ | ⟨-, hfailed, f, i, hf, hi, rfl⟩
    · cases htyped
    · rcases he with ⟨htyped, -⟩ | ⟨-, -, rfl⟩ | ⟨-, hfailed, -⟩
      · cases htyped
      · exact .valid
      · cases hagree hpassed hfailed
    · rcases he with ⟨htyped, -⟩ | ⟨-, hpassed, -⟩ | ⟨-, -, f', j, hf', hj, rfl⟩
      · cases htyped
      · cases hagree hfailed hpassed
      · cases hf.symm.trans hf'
        have hstop : (abort || (ctx.withAbort true).config.abortEarly) = true := Bool.or_true abort
        rw [hstop]
        refine .failed ?_ (Dataset.issues_violate ..) (hrep.report_same hs hi hj)
        rw [Dataset.status_violate]
        split <;> simp
  | @failed _ _ i j rest hstatus hissues hmatches =>
    rcases hd with ⟨-, rfl⟩ | ⟨htyped, -⟩ | ⟨htyped, -⟩
    · rcases he with ⟨-, rfl⟩ | ⟨-, -, rfl⟩ | ⟨-, -, f, k, -, -, rfl⟩
      · exact .failed hstatus hissues hmatches
      · exact .failed hstatus hissues hmatches
      · have hfirst : ∀ stop, (e₀.violate stop k).issues = j :: (rest ++ [k]) := by
          intro stop
          rw [Dataset.issues_violate, hissues, List.cons_append]
        refine .failed ?_ (hfirst _) hmatches
        rw [Dataset.status_violate]
        split <;> simp
    · cases htyped
    · cases htyped

theorem wrapper {m : Value} {w : Wrapping} {inner : Schema} (hs : U (.wrapper m w inner))
    {x : Value} {d e : Dataset}
    (h : (Schema.wrapper m w inner).Outcome (ctx.withAbort true) I early x d)
    (h' : (Schema.wrapper m w inner).Outcome (ctx.withAbort false) I full x e) :
    d.Truncates e := by
  rcases h.of_wrapper with ⟨y, hspared, rfl⟩ | ⟨hspared, hdefault, hrun⟩ | ⟨v, y, hdefault, hy, hrun⟩
  · rcases h'.of_wrapper with ⟨y', hspared', rfl⟩ | ⟨hspared', -⟩ | ⟨v', y', hdefault', -⟩
    · cases hspared.symm.trans hspared'
      exact .valid
    · cases hspared.symm.trans hspared'
    · cases w <;> first | cases hspared | cases hdefault'
  · rcases h'.of_wrapper with ⟨y', hspared', -⟩ | ⟨-, -, hrun'⟩ | ⟨v', y', hdefault', -⟩
    · cases hspared.symm.trans hspared'
    · exact hruns _ _ _ _ hrun hrun'
    · cases hdefault.symm.trans hdefault'
  · rcases h'.of_wrapper with ⟨y', hspared', -⟩ | ⟨-, hdefault', -⟩ | ⟨v', y', hdefault', hy', hrun'⟩
    · cases w <;> first | cases hspared' | cases hdefault
    · cases hdefault.symm.trans hdefault'
    · cases hdefault.symm.trans hdefault'
      obtain ⟨given, rfl⟩ : ∃ given, w = .default given := by
        cases w <;> first | cases hdefault | exact ⟨_, rfl⟩
      obtain rfl : given = v := by
        simp only [Wrapping.default?] at hdefault
        split at hdefault
        · exact Option.some.inj hdefault
        · cases hdefault
      cases gives_unique (hrep.supply hs) hy hy'
      exact hruns _ _ _ _ hrun hrun'

theorem overwrite {m transform : Value} {inner : Schema} (hs : U (.overwrite m transform inner))
    {x : Value} {d e : Dataset}
    (h : (Schema.overwrite m transform inner).Outcome (ctx.withAbort true) I early x d)
    (h' : (Schema.overwrite m transform inner).Outcome (ctx.withAbort false) I full x e) :
    d.Truncates e := by
  obtain ⟨d₀, hrun, hd⟩ := h.of_overwrite
  obtain ⟨e₀, hrun', he⟩ := h'.of_overwrite
  cases hruns _ _ _ _ hrun hrun' with
  | valid =>
    rcases hd with ⟨-, y, hy, rfl⟩ | ⟨hstatus, -⟩
    · rcases he with ⟨-, y', hy', rfl⟩ | ⟨hstatus, -⟩
      · cases gives_unique (hrep.steady _ hs transform (by simp [Schema.callees]) _) hy hy'
        exact .valid
      · exact absurd rfl hstatus
    · exact absurd rfl hstatus
  | failed hfailed hissues hmatches =>
    rcases hd with ⟨hstatus, -⟩ | ⟨-, rfl⟩
    · cases hstatus
    · rcases he with ⟨hstatus, -⟩ | ⟨-, rfl⟩
      · exact absurd hstatus hfailed
      · exact .failed hfailed hissues hmatches

omit hrep in
/-- A member succeeds in both runs or in none. -/
theorem agree {s : Schema} {x : Value} {d e : Dataset} (hrun : early s x d) (hrun' : full s x e) :
    d.status = .success ↔ e.status = .success := by
  cases hruns _ _ _ _ hrun hrun' with
  | valid => exact Iff.rfl
  | failed hstatus => simp [Dataset.invalid, hstatus]

/-- Both runs of a union take the same member, or none. -/
theorem union {m : Value} {members : List Schema} (hs : U (.union m members)) {x : Value}
    {d e : Dataset} (h : (Schema.union m members).Outcome (ctx.withAbort true) I early x d)
    (h' : (Schema.union m members).Outcome (ctx.withAbort false) I full x e) :
    d.Truncates e := by
  rcases h.of_union with ⟨before, s, after, d₀, rfl, hbefore, hrun, hstatus, rfl⟩ |
    ⟨outcomes, i, houtcomes, hi, rfl⟩
  · rcases h'.of_union with ⟨before', s', after', e₀, heq, hbefore', hrun', hstatus', rfl⟩ |
      ⟨outcomes', j, houtcomes', -⟩
    · have hs' : s = s' := by
        rcases List.append_eq_append_iff.mp heq with ⟨mid, rfl, hmid⟩ | ⟨mid, rfl, hmid⟩
        · cases mid with
          | nil => exact (List.cons.inj hmid).1
          | cons t mid =>
            obtain ⟨rfl, -⟩ := List.cons.inj hmid
            obtain ⟨e₁, hrun₁, hstatus₁⟩ := hbefore' s (by simp)
            exact absurd ((agree hruns hrun hrun₁).mp hstatus) hstatus₁
        · cases mid with
          | nil => exact (List.cons.inj hmid).1.symm
          | cons t mid =>
            obtain ⟨rfl, -⟩ := List.cons.inj hmid
            obtain ⟨d₁, hrun₁, hstatus₁⟩ := hbefore s' (by simp)
            exact absurd ((agree hruns hrun₁ hrun').mpr hstatus') hstatus₁
      subst hs'
      cases hruns _ _ _ _ hrun hrun' with
      | valid => exact .valid
      | failed => cases hstatus
    · have hmem : s ∈ before ++ s :: after := by simp
      obtain ⟨e₁, hrun₁, hstatus₁⟩ := Schema.Outcome.exists_run_of_mem houtcomes' hmem
      exact absurd ((agree hruns hrun hrun₁).mp hstatus) hstatus₁
  · rcases h'.of_union with ⟨before', s', after', e₀, rfl, hbefore', hrun', hstatus', rfl⟩ |
      ⟨outcomes', j, houtcomes', hj, rfl⟩
    · have hmem : s' ∈ before' ++ s' :: after' := by simp
      obtain ⟨d₁, hrun₁, hstatus₁⟩ := Schema.Outcome.exists_run_of_mem houtcomes hmem
      exact absurd ((agree hruns hrun₁ hrun').mpr hstatus') hstatus₁
    · exact .failed (by simp [Dataset.invalid]) rfl (hrep.report hs rfl hi hj)

/-- The rules keep the two runs of a schema related, when references lead both to one schema. -/
theorem outcome {s : Schema} (hs : U s)
    (hforce : ∀ m id getter t t', s = .lazy m id getter → Gives I (ctx.force id getter) t →
      Gives I (ctx.force id getter) t' → t = t')
    {x : Value} {d e : Dataset} (h : s.Outcome (ctx.withAbort true) I early x d)
    (h' : s.Outcome (ctx.withAbort false) I full x e) : d.Truncates e := by
  cases h with
  | accepted hj hverdict =>
    rcases h'.of_judgement hj with ⟨y, hverdict', rfl⟩ | ⟨f, j, hverdict', -⟩
    · cases hverdict.symm.trans hverdict'
      exact .valid
    · cases hverdict.symm.trans hverdict'
  | rejected hj hverdict hi =>
    rcases h'.of_judgement hj with ⟨y, hverdict', -⟩ | ⟨f, j, hverdict', hj', rfl⟩
    · cases hverdict.symm.trans hverdict'
    · cases hverdict.symm.trans hverdict'
      exact .failed (by simp [Dataset.invalid]) rfl (hrep.report_same hs hi hj')
  | objected hobjection hi =>
    have hobjection : s.objection? (ctx.withAbort false).typeNames x = _ := hobjection
    obtain ⟨j, hj, rfl⟩ := h'.of_objection hobjection
    exact .failed (by simp [Dataset.invalid]) rfl (hrep.report_same hs hi hj)
  | untyped hrun htyped => exact hrep.constraint hruns hs (.untyped hrun htyped) h'
  | passed hrun htyped hpassed => exact hrep.constraint hruns hs (.passed hrun htyped hpassed) h'
  | violated hrun htyped hfailed hfinding hi =>
    exact hrep.constraint hruns hs (.violated hrun htyped hfailed hfinding hi) h'
  | spared hspared => exact hrep.wrapper hruns hs (.spared hspared) h'
  | wrapped hspared hdefault hrun => exact hrep.wrapper hruns hs (.wrapped hspared hdefault hrun) h'
  | supplied hdefault hy hrun => exact hrep.wrapper hruns hs (.supplied hdefault hy hrun) h'
  | overwritten hrun hstatus hy =>
    exact hrep.overwrite hruns hs (.overwritten hrun hstatus hy) h'
  | untouched hrun hstatus => exact hrep.overwrite hruns hs (.untouched hrun hstatus) h'
  | behind ht hrun =>
    obtain ⟨t', ht', hrun'⟩ := h'.of_lazy
    cases hforce _ _ _ _ _ rfl ht ht'
    exact hruns _ _ _ _ hrun hrun'
  | sequence hnone hlayout hp hfinished =>
    have hnone : s.objection? (ctx.withAbort false).typeNames x = _ := hnone
    obtain ⟨q, hq, hfinished'⟩ := h'.of_layout hnone hlayout
    refine finished_truncates (path_truncates rfl rfl ?_ rfl hp hq) hfinished hfinished'
    exact fun _ _ _ _ => part hruns
  | object hx hp hfinished =>
    obtain ⟨q, hq, hfinished'⟩ := h'.of_object hx
    refine finished_truncates (path_truncates rfl rfl ?_ rfl hp hq) hfinished hfinished'
    exact fun _ _ _ _ => hrep.object hruns hs
  | @map m limits key value _ _ _ _ hx hnone hp hfinished =>
    have hnone : (Schema.map m limits key value).objection? (ctx.withAbort false).typeNames x = _ :=
      hnone
    obtain ⟨q, hq, hfinished'⟩ := h'.of_map hx hnone
    refine mapFinished_truncates (path_truncates rfl rfl ?_ rfl hp hq) hfinished hfinished'
    exact fun _ _ _ _ => hrep.map hruns hs
  | record hx hp hfinished =>
    obtain ⟨q, hq, hfinished'⟩ := h'.of_record hx
    refine finished_truncates (path_truncates rfl rfl ?_ rfl hp hq) hfinished hfinished'
    exact fun _ _ _ _ => hrep.record hruns hs
  | first hbefore hrun hstatus => exact hrep.union hruns hs (.first hbefore hrun hstatus) h'
  | noneOf houtcomes hi => exact hrep.union hruns hs (.noneOf houtcomes hi) h'
  | intersection hp hmerged =>
    obtain ⟨q, hq, hmerged'⟩ := h'.of_intersection
    refine hrep.merged hs (path_truncates rfl rfl ?_ rfl hp hq) hmerged hmerged'
    exact fun _ _ _ _ => member hruns

end Context.Repeatable

end

/-! ### Runs -/

theorem Context.Closed.withAbort {ctx : Context} {I : Found → Prop} {U : Schema → Prop}
    (h : ctx.Closed I U) (abort : Bool) : (ctx.withAbort abort).Closed I U :=
  ⟨h.part, h.keeps, h.behind⟩

/-- Stopping at the first issue truncates the full run: the early run is valid exactly when the
full run is, with the same value, and otherwise it has failed with one issue, the first of the full
run up to nested issues.  The two runs may start in different worlds, as long as the references of
the schema lead to the same schemas. -/
theorem abortEarly_truncates {ctx : Context} {s : Schema} {v : Value} {w w' : World}
    (hcallables : ctx.Repeatable (ctx.Reaches w.resolved s))
    (hapart : Schema.NumberedApart (ctx.Reaches w.resolved s))
    (hfound : ctx.Pins (ctx.Reaches w.resolved s) w.resolved w'.resolved)
    {early full : Dataset} {u u' : World}
    (hearly : s.run (ctx.withAbort true) (.fresh v) w = (.ok early, u))
    (hfull : s.run (ctx.withAbort false) (.fresh v) w' = (.ok full, u')) :
    early.Truncates full := by
  have hclosed := ctx.closed_of_pins hapart (fun _ _ ht hc => .part ht hc)
    (ctx.leads_reaches w.resolved s)
  have hyields : (ctx.withAbort true).Yields (ctx.Pins (ctx.Reaches w.resolved s) w.resolved)
      s v early := ⟨_, w, u, fun _ _ _ _ => rfl, hearly⟩
  have hyields' : (ctx.withAbort false).Yields (ctx.Pins (ctx.Reaches w.resolved s) w.resolved)
      s v full := ⟨_, w', u', hfound, hfull⟩
  -- the induction is over the early run, for all full runs at once
  refine yields_induction (hclosed.withAbort true) ?_ .start hyields full hyields'
    (P := fun t x d => ∀ e, (ctx.withAbort false).Yields _ t x e → d.Truncates e)
  intro t x d ht houtcome e he
  refine hcallables.outcome ?_ ht ?_ houtcome (outcome_of_yields (hclosed.withAbort false) ht he)
  · rintro c y d' e' ⟨-, -, hih⟩ ⟨-, he'⟩
    exact hih e' he'
  · rintro m id getter r r' rfl hr hr'
    exact Option.some.inj ((gives_force_of_pins ht hr).symm.trans (gives_force_of_pins ht hr'))

/-- A missing name and two tags that are no texts: three issues in the full run, and one when
stopping at the first. -/
theorem abortEarly_truncates_missing :
    let ctx : Context := ⟨.default, [], [], [], ⟨fun _ _ _ => .error .callable, 0⟩⟩
    let text : Schema := .primitive .null .string
    let tags : Schema := .array .null .none text
    let s : Schema := .object .null 0 .plain .strip .reject [(.str "name", text), (.str "tags", tags)]
    let input : Value := .ofMapping [(.str "tags", .ofList [.int 1, .int 2])]
    ∃ early full u u', s.run (ctx.withAbort true) (.fresh input) .empty = (.ok early, u) ∧
      s.run (ctx.withAbort false) (.fresh input) .empty = (.ok full, u') ∧
      early.issues.length = 1 ∧ full.issues.length = 3 ∧ early.Truncates full := by
  intro ctx text tags s input
  have hreaches : ∀ t, ctx.Reaches [] s t → t = text ∨ t = tags ∨ t = s := by
    intro t ht
    refine ht.closed (Q := fun t => t = text ∨ t = tags ∨ t = s) (.inr (.inr rfl)) ?_ ?_
    · rintro _ c (rfl | rfl | rfl) hc
      · cases hc
      · exact .inl (List.mem_singleton.mp hc)
      · rcases List.mem_pair.mp hc with rfl | rfl
        · exact .inl rfl
        · exact .inr (.inl rfl)
    · intro m id getter t h
      simp [text, tags, s] at h
  have hmessages : ∀ t, ctx.Reaches [] s t → t.callees = [.null] := by
    intro t ht
    rcases hreaches t ht with rfl | rfl | rfl <;> rfl
  have hsteady : ctx.Steady .null := fun _ _ _ => rfl
  have hignores : ctx.IgnoresReasons .null := fun _ _ _ => rfl
  have hcallables : ctx.Repeatable (ctx.Reaches [] s) := by
    refine ⟨fun t ht callee hcallee => ?_, fun t ht => ?_, hsteady, hignores⟩
    · rw [hmessages t ht, List.mem_singleton] at hcallee
      rw [hcallee]
      exact hsteady
    · rcases hreaches t ht with rfl | rfl | rfl <;> exact hignores
  have hapart : Schema.NumberedApart (ctx.Reaches [] s) := by
    intro m m' id getter getter' h
    have hlazy := hreaches _ h
    simp [text, tags, s] at hlazy
  obtain ⟨early, u, hearly, hone⟩ : ∃ early u,
      s.run (ctx.withAbort true) (.fresh input) .empty = (.ok early, u) ∧
        early.issues.length = 1 := by
    dsimp only [ctx, text, tags, s, input]
    refine ⟨_, _, rfl, ?_⟩
    rfl
  obtain ⟨full, u', hfull, hthree⟩ : ∃ full u',
      s.run (ctx.withAbort false) (.fresh input) .empty = (.ok full, u') ∧
        full.issues.length = 3 := by
    dsimp only [ctx, text, tags, s, input]
    refine ⟨_, _, rfl, ?_⟩
    rfl
  exact ⟨early, full, u, u', hearly, hfull, hone, hthree,
    abortEarly_truncates hcallables hapart (fun _ _ _ _ => rfl) hearly hfull⟩

end Conform
