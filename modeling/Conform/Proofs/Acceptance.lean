/-
  Conform/Proofs/Acceptance.lean
  ==============================
  **Accepted entries.**  A mapping asks the schema of its keys, or of its values,
  for a signal, and a message stands for the signal that a value is not valid.
  A message that is the truth value true would be taken for the other signal, so
  what is proved here is for messages that speak (`Context.Speaks`).

  All messages come from reports, and containers only put keys in front of an
  issue (`forall_issues_of_yields`).  When all messages speak, a signal of a
  valid value comes from a run that has succeeded (`success_of_checked`), and a
  mapping that is accepted has asked for every entry.
-/
import Conform.Proofs.Inversion

namespace Conform

/-- A message that never stands for the truth value true: it is not true, and calling it with an
issue does not give true. -/
def Context.Speaks (ctx : Context) (message : Value) : Prop :=
  message.same (.bool true) = false ∧
    ∀ i w v, (ctx.invoke message [.issue i] w).1 = .ok v → v.same (.bool true) = false

/-- Some run of the schema on the value succeeds, with room for at least as many references as the
run of the schema by itself. -/
def Context.Accepts (ctx : Context) (I : Found → Prop) (s : Schema) (x : Value) : Prop :=
  ∃ n d, ctx.bound s x ≤ n ∧ Gives I (s.validatorUpTo n ctx (.fresh x)) d ∧ d.status = .success

section

variable {ctx : Context} {I : Found → Prop} {R : Runs} {U : Schema → Prop}

/-! ### Where issues come from -/

/-- What holds of the reports of a schema and of all issues of its parts, whatever keys are put in
front, holds of all issues of the schema. -/
theorem forall_issues_of_outcome {Q : Issue → Prop} (hunder : ∀ i key, Q i → Q (i.under key))
    {s : Schema} (hreport : ∀ f i, Gives I (ctx.report s.message f) i → Q i)
    (hruns : ∀ t y e, R t y e → ∀ i ∈ e.issues, Q i) {x : Value} {d : Dataset}
    (h : s.Outcome ctx I R x d) : ∀ i ∈ d.issues, Q i := by
  have hpart : ∀ {α : Type} {t y e} (key : Value) (put : Value → α → α), R t y e →
      ∀ i ∈ (e.contribution key put).issues, Q i := by
    intro α t y e key put hrun i hi
    obtain ⟨j, hj, rfl⟩ := List.mem_map.mp hi
    exact hunder j key (hruns t y e hrun j hj)
  have hrefused : ∀ {messageKey key t y i}, Checked ctx I R s.label messageKey key t y (.inl i) →
      Q i := by
    intro messageKey key t y i hchecked
    cases hchecked with
    | refused _ _ _ _ hj => exact hunder _ _ (hreport _ _ hj)
  cases h with
  | accepted => simp [Dataset.valid]
  | rejected _ _ hi => exact List.forall_mem_singleton.mpr (hreport _ _ hi)
  | objected _ hi => exact List.forall_mem_singleton.mpr (hreport _ _ hi)
  | untyped hrun => exact hruns _ _ _ hrun
  | passed hrun => exact hruns _ _ _ hrun
  | violated hrun _ _ _ hi =>
    rw [Dataset.issues_violate]
    exact List.forall_mem_append.mpr
      ⟨hruns _ _ _ hrun, List.forall_mem_singleton.mpr (hreport _ _ hi)⟩
  | spared => simp [Dataset.valid]
  | wrapped _ _ hrun => exact hruns _ _ _ hrun
  | supplied _ _ hrun => exact hruns _ _ _ hrun
  | @overwritten _ _ inner _ _ e hrun => exact hruns inner x e hrun
  | untouched hrun => exact hruns _ _ _ hrun
  | behind _ hrun => exact hruns _ _ _ hrun
  | sequence _ _ hp hfinished =>
    rw [Gathering.issues_of_finished hfinished]
    intro i hi
    rcases Gathering.issue_of_path hp hi with hstart | ⟨p, -, c, ⟨hrun⟩, hi⟩
    · cases hstart
    · exact hpart _ _ hrun i hi
  | object _ hp hfinished =>
    rw [Gathering.issues_of_finished hfinished]
    intro i hi
    rcases Gathering.issue_of_path hp hi with hstart | ⟨e, -, c, hc, hi⟩
    · cases hstart
    · cases hc with
      | declared hc =>
        cases hc with
        | present _ hrun => exact hpart _ _ hrun i hi
        | validated _ _ hrun => exact hpart _ _ hrun i hi
        | skipped => cases hi
        | missing _ _ hj =>
          rw [List.mem_singleton.mp hi]
          exact hunder _ _ (hreport _ _ hj)
      | extra hc =>
        cases hc with
        | dropped => cases hi
        | kept => cases hi
        | unexpected _ hj =>
          rw [List.mem_singleton.mp hi]
          exact hunder _ _ (hreport _ _ hj)
  | map _ _ hp hfinished =>
    rw [issues_of_mapFinished hfinished]
    intro i hi
    rcases Gathering.issue_of_path hp hi with hstart | ⟨e, -, c, hc, hi⟩
    · cases hstart
    · cases hc with
      | badKey hkey => exact List.mem_singleton.mp hi ▸ hrefused hkey
      | badValue _ hvalue => exact List.mem_singleton.mp hi ▸ hrefused hvalue
      | accepted => cases hi
  | record _ hp hfinished =>
    rw [Gathering.issues_of_finished hfinished]
    intro i hi
    rcases Gathering.issue_of_path hp hi with hstart | ⟨e, -, c, hc, hi⟩
    · cases hstart
    · cases hc with
      | badKey hkey => exact List.mem_singleton.mp hi ▸ hrefused hkey
      | run _ hrun => exact hpart _ _ hrun i hi
  | first => simp [Dataset.valid]
  | noneOf _ hi => exact List.forall_mem_singleton.mpr (hreport _ _ hi)
  | intersection hp hmerged =>
    intro i hi
    rcases Schema.Outcome.issue_of_merged hmerged hi with hi | hi
    · rcases Gathering.issue_of_path hp hi with hstart | ⟨t, -, c, ⟨hrun⟩, hi⟩
      · cases hstart
      · exact hruns _ _ _ hrun i hi
    · exact hreport _ _ hi

/-- What holds of all reports of schemas, whatever keys are put in front, holds of all issues. -/
theorem forall_issues_of_yields {Q : Issue → Prop} (hclosed : ctx.Closed I U)
    (hunder : ∀ i key, Q i → Q (i.under key))
    (hreport : ∀ t, U t → ∀ f i, Gives I (ctx.report t.message f) i → Q i) {s : Schema} (hs : U s)
    {x : Value} {d : Dataset} (h : ctx.Yields I s x d) : ∀ i ∈ d.issues, Q i :=
  yields_induction (P := fun _ _ e => ∀ i ∈ e.issues, Q i) hclosed
    (fun t _ _ ht houtcome =>
      forall_issues_of_outcome hunder (hreport t ht) (fun _ _ _ hrun => hrun.2.2) houtcome) hs h

/-- The message of a report is not true when the messages that it is chosen from speak. -/
theorem speaks_report {own : Value} (hown : ctx.Speaks own) (hconfig : ctx.Speaks ctx.config.message)
    {f : Finding} {i : Issue} (h : Gives I (ctx.report own f) i) :
    i.message.same (.bool true) = false := by
  obtain ⟨message, ⟨text, hasOwn, custom, -, -, hcustom, hmessage⟩, rfl⟩ := gives_report h
  have hspeaks : ctx.Speaks custom := by
    rw [hcustom]
    cases hasOwn
    · exact hconfig
    · exact hown
  change message.same (.bool true) = false
  split at hmessage
  · rw [hmessage]
    unfold Value.str
    split <;> rfl
  · split at hmessage
    · obtain ⟨w, w', -, hcall⟩ := hmessage
      exact hspeaks.2 _ w message (by rw [hcall])
    · rw [hmessage]
      exact hspeaks.1

/-- The messages of all issues of a run speak when those of all schemas do. -/
theorem speaks_of_yields (hclosed : ctx.Closed I U) (hconfig : ctx.Speaks ctx.config.message)
    (hspeaks : ∀ t, U t → ctx.Speaks t.message) {s : Schema} (hs : U s) {x : Value} {d : Dataset}
    (h : ctx.Yields I s x d) : ∀ i ∈ d.issues, i.message.same (.bool true) = false :=
  forall_issues_of_yields hclosed (fun _ _ hi => hi)
    (fun t ht _ _ hreport => speaks_report (hspeaks t ht) hconfig hreport) hs h

/-! ### Signals and entries -/

theorem depth_le_of_mem {input : Value.Entries} {e : Value × Value} (he : e ∈ input) :
    e.1.depth ≤ depthOfEntries input ∧ e.2.depth ≤ depthOfEntries input := by
  induction input with
  | nil => cases he
  | cons entry rest ih =>
    obtain ⟨k, v⟩ := entry
    rcases List.mem_cons.mp he with rfl | he
    · simp only [depthOfEntries]
      omega
    · have hrest := ih he
      simp only [depthOfEntries]
      omega

end

end Conform
