/-
  Conform/Proofs/Contributions.lean
  =================================
  **What is gathered without early abort.**  Then no contribution stops the steps, so
  what is gathered is put together from the contributions of all parts
  (`Gathering.gathered_of_path`), and any contributions of them make a path
  (`Gathering.path_of_forall₂`).  A part of an object writes under the key that its
  issues are under (`Contribution.At`), a part of a list or a tuple at its place.
-/
import Conform.Proofs.Settled

namespace Conform

open Validator

/-! ### Contributions to a list -/

namespace Contribution

variable {β : Type}

/-- The contribution writes at the end, whatever has been written before. -/
def Appends (c : Contribution (List β)) : Prop := ∀ output, c.put output = output ++ c.put []

/-- What a contribution writes. -/
def written (c : Contribution (List β)) : List β := if c.typed then c.put [] else []

theorem Appends.output {c : Contribution (List β)} (h : c.Appends) (output : List β) :
    (if c.typed then c.put output else output) = output ++ c.written := by
  unfold written
  split
  · exact h output
  · exact (List.append_nil output).symm

end Contribution

section

variable {α β σ : Type} {ctx : Context}

/-- What contributions to a list come to together. -/
def Gathering.takeAll {β : Type} (g : Gathering (List β)) (cs : List (Contribution (List β))) :
    Gathering (List β) :=
  ⟨g.dataset.addAll (cs.flatMap (·.issues)), g.output ++ cs.flatMap (·.written),
    g.typed && cs.all (·.typed)⟩

theorem Gathering.takeAll_cons {β : Type} (g : Gathering (List β)) {c : Contribution (List β)}
    (hc : c.Appends) (cs : List (Contribution (List β))) :
    Gathering.takeAll ⟨g.dataset.addAll c.issues, if c.typed then c.put g.output else g.output,
      g.typed && c.typed⟩ cs = g.takeAll (c :: cs) := by
  simp only [takeAll, Dataset.addAll, hc.output, List.flatMap_cons, List.append_assoc,
    List.all_cons, Bool.and_assoc]

/-- Without early abort all contributions are gathered. -/
theorem Gathering.gathered_of_path {β : Type} {brings : σ → Contribution (List β) → Prop}
    (hfull : ctx.config.abortEarly = false) (happends : ∀ s c, brings s c → c.Appends) {xs : List σ}
    {g : Gathering (List β)} {p : Progress (List β)} (h : Path ctx brings xs g p) :
    ∃ cs, List.Forall₂ brings xs cs ∧ p = .going (g.takeAll cs) := by
  induction h with
  | @done g => exact ⟨[], .nil, by simp [takeAll, Dataset.addAll]⟩
  | next hc hreceive _ ih =>
    rw [receive_of_full hfull] at hreceive
    cases hreceive
    obtain ⟨cs, hcs, rfl⟩ := ih
    exact ⟨_ :: cs, .cons hc hcs, congrArg _ (takeAll_cons _ (happends _ _ hc) cs)⟩
  | stop _ hreceive =>
    rw [receive_of_full hfull] at hreceive
    cases hreceive

/-- Steps that have all been taken have gathered all contributions. -/
theorem Gathering.taken_of_going {β : Type} {brings : σ → Contribution (List β) → Prop}
    (happends : ∀ s c, brings s c → c.Appends) {xs : List σ} {g g' : Gathering (List β)}
    (h : Path ctx brings xs g (.going g')) : ∃ cs, List.Forall₂ brings xs cs ∧ g' = g.takeAll cs := by
  generalize hp : Progress.going g' = p at h
  induction h with
  | done =>
    cases hp
    exact ⟨[], .nil, by simp [takeAll, Dataset.addAll]⟩
  | next hc hreceive _ ih =>
    obtain ⟨cs, hcs, rfl⟩ := ih hp
    rw [eq_of_receive hreceive]
    exact ⟨_ :: cs, .cons hc hcs, takeAll_cons _ (happends _ _ hc) cs⟩
  | stop => cases hp

/-- A container that has gathered without a stop ends as its issues and its parts say. -/
theorem Gathering.status_of_finished {make : α → Except Fault Value} {g : Gathering α} {d : Dataset}
    (h : Finished make (.going g) d) :
    d.status = if g.dataset.issues.isEmpty then .success else if g.typed then .partly
      else .failure := by
  cases h with
  | valid hissues => simp [hissues, Dataset.succeed]
  | partly hissues htyped => simp [hissues, htyped, Dataset.succeedPartly]
  | failed hissues htyped => simp [hissues, htyped]

theorem Gathering.value_of_finished {make : α → Except Fault Value} {g : Gathering α} {d : Dataset}
    (h : Finished make (.going g) d) (htyped : d.isTyped = true) : make g.output = .ok d.value := by
  cases h with
  | valid _ hmake => exact hmake
  | partly _ _ hmake => exact hmake
  | failed => cases htyped

/-- Without early abort, whatever parts bring makes a path. -/
theorem Gathering.path_of_forall₂ {β σ : Type} {ctx : Context}
    {brings : σ → Contribution (List β) → Prop} (hfull : ctx.config.abortEarly = false)
    (happends : ∀ s c, brings s c → c.Appends) {xs : List σ} {cs : List (Contribution (List β))}
    (h : List.Forall₂ brings xs cs) (g : Gathering (List β)) :
    Path ctx brings xs g (.going (g.takeAll cs)) := by
  induction h generalizing g with
  | nil =>
    have hnone : g.takeAll [] = g := by simp [takeAll, Dataset.addAll]
    rw [hnone]
    exact .done
  | cons hc _ ih =>
    rw [← takeAll_cons g (happends _ _ hc)]
    exact .next hc (receive_of_full hfull g _) (ih _)

theorem Gathering.exists_finished {α : Type} {make : α → Except Fault Value} {g : Gathering α}
    {output : Value} (hmake : make g.output = .ok output) : ∃ d, Finished make (.going g) d := by
  by_cases hissues : g.dataset.issues = []
  · exact ⟨_, .valid hissues hmake⟩
  · cases htyped : g.typed with
    | true => exact ⟨_, .partly hissues htyped hmake⟩
    | false => exact ⟨_, .failed hissues htyped hmake⟩

end

/-! ### Parts of objects -/

/-- All issues are under one key. -/
def Issue.AllAt (key : Value) (is : List Issue) : Prop :=
  ∀ i ∈ is, i.path.head? = some key

theorem Issue.allAt_under (key : Value) (is : List Issue) :
    Issue.AllAt key (is.map (·.under key)) := by
  intro i hi
  obtain ⟨j, -, rfl⟩ := List.mem_map.mp hi
  rfl

theorem Issue.allAt_nil (key : Value) : Issue.AllAt key [] := fun _ hi => by cases hi

section

variable {ctx : Context} {I : Found → Prop} {R : Runs}

/-- What a part brings: it writes at the end, under the key that its issues are under. -/
structure Contribution.At (key : Value) (c : Contribution Value.Entries) : Prop where
  appends : c.Appends
  issues : Issue.AllAt key c.issues
  keys : ∀ e ∈ c.put [], e.1 = key

theorem appends_putEntry (key v : Value) (output : Value.Entries) :
    putEntry key v output = output ++ putEntry key v [] := by
  unfold putEntry
  split
  · exact (List.append_nil output).symm
  · rfl

theorem Dataset.contribution_at (part : Dataset) (key : Value) :
    (part.contribution key (putEntry key)).At key where
  appends := appends_putEntry key part.value
  issues := Issue.allAt_under key part.issues
  keys e he := by
    simp only [Dataset.contribution, putEntry] at he
    split at he
    · cases he
    · rw [List.mem_singleton.mp he]

theorem Contribution.plain_id_at (key : Value) :
    (Contribution.plain id : Contribution Value.Entries).At key where
  appends output := (List.append_nil output).symm
  issues := Issue.allAt_nil key
  keys _ he := by cases he

theorem Issue.contribution_at (i : Issue) (key : Value) :
    ((i.under key).contribution : Contribution Value.Entries).At key where
  appends output := (List.append_nil output).symm
  issues := Issue.allAt_under key [i]
  keys _ he := by cases he

/-- The key that a step of an object is about. -/
def stepKey : (Value × Schema) ⊕ (Value × Value) → Value :=
  Sum.elim (·.1) (·.1)

/-- What a step of an object brings is under its key. -/
theorem ObjectBrings.at_stepKey {l : Label} {kind : ObjectKind} {extra : Extra} {absent : Absent}
    {input : Value.Entries} {s : (Value × Schema) ⊕ (Value × Value)}
    {c : Contribution Value.Entries} (h : ObjectBrings ctx I R l kind extra absent input s c) :
    c.At (stepKey s) := by
  cases h with
  | declared h =>
    cases h with
    | present => exact Dataset.contribution_at _ _
    | validated => exact Dataset.contribution_at _ _
    | skipped => exact Contribution.plain_id_at _
    | missing => exact Issue.contribution_at _ _
  | extra h =>
    cases h with
    | dropped => exact Contribution.plain_id_at _
    | kept => exact ⟨fun _ => rfl, Issue.allAt_nil _, fun _ he => by rw [List.mem_singleton.mp he]; rfl⟩
    | unexpected => exact Issue.contribution_at _ _

theorem Contribution.At.written {key : Value} {c : Contribution Value.Entries} (h : c.At key)
    {e : Value × Value} (he : e ∈ c.written) : e.1 = key := by
  unfold Contribution.written at he
  split at he
  · exact h.keys e he
  · cases he

/-- The steps of an object: its declared keys, and then the other keys of the mapping. -/
abbrev objectSteps (entries : List (Value × Schema)) (input : Value.Entries) :
    List ((Value × Schema) ⊕ (Value × Value)) :=
  entries.map .inl ++ (Schema.undeclared entries input).map .inr

end

section

variable {ctx : Context} {I : Found → Prop} {R : Runs} {m : Value} {id : Nat} {kind : ObjectKind}
  {extra : Extra} {absent : Absent} {entries : List (Value × Schema)} {x : Value} {d : Dataset}

/-- Without early abort an object comes to what its steps bring. -/
structure Gathered (cs : List (Contribution Value.Entries)) (d : Dataset) : Prop where
  issues : d.issues = cs.flatMap (·.issues)
  status : d.status = if d.issues.isEmpty then .success
    else if cs.all (·.typed) then .partly else .failure
  value : d.isTyped = true → d.value.entries? = some (cs.flatMap (·.written))

theorem gathered_of_finished {cs : List (Contribution Value.Entries)}
    (h : Gathering.Finished (fun output => .ok (.ofMapping output))
      (.going (Gathering.takeAll (.start (.fresh x) []) cs)) d) : Gathered cs d where
  issues := (Gathering.issues_of_finished h).trans (List.nil_append _)
  status := by
    rw [Gathering.issues_of_finished h, Gathering.status_of_finished h]
    simp [Gathering.takeAll, Gathering.start, Progress.dataset]
  value htyped := by
    have hvalue := Gathering.value_of_finished h htyped
    rw [← Except.ok.inj hvalue]
    exact congrArg some (List.nil_append _)

theorem gathered_of_object (hfull : ctx.config.abortEarly = false) {input : Value.Entries}
    (hx : x.entries? = some input)
    (h : (Schema.object m id kind extra absent entries).Outcome ctx I R x d) :
    ∃ cs, List.Forall₂ (ObjectBrings ctx I R (Schema.object m id kind extra absent entries).label
      kind extra absent input) (objectSteps entries input) cs ∧ Gathered cs d := by
  obtain ⟨p, hp, hfinished⟩ := h.of_object hx
  obtain ⟨cs, hcs, rfl⟩ :=
    Gathering.gathered_of_path hfull (fun _ _ hc => hc.at_stepKey.appends) hp
  exact ⟨cs, hcs, gathered_of_finished hfinished⟩

end

/-! ### Parts of lists and tuples -/

section

variable {ctx : Context} {I : Found → Prop} {R : Runs}

theorem PartBrings.appends {p : Position} {c : Contribution (List Value)} (h : PartBrings R p c) :
    c.Appends := by
  cases h with
  | run => exact fun _ => rfl

theorem PartBrings.allAt {p : Position} {c : Contribution (List Value)} (h : PartBrings R p c) :
    Issue.AllAt p.key c.issues := by
  cases h with
  | run => exact Issue.allAt_under _ _

/-- A typed part writes its value. -/
theorem PartBrings.written {p : Position} {c : Contribution (List Value)} (h : PartBrings R p c)
    (htyped : c.typed = true) : ∃ v, c.written = [v] := by
  rw [Contribution.written, if_pos htyped]
  cases h with
  | @run part => exact ⟨part.value, rfl⟩

theorem length_written {ps : List Position} {cs : List (Contribution (List Value))}
    (h : List.Forall₂ (PartBrings R) ps cs) (htyped : ∀ c ∈ cs, c.typed = true) :
    (cs.flatMap (·.written)).length = ps.length := by
  induction h with
  | nil => rfl
  | cons hc _ ih =>
    rw [List.forall_mem_cons] at htyped
    obtain ⟨v, hv⟩ := hc.written htyped.1
    rw [List.flatMap_cons, hv, List.singleton_append, List.length_cons, ih htyped.2, List.length_cons]

/-- Without early abort a list or tuple comes to what its parts bring; they are all typed if it is. -/
theorem gathered_of_layout (hfull : ctx.config.abortEarly = false)
    (hsettled : ∀ t x d, R t x d → d.Settled ctx) {s : Schema} {x : Value} {d : Dataset}
    {parts : List Position} {make : List Value → Except Fault Value}
    (hnone : s.objection? ctx.typeNames x = .ok none) (hlayout : s.layout? x = some (parts, make))
    (h : s.Outcome ctx I R x d) :
    ∃ cs, List.Forall₂ (PartBrings R) parts cs ∧ d.issues = cs.flatMap (·.issues) ∧
      (d.isTyped = true → (∀ c ∈ cs, c.typed = true) ∧
        make (cs.flatMap (·.written)) = .ok d.value) := by
  obtain ⟨p, hp, hfinished⟩ := h.of_layout hnone hlayout
  have hjustified := Gathering.settled_of_path
    (fun _ _ _ hc => settled_of_partBrings hsettled hc) (Gathering.settled_start _ _ rfl) hp
  obtain ⟨cs, hcs, rfl⟩ := Gathering.gathered_of_path hfull (fun _ _ hc => hc.appends) hp
  refine ⟨cs, hcs, (Gathering.issues_of_finished hfinished).trans (List.nil_append _), fun htyped => ?_⟩
  refine ⟨?_, Gathering.value_of_finished hfinished htyped⟩
  -- what has gathered an untyped part has an issue, and is no more typed at its end
  have hall : ((Gathering.start (.fresh x) []).takeAll cs).typed = true := by
    have hstatus := Gathering.status_of_finished hfinished
    cases hall : ((Gathering.start (.fresh x) []).takeAll cs).typed with
    | true => rfl
    | false =>
      have hne : ((Gathering.start (.fresh x) []).takeAll cs).dataset.issues ≠ [] :=
        Context.Justifies.untyped hjustified hall
      rw [if_neg (mt List.isEmpty_iff.mp hne), hall] at hstatus
      rw [Dataset.isTyped, hstatus] at htyped
      cases htyped
  exact List.all_eq_true.mp hall

end

end Conform
