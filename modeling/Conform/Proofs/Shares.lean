/-
  Conform/Proofs/Shares.lean
  ==========================
  **The share of each key.**  Without early abort, and when callables are pure, an object
  comes to what its keys contribute, each on its own: every step of a run has a share in
  the result (`exists_shares`), and where each step has a share, the run comes to all of
  them together (`certain_of_shares`).

  A share depends on the key, on its schema and on what the mapping has under the key, and
  on no other key.  So objects that have some keys in common can be compared key by key.
-/
import Conform.Proofs.Isolation

namespace Conform

open Validator

/-! ### Lists -/

section

variable {σ α β : Type}

/-- Where each item has one result at most, results of all items are a function of them. -/
theorem exists_map_of_forall₂ {B : σ → α → Prop} (hunique : ∀ s c c', B s c → B s c' → c = c')
    (otherwise : α) {xs : List σ} {cs : List α} (h : List.Forall₂ B xs cs) :
    ∃ f : σ → α, (∀ s ∈ xs, B s (f s)) ∧ cs = xs.map f := by
  classical
  let f (s : σ) : α := if hs : ∃ c, B s c then hs.choose else otherwise
  have hf {s : σ} {c : α} (hc : B s c) : B s (f s) := by
    have hs : ∃ c, B s c := ⟨c, hc⟩
    simp only [f, dif_pos hs]
    exact hs.choose_spec
  refine ⟨f, ?_⟩
  induction h with
  | nil => exact ⟨List.forall_mem_nil _, rfl⟩
  | cons hc _ ih =>
    refine ⟨List.forall_mem_cons.mpr ⟨hf hc, ih.1⟩, ?_⟩
    rw [List.map_cons, ih.2, hunique _ _ _ hc (hf hc)]

/-- What the items bring that pass a test is what those items bring whose things pass it. -/
theorem filter_flatMap_of_parts {f : σ → List β} {test : β → Bool} {keep : σ → Bool} {xs : List σ}
    (h : ∀ s ∈ xs, ∀ b ∈ f s, test b = keep s) :
    (xs.flatMap f).filter test = (xs.filter keep).flatMap f := by
  induction xs with
  | nil => rfl
  | cons s rest ih =>
    rw [List.forall_mem_cons] at h
    rw [List.flatMap_cons, List.filter_append, ih h.2]
    cases hkeep : keep s with
    | true =>
      have hall : (f s).filter test = f s :=
        List.filter_eq_self.mpr fun b hb => (h.1 b hb).trans hkeep
      rw [hall, List.filter_cons_of_pos hkeep, List.flatMap_cons]
    | false =>
      have hnone : (f s).filter test = [] :=
        List.filter_eq_nil_iff.mpr fun b hb => by simp [h.1 b hb, hkeep]
      rw [hnone, List.filter_cons_of_neg (by simp [hkeep]), List.nil_append]

end

/-! ### Shares -/

/-- What schemas among `U` give when at most so many references lie on one path. -/
def Context.GivesUpTo (ctx : Context) (I : Found → Prop) (U : Schema → Prop) (n : Nat) : Runs :=
  fun s x d => U s ∧ Gives I (s.validatorUpTo n ctx (.fresh x)) d

section

variable {ctx : Context} {I : Found → Prop} {U : Schema → Prop} (h : ctx.Definite I U)
  (hfull : ctx.config.abortEarly = false) {m : Value} {id : Nat} {kind : ObjectKind} {extra : Extra}
  {absent : Absent} {entries : List (Value × Schema)} (hentries : ∀ e ∈ entries, U e.2)
  (hreport : ∀ f, Alike I (ctx.report m f)) {x : Value} {input : Value.Entries}
  (hx : x.entries? = some input) {n : Nat} {d : Dataset}

include h hfull hentries hreport hx

/-- Each step has a share in what an object comes to. -/
theorem exists_shares
    (hd : Gives I ((Schema.object m id kind extra absent entries).validatorUpTo n ctx (.fresh x)) d) :
    ∃ share : (Value × Schema) ⊕ (Value × Value) → Contribution Value.Entries,
      (∀ s ∈ objectSteps entries input, ObjectBrings ctx I (ctx.GivesUpTo I U n)
        (Schema.object m id kind extra absent entries).label kind extra absent input s (share s)) ∧
      Gathered ((objectSteps entries input).map share) d := by
  rw [Schema.validatorUpTo_eq] at hd
  have houtcome := outcome_of_object (R := ctx.GivesUpTo I U n) (fun e he => ⟨fun y => ?_, fun _ _ hrun =>
    ⟨hentries e he, by rwa [Schema.validatorUpTo_eq]⟩⟩) hd
  · obtain ⟨cs, hcs, hgathered⟩ := gathered_of_object hfull hx houtcome
    have hunique (t : Schema) (y : Value) (d e : Dataset) (hd : ctx.GivesUpTo I U n t y d)
        (he : ctx.GivesUpTo I U n t y e) : d = e := h.unique hd.1 ⟨n, hd.2⟩ ⟨n, he.2⟩
    obtain ⟨share, hshare, rfl⟩ := exists_map_of_forall₂ (B := ObjectBrings ctx I (ctx.GivesUpTo I U n)
      (Schema.object m id kind extra absent entries).label kind extra absent input)
      (fun s c c' hc hc' =>
        hc.unique (fun f _ _ hi hj => (hreport f).unique hi hj) hunique rfl hc')
      (.plain fun output => output) hcs
    exact ⟨share, hshare, hgathered⟩
  · rw [← Schema.validatorUpTo_eq]
    exact Schema.keeps_validatorUpTo h.closed n (hentries e he) y

/-- Where each step has a share, an object comes to all of them together. -/
theorem certain_of_shares (id : Nat)
    {share : (Value × Schema) ⊕ (Value × Value) → Contribution Value.Entries}
    (hshare : ∀ s ∈ objectSteps entries input, ObjectBrings ctx I (ctx.GivesUpTo I U n)
      (Schema.object m id kind extra absent entries).label kind extra absent input s (share s)) :
    ∃ d, Certain I ((Schema.object m id kind extra absent entries).validatorUpTo n ctx (.fresh x)) d ∧
      Gathered ((objectSteps entries input).map share) d ∧ (d.status = .failure → d.value = x) := by
  have hcs : List.Forall₂ (ObjectBrings ctx I (ctx.GivesUpTo I U n)
      (Schema.object m id kind extra absent entries).label kind extra absent input)
      (objectSteps entries input) ((objectSteps entries input).map share) :=
    List.forall₂_map_right_iff.mpr (List.forall₂_same.mpr hshare)
  have hpath := Gathering.path_of_forall₂ hfull (fun _ _ hc => hc.at_stepKey.appends) hcs
    (.start (.fresh x) [])
  obtain ⟨d, hfinished⟩ : ∃ d, Gathering.Finished (fun output => .ok (.ofMapping output))
      (.going (Gathering.takeAll (.start (.fresh x) []) ((objectSteps entries input).map share))) d :=
    Gathering.exists_finished rfl
  refine ⟨d, ?_, gathered_of_finished hfinished, fun hfailure => ?_⟩
  · rw [Schema.validatorUpTo_eq]
    refine certain_object (fun e he y part hrun => ?_) (fun _ f i hi => (hreport f).certain hi) hx hpath
      hfinished
    have hcertain := ((h.has (hentries e he) n).run y).certain hrun.2
    rw [Schema.validatorUpTo_eq] at hcertain
    exact hcertain.toEffect
  · cases hfinished with
    | valid | partly => cases hfailure
    | failed => rfl

end

/-! ### Putting shares together -/

/-- An object has succeeded exactly when it has no issues. -/
theorem Gathered.success_iff {cs : List (Contribution Value.Entries)} {d : Dataset} (h : Gathered cs d) :
    d.status = .success ↔ d.issues = [] := by
  have hstatus := h.status
  cases hissues : d.issues with
  | nil =>
    rw [hissues] at hstatus
    exact iff_of_true hstatus rfl
  | cons i rest =>
    rw [hissues] at hstatus
    refine iff_of_false (fun hsuccess => ?_) (List.cons_ne_nil i rest)
    rw [hsuccess] at hstatus
    cases hall : cs.all (·.typed) <;> rw [hall] at hstatus <;> cases hstatus

/-- Contributions that bring nothing and leave everything typed may be left out. -/
theorem gathered_append_plain {cs plains : List (Contribution Value.Entries)}
    (hplain : ∀ c ∈ plains, c = .plain fun output => output) {d : Dataset} :
    Gathered (cs ++ plains) d ↔ Gathered cs d := by
  have hissues : plains.flatMap (·.issues) = [] :=
    List.flatMap_eq_nil_iff.mpr fun c hc => by rw [hplain c hc]; rfl
  have hwritten : plains.flatMap (·.written) = [] :=
    List.flatMap_eq_nil_iff.mpr fun c hc => by rw [hplain c hc]; rfl
  have htyped : plains.all (·.typed) = true :=
    List.all_eq_true.mpr fun c hc => by rw [hplain c hc]; rfl
  constructor
  · rintro ⟨hi, hs, hv⟩
    rw [List.flatMap_append, hissues, List.append_nil] at hi
    rw [List.all_append, htyped, Bool.and_true] at hs
    rw [List.flatMap_append, hwritten, List.append_nil] at hv
    exact ⟨hi, hs, hv⟩
  · rintro ⟨hi, hs, hv⟩
    refine ⟨?_, ?_, ?_⟩
    · rw [List.flatMap_append, hissues, List.append_nil, hi]
    · rw [List.all_append, htyped, Bool.and_true, hs]
    · rw [List.flatMap_append, hwritten, List.append_nil]
      exact hv

end Conform
