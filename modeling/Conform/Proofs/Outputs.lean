/-
  Conform/Proofs/Outputs.lean
  ===========================
  **What parts come to.**  A container that accepts a value has run the validators of
  its parts one after another, and nothing else: from the same world `each` of the
  parts comes to something, and the container has gathered these outputs.

  Lists and sets append the outputs.  A map writes them over a copy of the mapping, so
  entries can be lost even if their new keys are pairwise different
  (`map_survivors`).
-/
import Conform.Proofs.Keyable
import Conform.Proofs.Renaming
import Conform.Proofs.Settled
import Conform.Stock.Callable

namespace Conform

open Validator

namespace Validator

variable {σ β : Type}

/-- Goes over parts one after another, as long as each of them comes to something. -/
def each (one : σ → Effect (Option β)) : List σ → Effect (Option (List β))
  | [] => return some []
  | s :: rest => do
    match ← one s with
    | none => return none
    | some b => return (← each one rest).map (b :: ·)

/-- What a value comes to, if it is valid. -/
def output (v : Validator) (ctx : Context) (x : Value) : Effect (Option Value) := do
  let d ← v.apply ctx x
  return if d.status = .success then some d.value else none

/-- What a part of a list or a set comes to. -/
def Part.output (ctx : Context) (p : Part) : Effect (Option Value) :=
  p.validator.output ctx p.value

/-- What a key or value of a mapping is accepted as, by the signal for it. -/
def accept (v : Validator) (ctx : Context) (x : Value) : Effect (Option Value) := do
  let signal ← v.check ctx x
  return signal.accepted? x

/-- What an entry of a mapping is accepted as: first the key, then the value. -/
def acceptEntry (key value : Validator) (ctx : Context) (e : Value × Value) :
    Effect (Option (Value × Value)) := do
  match ← key.accept ctx e.1 with
  | none => return none
  | some newKey => return (← value.accept ctx e.2).map (newKey, ·)

/-- What is to take the place of the key and of the value of an entry, where something is. -/
structure Verdict where
  key : Option Value
  value : Option Value

/-- The entry as it is accepted. -/
def Verdict.final (r : Verdict) (e : Value × Value) : Value × Value :=
  (r.key.getD e.1, r.value.getD e.2)

/-- The entry is accepted as it is. -/
def Verdict.isAsIs (r : Verdict) : Bool := r.key.isNone && r.value.isNone

/-- What is to take the place of a value that is valid, if something is. -/
def Signal.verdict? : Signal → Option (Option Value)
  | .asIs => some none
  | .replaced w => some (some w)
  | .failed _ => none

/-- What is to take the place of a value, if it is valid and something is. -/
def verdict (v : Validator) (ctx : Context) (x : Value) : Effect (Option (Option Value)) := do
  let signal ← v.check ctx x
  return signal.verdict?

/-- What an entry of a mapping is found to be: first the key, then the value. -/
def entryVerdict (key value : Validator) (ctx : Context) (e : Value × Value) :
    Effect (Option Verdict) := do
  match ← key.verdict ctx e.1 with
  | none => return none
  | some newKey => return (← value.verdict ctx e.2).map (⟨newKey, ·⟩)

end Validator

/-- What becomes of the mapping when an entry has been found to be something: nothing if it can stay as
it is. -/
inductive Borrowed.Rewritten (e : Value × Value) (r : Verdict) (b : Borrowed) : Borrowed → Prop where
  | asIs : r.isAsIs = true → Rewritten e r b b
  | replaced {b' : Borrowed} : r.isAsIs = false →
      b.replace e.1 (r.final e).1 (r.final e).2 = (b', none) → Rewritten e r b b'

theorem Validator.Verdict.final_of_isAsIs {r : Verdict} (h : r.isAsIs = true) (e : Value × Value) :
    r.final e = e := by
  obtain ⟨hkey, hvalue⟩ := Bool.and_eq_true_iff.mp h
  rw [final, Option.isNone_iff_eq_none.mp hkey, Option.isNone_iff_eq_none.mp hvalue]
  rfl

section

variable {σ β α : Type}

/-- Outputs of parts, and what is made of them on the way from one value to another. -/
inductive Along (Q : σ → β → α → α → Prop) : List σ → List β → α → α → Prop where
  | done {a : α} : Along Q [] [] a a
  | next {s : σ} {b : β} {rest : List σ} {bs : List β} {a a' a'' : α} : Q s b a a' →
      Along Q rest bs a' a'' → Along Q (s :: rest) (b :: bs) a a''

theorem each_cons {one : σ → Effect (Option β)} {s : σ} {rest : List σ} {b : β} {bs : List β}
    {w v u : World} (hone : one s w = (.ok (some b), v))
    (hrest : each one rest v = (.ok (some bs), u)) :
    each one (s :: rest) w = (.ok (some (b :: bs)), u) := by
  rw [each, bind_of_eq_ok hone]
  exact bind_of_eq_ok hrest

/-- Parts that come to something all do so, one after another. -/
theorem each_cons_eq_ok {one : σ → Effect (Option β)} {s : σ} {rest : List σ} {bs : List β}
    {w u : World} (h : each one (s :: rest) w = (.ok (some bs), u)) :
    ∃ b bs' v, bs = b :: bs' ∧ one s w = (.ok (some b), v) ∧
      each one rest v = (.ok (some bs'), u) := by
  obtain ⟨b?, v, hone, h⟩ := bind_eq_ok h
  cases b? with
  | none => cases h
  | some b =>
    obtain ⟨bs?, v', hrest, h⟩ := bind_eq_ok h
    cases bs? with
    | none => cases h
    | some bs' =>
      cases h
      exact ⟨b, bs', v, rfl, hone, hrest⟩

theorem forall₂_of_each {one : σ → Effect (Option β)} {xs : List σ} {bs : List β} {w u : World}
    (h : each one xs w = (.ok (some bs), u)) :
    List.Forall₂ (fun s b => ∃ v v', one s v = (.ok (some b), v')) xs bs := by
  induction xs generalizing bs w with
  | nil =>
    cases h
    exact .nil
  | cons s rest ih =>
    obtain ⟨b, bs', v, rfl, hone, hrest⟩ := each_cons_eq_ok h
    exact .cons ⟨w, v, hone⟩ (ih hrest)

/-- Steps that go on without issues run each of the parts, from the same world to the same world. -/
theorem each_of_steps {I : Found → Prop} {step : σ → Gathering α → Run (Progress α)}
    {one : σ → Effect (Option β)} {Q : σ → β → α → α → Prop} {xs : List σ}
    (hkeep : ∀ s ∈ xs, ∀ g, Keeps I (step s g))
    (hstep : ∀ s ∈ xs, ∀ g g' w u, I w.resolved → step s g w = (.ok (.going g'), u) →
      g'.dataset.issues = [] → g.dataset.issues = [] ∧
        ∃ b, one s w = (.ok (some b), u) ∧ Q s b g.output g'.output)
    {g g' : Gathering α} {w u : World} (hI : I w.resolved)
    (h : Gathering.steps step xs g w = (.ok (.going g'), u)) (hclean : g'.dataset.issues = []) :
    g.dataset.issues = [] ∧
      ∃ bs, each one xs w = (.ok (some bs), u) ∧ Along Q xs bs g.output g'.output := by
  induction xs generalizing g w with
  | nil =>
    cases h
    exact ⟨hclean, [], rfl, .done⟩
  | cons s rest ih =>
    rw [List.forall_mem_cons] at hkeep hstep
    obtain ⟨p, v, hfirst, hrest⟩ := bind_eq_ok h
    cases p with
    | stopped d => cases hrest
    | going g₁ =>
      have hI' := hkeep.1 g w hI
      rw [hfirst] at hI'
      -- That there are no issues is known of the end, so it is carried back through the steps.
      obtain ⟨hmid, bs, heach, halong⟩ := ih hkeep.2 hstep.2 hI' hrest
      obtain ⟨hstart, b, hone, hq⟩ := hstep.1 g g₁ w v hI hfirst hmid
      exact ⟨hstart, b :: bs, each_cons hone heach, .next hq halong⟩

/-- Puts the outputs of parts one after another. -/
def putAll (put : σ → β → α → α) : List σ → List β → α → α
  | s :: rest, b :: bs, a => putAll put rest bs (put s b a)
  | _, _, a => a

/-- Steps go on without issues exactly when each of the parts comes to something, which is put to what
has been gathered. -/
theorem steps_clean_iff {I : Found → Prop} {step : σ → Gathering α → Run (Progress α)}
    {one : σ → Effect (Option β)} {put : σ → β → α → α} {xs : List σ}
    (hkeep : ∀ s ∈ xs, ∀ g, Keeps I (step s g))
    (hstep : ∀ s ∈ xs, ∀ g g' w u, I w.resolved →
      (step s g w = (.ok (.going g'), u) ∧ g'.dataset.issues = [] ↔
        g.dataset.issues = [] ∧ ∃ b, one s w = (.ok (some b), u) ∧
          g' = { g with output := put s b g.output }))
    {g g' : Gathering α} {w u : World} (hI : I w.resolved) :
    Gathering.steps step xs g w = (.ok (.going g'), u) ∧ g'.dataset.issues = [] ↔
      g.dataset.issues = [] ∧ ∃ bs, each one xs w = (.ok (some bs), u) ∧
        g' = { g with output := putAll put xs bs g.output } := by
  induction xs generalizing g w with
  | nil =>
    constructor
    · rintro ⟨h, hclean⟩
      cases h
      exact ⟨hclean, [], rfl, rfl⟩
    · rintro ⟨hclean, bs, heach, rfl⟩
      cases heach
      exact ⟨rfl, hclean⟩
  | cons s rest ih =>
    rw [List.forall_mem_cons] at hkeep hstep
    have next {g₁ : Gathering α} {v : World} (hfirst : step s g w = (.ok (.going g₁), v)) :=
      ih hkeep.2 hstep.2 (g := g₁) (w := v) (by
        have hI' := hkeep.1 g w hI
        rwa [hfirst] at hI')
    constructor
    · rintro ⟨h, hclean⟩
      obtain ⟨p, v, hfirst, hrest⟩ := bind_eq_ok h
      cases p with
      | stopped d => cases hrest
      | going g₁ =>
        obtain ⟨hmid, bs, heach, rfl⟩ := (next hfirst).mp ⟨hrest, hclean⟩
        obtain ⟨hstart, b, hone, rfl⟩ := (hstep.1 g g₁ w v hI).mp ⟨hfirst, hmid⟩
        exact ⟨hstart, b :: bs, each_cons hone heach, rfl⟩
    · rintro ⟨hclean, bs, heach, rfl⟩
      obtain ⟨b, bs, v, rfl, hone, heach⟩ := each_cons_eq_ok heach
      obtain ⟨hfirst, hmid⟩ := (hstep.1 g _ w v hI).mpr ⟨hclean, b, hone, rfl⟩
      obtain ⟨hrest, hend⟩ := (next hfirst).mpr ⟨hmid, bs, heach, rfl⟩
      refine ⟨?_, hend⟩
      rw [Gathering.steps, bind_of_eq_ok hfirst]
      exact hrest

end

section

variable {ctx : Context} {I : Found → Prop} {R : Runs}

/-- A value comes to something exactly when it is valid. -/
theorem output_eq_some_iff {v : Validator} {x y : Value} {w u : World} :
    v.output ctx x w = (.ok (some y), u) ↔
      ∃ part, v.apply ctx x w = (.ok part, u) ∧ part.status = .success ∧ part.value = y := by
  constructor
  · intro h
    obtain ⟨part, v', hrun, h⟩ := bind_eq_ok h
    obtain ⟨hvalue, rfl⟩ := pure_eq_ok h
    split at hvalue
    · next hstatus => exact ⟨part, hrun, hstatus, Option.some.inj hvalue⟩
    · cases hvalue
  · rintro ⟨part, hrun, hstatus, rfl⟩
    rw [Validator.output, bind_of_eq_ok hrun, if_pos hstatus]
    rfl

/-- A part is taken in without issues exactly when it is valid. -/
theorem receive_clean_iff {α : Type} {part : Dataset} (hpart : part.Settled ctx) (name : Issue → Issue)
    (put : α → α) {g g' : Gathering α} :
    g.receive ctx ⟨part.issues.map name, part.isTyped, put⟩ = .going g' ∧ g'.dataset.issues = [] ↔
      g.dataset.issues = [] ∧ part.status = .success ∧ g' = { g with output := put g.output } := by
  constructor
  · rintro ⟨h, hclean⟩
    obtain rfl := Gathering.eq_of_receive h
    obtain ⟨hstart, hissues⟩ := List.append_eq_nil_iff.mp hclean
    have hstatus := hpart.success.mp (List.map_eq_nil_iff.mp hissues)
    have htyped : part.isTyped = true := by rw [Dataset.isTyped, hstatus]; rfl
    refine ⟨hstart, hstatus, ?_⟩
    rw [htyped, if_pos rfl, Bool.and_true, Dataset.addAll, hissues, List.append_nil]
  · rintro ⟨hclean, hstatus, rfl⟩
    have htyped : part.isTyped = true := by rw [Dataset.isTyped, hstatus]; rfl
    rw [Gathering.receive_of_clean (List.map_eq_nil_iff.mpr (hpart.success.mpr hstatus)), htyped,
      if_pos rfl, Bool.and_true]
    exact ⟨rfl, hclean⟩

/-- A part is run and taken in without issues exactly when its value comes to something. -/
theorem take_clean_iff {α : Type} {s : Schema} {v : Validator} (hv : Follows ctx I R v s)
    (hsettled : ∀ x d, R s x d → d.Settled ctx) {x : Value} (name : Issue → Issue)
    (put : Value → α → α) {g q : Gathering α} {w u : World} (hI : I w.resolved) :
    (within g.dataset (v.apply ctx x) >>= fun part =>
        pure (g.receive ctx ⟨part.issues.map name, part.isTyped, put part.value⟩)) w =
          (.ok (.going q), u) ∧ q.dataset.issues = [] ↔
      g.dataset.issues = [] ∧ ∃ y, v.output ctx x w = (.ok (some y), u) ∧
        q = { g with output := put y g.output } := by
  constructor
  · rintro ⟨h, hclean⟩
    obtain ⟨part, v', hpart, h⟩ := bind_eq_ok h
    have hrun := within_eq_ok hpart
    obtain ⟨htake, rfl⟩ := pure_eq_ok h
    have hpart := hsettled x part (hv.apply ⟨w, v', hI, hrun⟩)
    obtain ⟨hstart, hstatus, rfl⟩ := (receive_clean_iff hpart name _).mp ⟨htake, hclean⟩
    exact ⟨hstart, part.value, output_eq_some_iff.mpr ⟨part, hrun, hstatus, rfl⟩, rfl⟩
  · rintro ⟨hclean, y, houtput, rfl⟩
    obtain ⟨part, hrun, hstatus, rfl⟩ := output_eq_some_iff.mp houtput
    have hpart := hsettled x part (hv.apply ⟨w, u, hI, hrun⟩)
    obtain ⟨htake, hend⟩ := (receive_clean_iff hpart name (put part.value)).mpr ⟨hclean, hstatus, rfl⟩
    rw [bind_of_eq_ok (within_of_eq_ok g.dataset hrun), htake]
    exact ⟨rfl, hend⟩

theorem accept_of_verdict {v : Validator} {x : Value} {newValue : Option Value} {w u : World}
    (h : v.verdict ctx x w = (.ok (some newValue), u)) :
    v.accept ctx x w = (.ok (some (newValue.getD x)), u) := by
  obtain ⟨signal, v', hsignal, h⟩ := bind_eq_ok h
  rw [Validator.accept, bind_of_eq_ok hsignal]
  cases signal <;> cases h <;> rfl

/-- An entry that is found to be something is accepted as that. -/
theorem acceptEntry_of_verdict {key value : Validator} {e : Value × Value} {r : Verdict} {w u : World}
    (h : entryVerdict key value ctx e w = (.ok (some r), u)) :
    acceptEntry key value ctx e w = (.ok (some (r.final e)), u) := by
  obtain ⟨newKey?, v, hkey, h⟩ := bind_eq_ok h
  cases newKey? with
  | none => cases h
  | some newKey =>
    obtain ⟨newValue?, v', hvalue, h⟩ := bind_eq_ok h
    cases newValue? with
    | none => cases h
    | some newValue =>
      cases h
      rw [acceptEntry, bind_of_eq_ok (accept_of_verdict hkey)]
      exact bind_of_eq_ok (accept_of_verdict hvalue)

/-- The check of an entry that is not at fault says what it is found to be. -/
theorem verdict_of_entryCheck {l : Label} {messageKey : String} {key x : Value} {slot : Slot}
    {r : Value × Bool} {w u : World}
    (h : entryCheck l ctx messageKey key x slot w = (.ok (.inr r), u)) :
    ∃ newValue : Option Value, slot.validator.verdict ctx x w = (.ok (some newValue), u) ∧
      r = (newValue.getD x, newValue.isSome) := by
  obtain ⟨signal, v, hsignal, h⟩ := bind_eq_ok h
  unfold Validator.verdict
  rw [bind_of_eq_ok hsignal]
  cases signal with
  | asIs =>
    cases h
    exact ⟨none, rfl, rfl⟩
  | replaced y =>
    cases h
    exact ⟨some y, rfl, rfl⟩
  | failed reason =>
    obtain ⟨i, v', -, h⟩ := bind_eq_ok h
    cases h

/-- An entry that brings no issues is found to be something, and written over if that is not what it
is. -/
theorem rewritten_of_mapStep {l : Label} {key value : Slot} {e : Value × Value}
    {g g' : Gathering Borrowed} {w u : World}
    (h : mapStep l key value ctx e g w = (.ok (.going g'), u)) (hclean : g'.dataset.issues = []) :
    g.dataset.issues = [] ∧ ∃ r, entryVerdict key.validator value.validator ctx e w = (.ok (some r), u) ∧
      Borrowed.Rewritten e r g.output g'.output := by
  -- A refused entry may let the steps go on, but leaves its issue.
  have reported {i : Issue} (h : g.addIssue ctx i = .going g') : False := by
    rw [Gathering.addIssue_eq_receive] at h
    obtain rfl := Gathering.eq_of_receive h
    exact List.append_ne_nil_of_right_ne_nil _ (List.cons_ne_nil i []) hclean
  obtain ⟨checked, v, hchecked, h⟩ := bind_eq_ok h
  cases checked with
  | inl i => exact (reported (pure_eq_ok h).1).elim
  | inr newKey =>
    obtain ⟨checked', v', hchecked', h⟩ := bind_eq_ok h
    cases checked' with
    | inl i => exact (reported (pure_eq_ok h).1).elim
    | inr newValue =>
      obtain ⟨k, hkey, rfl⟩ := verdict_of_entryCheck (within_eq_ok hchecked)
      obtain ⟨y, hvalue, rfl⟩ := verdict_of_entryCheck (within_eq_ok hchecked')
      have hverdict : entryVerdict key.validator value.validator ctx e w = (.ok (some ⟨k, y⟩), v') := by
        rw [entryVerdict, bind_of_eq_ok hkey]
        exact bind_of_eq_ok hvalue
      have hasIs : Verdict.isAsIs ⟨k, y⟩ = !(k.isSome || y.isSome) := by
        cases k <;> cases y <;> rfl
      dsimp only at h
      cases hreplaced : k.isSome || y.isSome with
      | true =>
        rcases hreplace : g.output.replace e.1 (k.getD e.1) (y.getD e.2) with ⟨output, _ | f⟩
        · simp only [hreplaced, hreplace, if_true] at h
          obtain ⟨heq, rfl⟩ := pure_eq_ok h
          cases heq
          exact ⟨hclean, _, hverdict, .replaced (by rw [hasIs, hreplaced]; rfl) hreplace⟩
        · simp only [hreplaced, hreplace, if_true] at h
          cases h
      | false =>
        simp only [hreplaced, Bool.false_eq_true, if_false] at h
        obtain ⟨heq, rfl⟩ := pure_eq_ok h
        cases heq
        exact ⟨hclean, _, hverdict, .asIs (by rw [hasIs, hreplaced]; rfl)⟩

/-- What becomes of the entries when one has been found to be something. -/
theorem Borrowed.Rewritten.renamed {e : Value × Value} {r : Verdict} {b b' : Borrowed}
    (h : Rewritten e r b b') :
    ((r.final e).1 = e.1 ∨ (r.final e).1.isHashable = true) ∧
      Value.Entries.Renamed e (r.final e) b.entries b'.entries ∧
      (r.isAsIs = true ∧ b' = b ∨ r.isAsIs = false ∧ b'.value = .ofMapping b'.entries) := by
  cases h with
  | asIs hasIs =>
    have hfinal := r.final_of_isAsIs hasIs e
    exact ⟨.inl (congrArg Prod.fst hfinal), .same hfinal, .inl ⟨hasIs, rfl⟩⟩
  | replaced hasIs hreplace =>
    obtain ⟨hhashable, hmapping, hcases⟩ := Borrowed.cases_of_replace hreplace
    refine ⟨.inr hhashable, ?_, .inr ⟨hasIs, hmapping⟩⟩
    rcases hcases with ⟨hkeeps, hentries⟩ | ⟨hkeeps, hcontains, hentries⟩
    · rw [hentries]
      exact .written hkeeps
    · rw [hentries]
      exact .moved hkeeps hcontains

theorem regular_of_accept {objects : Nat → Value} {s : Schema} {v : Validator}
    (hv : Follows ctx I R v s)
    (hR : ∀ x d, R s x d → x.Sound objects → d.isTyped = true → d.value.Regular objects)
    {x y : Value} (hx : x.Sound objects) {w u : World} (hI : I w.resolved)
    (h : v.accept ctx x w = (.ok (some y), u)) : y.Regular objects := by
  obtain ⟨signal, u', hsignal, h⟩ := bind_eq_ok h
  have haccepted := (pure_eq_ok h).1
  obtain ⟨d, hrun, ⟨hstatus, rfl⟩ | ⟨-, i, rest, -, rfl⟩⟩ := gives_check hv ⟨w, u', hI, hsignal⟩
  · have hvalue : d.value.Regular objects := by
      refine hR x d hrun hx ?_
      rw [Dataset.isTyped, hstatus]
      rfl
    split at haccepted
    · cases haccepted
      exact hx.regular
    · cases haccepted
      exact hvalue
  · unfold Signal.ofMessage at haccepted
    split at haccepted
    · cases haccepted
      exact hx.regular
    · cases haccepted

end

/-! ### Success -/

theorem reject_ne_ok {ctx : Context} {d e : Dataset} {message : Value} {f : Finding} {w u : World}
    (h : reject ctx d message f w = (.ok e, u)) : e.status ≠ .success := by
  obtain ⟨i, v, -, h⟩ := bind_eq_ok h
  rw [← (pure_eq_ok h).1]
  exact fun hstatus => by cases hstatus

theorem giveUp_ne_ok {d e : Dataset} {w u : World} (h : giveUp d w = (.ok e, u)) :
    e.status ≠ .success := by
  obtain ⟨-, rfl⟩ := Gathering.gives_giveUp (I := fun _ => True) ⟨w, u, trivial, h⟩
  exact fun hstatus => by cases hstatus

theorem ifSized_eq_ok {ctx : Context} {d e : Dataset} {l : Label} {limits : Limits} {size : Nat}
    {next : Run Dataset} {w u : World} (h : ifSized l limits size ctx d next w = (.ok e, u))
    (he : e.status = .success) :
    sizeFinding? l limits d.value size = .ok none ∧ next w = (.ok e, u) := by
  obtain ⟨f?, v, hsize, hnext⟩ := bind_eq_ok h
  have hsize := within_eq_ok hsize
  obtain rfl : w = v := congrArg Prod.snd hsize
  have hsize : sizeFinding? l limits d.value size = .ok f? := congrArg Prod.fst hsize
  cases f? with
  | none => exact ⟨hsize, hnext⟩
  | some f => exact (reject_ne_ok hnext he).elim

/-! ### Lists and sets -/

section

variable {ctx : Context} {I : Found → Prop} {U : Schema → Prop}

theorem world_of_finish {α : Type} {make : α → Except Fault Value} {p : Progress α} {e : Dataset}
    {w u : World} (h : p.finish make w = (.ok e, u)) : w = u := by
  cases p with
  | stopped d => exact congrArg Prod.snd (within_eq_ok h)
  | going g =>
    obtain ⟨output, v, hmake, hfinish⟩ := bind_eq_ok h
    exact (congrArg Prod.snd (within_eq_ok hmake)).trans (congrArg Prod.snd (within_eq_ok hfinish))

end

/-! ### Maps -/

section

variable {ctx : Context} {I : Found → Prop} {U : Schema → Prop} {objects : Nat → Value}

/-- The key of an entry that a map has accepted, and written if it was to be replaced. -/
theorem keyable_of_acceptEntry (hclosed : ctx.Closed I U) (hregular : ctx.Regular objects U)
    {key : Schema} (hkey : U key) {n : Nat} {v : Validator} {e f : Value × Value}
    (he : e.1.Keyable objects) (hf : f.1 = e.1 ∨ f.1.isHashable = true) {w u : World}
    (hI : I w.resolved)
    (h : acceptEntry (key.validatorUpTo n) v ctx e w = (.ok (some f), u)) : f.1.Keyable objects := by
  rcases hf with heq | hhashable
  · exact heq ▸ he
  obtain ⟨newKey?, u', haccept, hrest⟩ := bind_eq_ok h
  cases newKey? with
  | none => cases (pure_eq_ok hrest).1
  | some newKey =>
    obtain ⟨newValue?, u'', -, hrest⟩ := bind_eq_ok hrest
    obtain ⟨newValue, -, rfl⟩ := Option.map_eq_some_iff.mp (pure_eq_ok hrest).1
    have hfollows : Follows ctx I (fun c y d => U c ∧ ctx.Yields I c y d) (key.validatorUpTo n) key := by
      rw [Schema.validatorUpTo_eq]
      exact follows_validator hclosed n hkey
    exact regular_of_accept hfollows (fun x d hd hx htyped =>
      regular_of_yields hclosed hregular hkey hd.2 hx htyped) he.sound hI haccept hhashable

/-- The entries as they are accepted, by what they are found to be. -/
def Validator.finals (entries : Value.Entries) (verdicts : List Verdict) : Value.Entries :=
  List.zipWith (fun e r => r.final e) entries verdicts

/-- What a map does to its copy for an entry, which can be written under the key that it is accepted
under. -/
structure Borrowed.Accepts (objects : Nat → Value) (e : Value × Value) (r : Verdict)
    (b b' : Borrowed) : Prop where
  keyable : (r.final e).1.Keyable objects
  rewritten : Borrowed.Rewritten e r b b'

/-- What is left of the mapping itself: all of it when every entry is accepted as it is, and otherwise a
copy. -/
theorem Borrowed.accepts_all {es : Value.Entries} {rs : List Verdict} {b b' : Borrowed}
    (h : Along (Accepts objects) es rs b b') :
    Value.Entries.RenamedAll es (finals es rs) b.entries b'.entries ∧
      (∀ f ∈ finals es rs, f.1.Keyable objects) ∧
      ((rs.all (·.isAsIs) = true ∧ b' = b) ∨
        (rs.all (·.isAsIs) = false ∧ b'.value = .ofMapping b'.entries)) := by
  induction h with
  | done => exact ⟨.done, List.forall_mem_nil _, .inl ⟨rfl, rfl⟩⟩
  | next hstep _ ih =>
    obtain ⟨hrenamed, hkeyable, hend⟩ := ih
    obtain ⟨-, hfirst, hfirstEnd⟩ := hstep.rewritten.renamed
    refine ⟨.next hfirst hrenamed, List.forall_mem_cons.mpr ⟨hstep.keyable, hkeyable⟩, ?_⟩
    rw [List.all_cons]
    rcases hfirstEnd with ⟨hasIs, rfl⟩ | ⟨hasIs, hmapping⟩
    · rwa [hasIs, Bool.true_and]
    · rw [hasIs, Bool.false_and]
      refine .inr ⟨rfl, ?_⟩
      rcases hend with ⟨-, rfl⟩ | ⟨-, hend⟩
      · exact hmapping
      · exact hend

theorem each_accept {key value : Validator} {es : Value.Entries} {rs : List Verdict} {w u : World}
    (h : each (entryVerdict key value ctx) es w = (.ok (some rs), u)) :
    each (acceptEntry key value ctx) es w = (.ok (some (finals es rs)), u) := by
  induction es generalizing rs w with
  | nil =>
    cases h
    rfl
  | cons e rest ih =>
    obtain ⟨r, rs, v, rfl, hfirst, hrest⟩ := each_cons_eq_ok h
    exact each_cons (acceptEntry_of_verdict hfirst) (ih hrest)

/-- A map that ends with success has found its entries to be something one after another.  It ends with
the mapping itself if each of them can stay as it is, and otherwise with the copy over which they were
written. -/
theorem rewritten_of_map (hclosed : ctx.Closed I U) (hregular : ctx.Regular objects U) {m : Value}
    {limits : Limits} {key value : Schema} (hs : U (.map m limits key value)) {x : Value}
    (hx : x.Sound objects) {entries : Value.Entries} (hentries : x.entries? = some entries)
    {n : Nat} {w u : World} (hI : I w.resolved) {d : Dataset}
    (hrun : (Schema.map m limits key value).validatorUpTo n ctx (.fresh x) w = (.ok d, u))
    (hstatus : d.status = .success) :
    sizeFinding? (Schema.map m limits key value).label limits x entries.length = .ok none ∧
      ∃ verdicts output, d.value.entries? = some output ∧
        each (entryVerdict (key.validatorUpTo n) (value.validatorUpTo n) ctx) entries w =
          (.ok (some verdicts), u) ∧
        Value.Entries.RenamedAll entries (finals entries verdicts) entries output ∧
        (∀ f ∈ finals entries verdicts, f.1.Keyable objects) ∧
        d.value = if verdicts.all (·.isAsIs) then x else .ofMapping output := by
  have hkey : U key := hclosed.part hs (by simp [Schema.children])
  have hvalue : U value := hclosed.part hs (by simp [Schema.children])
  obtain ⟨-, hkeys, -⟩ := hx.entries hentries
  have hkeep := Schema.keeps_validatorUpTo hclosed n hkey
  have hkeep' := Schema.keeps_validatorUpTo hclosed n hvalue
  have haccepts : ∀ e ∈ entries, ∀ g g' w u, I w.resolved →
      mapStep (Schema.map m limits key value).label ⟨key.expects, key.validatorUpTo n⟩
        ⟨value.expects, value.validatorUpTo n⟩ ctx e g w = (.ok (.going g'), u) →
      g'.dataset.issues = [] → g.dataset.issues = [] ∧
        ∃ r, entryVerdict (key.validatorUpTo n) (value.validatorUpTo n) ctx e w = (.ok (some r), u) ∧
          Borrowed.Accepts objects e r g.output g'.output := by
    intro e he g g' w u hI h hclean
    obtain ⟨hstart, r, hverdict, hrewritten⟩ := rewritten_of_mapStep h hclean
    refine ⟨hstart, r, hverdict, ?_, hrewritten⟩
    exact keyable_of_acceptEntry hclosed hregular hkey (hkeys e he) hrewritten.renamed.1 hI
      (acceptEntry_of_verdict hverdict)
  cases x with
  | mapping id kind es =>
    cases hentries
    rw [Schema.validatorUpTo_eq] at hkeep hkeep' hrun haccepts ⊢
    rw [Schema.validatorUpTo_eq n value] at haccepts ⊢
    obtain ⟨hsize, hnext⟩ := ifSized_eq_ok hrun hstatus
    refine ⟨hsize, ?_⟩
    obtain ⟨p, v, hsteps, hend⟩ := bind_eq_ok hnext
    cases p with
    | stopped e => exact (giveUp_ne_ok hend hstatus).elim
    | going g =>
      dsimp only at hend
      split at hend
      · next hclean =>
        obtain ⟨rfl, rfl⟩ := pure_eq_ok hend
        obtain ⟨-, verdicts, heach, halong⟩ := each_of_steps
          (fun e _ => keeps_mapStep hkeep hkeep' _ e) haccepts hI hsteps (List.isEmpty_iff.mp hclean)
        obtain ⟨hrenamed, hkeyable, ⟨hasIs, heq⟩ | ⟨hasIs, hmapping⟩⟩ := Borrowed.accepts_all halong
        · refine ⟨verdicts, g.output.entries, ?_, heach, hrenamed, hkeyable, ?_⟩
          · rw [heq]
            rfl
          · rw [hasIs, heq]
            rfl
        · refine ⟨verdicts, g.output.entries, ?_, heach, hrenamed, hkeyable, ?_⟩
          · exact (congrArg Value.entries? hmapping).trans rfl
          · rw [hasIs]
            exact hmapping
      · exact (giveUp_ne_ok hend hstatus).elim
  | _ => cases hentries

/-- A map that ends with success has accepted its entries one after another, and ends with the copy
over which they were written. -/
theorem renamedAll_of_map (hclosed : ctx.Closed I U) (hregular : ctx.Regular objects U) {m : Value}
    {limits : Limits} {key value : Schema} (hs : U (.map m limits key value)) {x : Value}
    (hx : x.Sound objects) {entries : Value.Entries} (hentries : x.entries? = some entries)
    {n : Nat} {w u : World} (hI : I w.resolved) {d : Dataset}
    (hrun : (Schema.map m limits key value).validatorUpTo n ctx (.fresh x) w = (.ok d, u))
    (hstatus : d.status = .success) :
    sizeFinding? (Schema.map m limits key value).label limits x entries.length = .ok none ∧
      ∃ finals output, d.value.entries? = some output ∧
        each (acceptEntry (key.validatorUpTo n) (value.validatorUpTo n) ctx) entries w =
          (.ok (some finals), u) ∧
        Value.Entries.RenamedAll entries finals entries output ∧
        ∀ f ∈ finals, f.1.Keyable objects := by
  obtain ⟨hsize, verdicts, output, houtput, heach, hrenamed, hkeyable, -⟩ :=
    rewritten_of_map hclosed hregular hs hx hentries hI hrun hstatus
  exact ⟨hsize, finals entries verdicts, output, houtput, each_accept heach, hrenamed, hkeyable⟩

end

/-- What a map comes to, when it accepts all its entries.  It has gone over them once, first the key
and then the value of each; and if the new keys are pairwise different, then the output has one entry
for each of the survivors.  It has one for each of the entries exactly when no new key is the old key
of an entry that comes later. -/
theorem map_survivors {ctx : Context} {objects : Nat → Value} {m : Value} {limits : Limits}
    {key value : Schema} {x : Value} {entries : Value.Entries} {w u : World} {d : Dataset}
    (hx : x.Sound objects) (hentries : x.entries? = some entries)
    (hregular : ctx.Regular objects (ctx.Reaches w.resolved (.map m limits key value)))
    (hrun : (Schema.map m limits key value).run ctx (.fresh x) w = (.ok d, u))
    (hstatus : d.status = .success) :
    let n := ctx.bound (.map m limits key value) x
    ∃ finals output : Value.Entries, d.value.entries? = some output ∧ output.Apart ∧
      each (acceptEntry (key.validatorUpTo n) (value.validatorUpTo n) ctx) entries w =
        (.ok (some finals), u) ∧
      (Value.Entries.Apart finals → Value.Entries.Matched (Value.Entries.survivors entries finals) output ∧
        (output.length = entries.length ↔ Value.Entries.Clear entries finals) ∧
        (Value.Entries.Clear entries finals → Value.Entries.Matched finals output)) := by
  intro n
  obtain ⟨hapart, hkeys, -⟩ := hx.entries hentries
  have hkeyed := Value.Entries.Keyed.of_forall hapart hkeys
  obtain ⟨-, finals, output, houtput, heach, hrenamed, hfinals⟩ := renamedAll_of_map
    (ctx.closed_reaches w.resolved _) hregular .start hx hentries (ctx.leads_reaches w.resolved _)
    hrun hstatus
  have hlength := hrenamed.length_eq
  refine ⟨finals, output, houtput, ?_, heach, fun hdifferent => ?_⟩
  · exact (Value.Entries.keyed_of_renamedAll hkeyed hfinals hrenamed).1.apart
  · have hmatched := Value.Entries.matched_survivors hkeyed (.of_forall hdifferent hfinals) hrenamed
    refine ⟨hmatched, ?_, fun hclear => ?_⟩
    · rw [hmatched.length_eq, hlength, ← Value.Entries.survivors_eq_iff hlength]
      exact (Value.Entries.survivors_sublist entries finals).length_eq
    · rwa [(Value.Entries.survivors_eq_iff hlength).mpr hclear] at hmatched

/-- One key is given another letter, and nothing comes later under that letter. -/
theorem map_survivors_swap :
    let c : Callable := Stock.function "swap_ab"
    let a : Value := .scalar .shared (.str .base "a")
    let b : Value := .scalar .shared (.str .base "b")
    let ctx : Context :=
      ⟨.default, [], [], [], ⟨fun _ arguments => Stock.onValue Stock.swapLetters arguments, 0⟩⟩
    let key : Schema := .overwrite .null (.scalar .shared (.callable c)) (.primitive .null .string)
    ∃ d u finals output, (Schema.map .null .none key (.anything .null false)).run ctx
        (.fresh (.ofMapping [(b, .int 1)])) .empty = (.ok d, u) ∧ d.status = .success ∧
      d.value.entries? = some output ∧ Value.Entries.Clear [(b, .int 1)] finals ∧
      Value.Entries.Matched finals output ∧ a.keyEq b = false := by
  intro c a b ctx key
  let input : Value.Entries := [(b, .int 1)]
  let s : Schema := .map .null .none key (.anything .null false)
  have hb : b.Keyable fun _ => .null :=
    Target.keyable_of_accepts (t := .string) rfl fun _ h => by cases h
  have hone : (Value.int 1).Keyable fun _ => .null :=
    Target.keyable_of_accepts (t := .number) rfl fun _ h => by cases h
  have hsound : (Value.ofMapping input).Sound fun _ => .null :=
    .mapping (List.pairwise_singleton _ _) (List.forall_mem_singleton.mpr hb)
      (List.forall_mem_singleton.mpr hone.sound)
  have hparts : ∀ t, ctx.Reaches [] s t → t = s ∨ t = key ∨ t = .primitive .null .string ∨
      t = .anything .null false := by
    intro t ht
    refine ht.closed (Q := fun t => t = s ∨ t = key ∨ t = .primitive .null .string ∨
      t = .anything .null false) (.inl rfl) (fun t c ht hc => ?_) fun m id getter r ht => ?_
    · rcases ht with rfl | rfl | rfl | rfl <;>
        simp only [Schema.children, List.mem_cons, List.not_mem_nil, or_false, s, key] at hc ⊢ <;> tauto
    · simp [s, key] at ht
  have hregular : ctx.Regular (fun _ => .null) (ctx.Reaches [] s) := by
    refine ⟨fun ht => ?_, fun {m transform inner} ht x y hx hy => ?_⟩
    · simpa [s, key] using hparts _ ht
    · obtain ⟨rfl, rfl, rfl⟩ : m = .null ∧ transform = .scalar .shared (.callable c) ∧
          inner = .primitive .null .string := by simpa [s, key] using hparts _ ht
      obtain ⟨w, w', -, hrun⟩ := hy
      have hswap : Stock.swapLetters x = .ok y := congrArg Prod.fst hrun
      have hletter (l : String) : (Value.scalar .shared (.str .base l)).Regular fun _ => .null :=
        fun _ => Target.keyable_of_accepts (t := .string) rfl fun _ h => by cases h
      unfold Stock.swapLetters at hswap
      split at hswap
      · cases hswap
      · split at hswap
        · cases hswap
          exact hletter "b"
        · cases hswap
          exact hletter "a"
        · cases hswap
          exact hx
  let u : World := ⟨[.callable c [.value b]], []⟩
  have hrun : s.run ctx (.fresh (.ofMapping input)) .empty =
      (.ok (.valid (.ofMapping [(a, .int 1)])), u) := rfl
  obtain ⟨finals, output, houtput, -, heach, hsurvivors⟩ :=
    map_survivors hsound rfl hregular hrun rfl
  have hfinals : (Except.ok (some [(a, Value.int 1)]), u) = (Except.ok (some finals), u) := heach
  cases hfinals
  have hclear : Value.Entries.Clear input [(a, .int 1)] := ⟨rfl, trivial⟩
  have hmatched := (hsurvivors (List.pairwise_singleton _ _)).2.2 hclear
  exact ⟨_, u, _, output, hrun, rfl, houtput, hclear, hmatched, rfl⟩

/-- If two keys are swapped, an entry is lost: it has been written under the old key of the other, and
is removed when the other is written. -/
theorem map_loses_entry :
    let c : Callable := Stock.function "swap_ab"
    let a : Value := .scalar .shared (.str .base "a")
    let b : Value := .scalar .shared (.str .base "b")
    let ctx : Context :=
      ⟨.default, [], [], [], ⟨fun _ arguments => Stock.onValue Stock.swapLetters arguments, 0⟩⟩
    let key : Schema := .overwrite .null (.scalar .shared (.callable c)) (.primitive .null .string)
    let value : Schema := .anything .null false
    let u : World := ⟨[.callable c [.value b], .callable c [.value a]], []⟩
    (Schema.map .null .none key value).run ctx
        (.fresh (.ofMapping [(a, .int 1), (b, .int 2)])) .empty =
      (.ok (.valid (.ofMapping [(a, .int 2)])), u) ∧
    each (acceptEntry (key.validatorUpTo 1) (value.validatorUpTo 1) ctx) [(a, .int 1), (b, .int 2)]
      .empty = (.ok (some [(b, .int 1), (a, .int 2)]), u) ∧ b.keyEq a = false := by
  refine ⟨?_, ?_, ?_⟩
  · rfl
  · rfl
  · rfl

end Conform
