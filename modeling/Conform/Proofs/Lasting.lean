/-
  Conform/Proofs/Lasting.lean
  ===========================
  **What lasts.**  A value that a schema has come to is valid under it, as it is
  (`Schema.Lasts`).  Here this is shown of each kind of schema, given that it is so
  for the parts.

  Not every value lasts: a map writes over its entries, and one under a key that is
  not equal to itself is put in another place.  And more has to be known of a value
  than that it lasts: an object leaves out what is no value, so no value must have
  been made of one; and a map writes nothing if it has come to the same object, so
  that must be the same value.
-/
import Conform.Proofs.Completeness
import Conform.Proofs.Copying
import Conform.Proofs.Keyable
import Conform.Proofs.Acceptance

namespace Conform

open Validator

/-! ### Runs without issues -/

namespace Gathering

variable {α σ : Type} {ctx : Context} {brings : σ → Contribution α → Prop} {xs : List σ}

/-- A path that ends without issues writes what its parts have to write. -/
theorem puts_of_path {W : σ → (α → α) → Prop}
    (hput : ∀ s ∈ xs, ∀ c, brings s c → c.issues = [] → ∃ put, W s put ∧ c = .plain put)
    {g g' : Gathering α} (h : Path ctx brings xs g (.going g')) (hclean : g'.dataset.issues = []) :
    ∃ puts, List.Forall₂ W xs puts ∧
      g'.output = puts.foldl (fun output put => put output) g.output := by
  generalize hp : Progress.going g' = p at h
  induction h with
  | done =>
    cases hp
    exact ⟨[], .nil, rfl⟩
  | @next s rest c g g₁ p hc hreceive hpath ih =>
    rw [List.forall_mem_cons] at hput
    obtain rfl := eq_of_receive hreceive
    have hissues : c.issues = [] := by
      have hnext := (clean_of_path (hp ▸ hpath) hclean).1
      exact (List.append_eq_nil_iff.mp hnext).2
    obtain ⟨put, hw, rfl⟩ := hput.1 c hc hissues
    obtain ⟨puts, hputs, houtput⟩ := ih hput.2 hp
    exact ⟨put :: puts, .cons hw hputs, houtput⟩
  | stop => cases hp

variable (ctx) in
/-- Parts without issues make a path, along which they write what they have to write. -/
theorem path_of_puts {puts : List (α → α)}
    (h : List.Forall₂ (fun s put => brings s (.plain put)) xs puts) (g : Gathering α) :
    Path ctx brings xs g
      (.going { g with output := puts.foldl (fun output put => put output) g.output }) := by
  induction h generalizing g with
  | nil => exact .done
  | @cons s put rest puts hput _ ih =>
    refine .next hput (receive_of_clean rfl) ?_
    have hrest := ih ⟨g.dataset, put g.output, g.typed⟩
    simpa [Contribution.plain] using hrest

theorem foldl_appends {β : Type} (f : σ → List β) (xs : List σ) (output : List β) :
    (xs.map fun s output => output ++ f s).foldl (fun output put => put output) output =
      output ++ xs.flatMap f := by
  induction xs generalizing output with
  | nil => simp
  | cons s rest ih => simp [ih]

/-- A container that ends valid has gathered no issues, and is made of what it has gathered. -/
theorem going_of_finished {make : α → Except Fault Value} {p : Progress α} {y : Value}
    (h : Finished make p (.valid y)) :
    ∃ g, p = .going g ∧ g.dataset.issues = [] ∧ make g.output = .ok y := by
  generalize hd : Dataset.valid y = d at h
  cases h with
  | stopped => cases hd
  | @valid g output hissues hmake =>
    obtain rfl : y = output := congrArg Dataset.value hd
    exact ⟨g, rfl, hissues, hmake⟩
  | partly => cases hd
  | failed => cases hd

/-- A container of which all parts are valid ends valid. -/
theorem finished_of_clean {make : α → Except Fault Value} {x y : Value} {output : α}
    (h : make output = .ok y) :
    Finished make (.going ⟨.fresh x, output, true⟩) (.valid y) :=
  .valid (g := ⟨.fresh x, output, true⟩) rfl h

end Gathering

/-! ### Values that are one object -/

/-- What was made is one object with equal values only. -/
theorem Value.eq_of_made {a b : Value} (h : a.IsMade ∨ b.IsMade) (hsame : a.same b = true) :
    a = b := by
  rcases h with ha | hb
  · exact @eq_of_same (fun _ => b) a b (fun i hi => (ha i hi).elim) (fun _ _ => rfl) hsame
  · exact @eq_of_same (fun _ => a) a b (fun _ _ => rfl) (fun i hi => (hb i hi).elim) hsame

theorem Value.isMade_null : Value.null.IsMade := fun _ h => by cases h

theorem Value.isMade_undefined : Value.undefined.IsMade := fun _ h => by cases h

theorem Value.isMade_ofMapping (entries : Value.Entries) : (Value.ofMapping entries).IsMade :=
  fun _ h => by cases h

/-- No value that can be a key is the one object for it. -/
theorem Value.Regular.eq_null {objects : Nat → Value} {v : Value} (hv : v.Regular objects)
    (hnull : v.isNull = true) : v = .null := by
  cases v with
  | scalar id s =>
    cases s with
    | null =>
      cases hv rfl with
      | scalar _ hsingle _ => exact hsingle.1 rfl
    | _ => cases hnull
  | _ => cases hnull

theorem Value.Regular.eq_undefined {objects : Nat → Value} {v : Value} (hv : v.Regular objects)
    (hundefined : v.isUndefined = true) : v = .undefined := by
  cases v with
  | scalar id s =>
    cases s with
    | undefined =>
      cases hv rfl with
      | scalar _ hsingle _ => exact hsingle.2 rfl
    | _ => cases hundefined
  | _ => cases hundefined

/-- A regular value that can be accepted without the schema is so as it is. -/
theorem Wrapping.eq_of_spared? {objects : Nat → Value} {w : Wrapping} {y z : Value}
    (hy : y.Regular objects) (hz : w.spared? y = some z) : z = y := by
  rcases (spared?_again hz).2 with heq | rfl
  · exact heq
  · cases w with
    | nullable =>
      dsimp only [spared?] at hz
      split at hz
      · next hnull => exact (hy.eq_null hnull).symm
      · cases hz
    | optional | nullish =>
      dsimp only [spared?] at hz
      split at hz
      · exact (Option.some.inj hz).symm
      · cases hz
    | readonly | default => cases hz

/-! ### Schemas that come to lasting values -/

/-- Schemas that do not change what they have come to: no value is set in the place of a valid one,
none is asked of several schemas, no key has to be there, and no size is too small when keys or
members become one. -/
def Schema.Repeats (objects : Nat → Value) : Schema → Prop
  | .overwrite .. | .union .. | .intersection .. => False
  | .object _ _ _ _ absent entries =>
    absent ≠ .reject ∧ (entries.map (·.1)).Pairwise (fun k l => k.keyEq l = false) ∧
      ∀ e ∈ entries, e.1.Keyable objects
  | .set _ limits _ | .map _ limits _ _ => limits.least = none
  | _ => True

/-- A value that a schema has come to from another. -/
structure Schema.Lasts (ctx : Context) (s : Schema) (x y : Value) : Prop where
  again : y.Whole → ctx.Answers s y (.valid y)
  undefined : y.isUndefined = true → x.isUndefined = true
  same : y.same x = true → y = x

/-- Schemas with all their parts, none of which is a reference, that do not change what they have
come to.  What they make something of values with is steady, and what defaults supply is sound.
Messages are steady, or they are never taken for the signal of a valid value. -/
structure Context.Repeats (ctx : Context) (objects : Nat → Value) (U : Schema → Prop) : Prop where
  part {s c : Schema} : U s → c ∈ s.children → U c
  lazy {s : Schema} : U s → s.isLazy = false
  repeats {s : Schema} : U s → s.Repeats objects
  functions {s : Schema} : U s → ∀ f ∈ s.functions, ctx.Steady f
  messages : (∀ s, U s → ctx.Steady s.message) ∧ ctx.Steady ctx.config.message ∨
    (∀ s, U s → ctx.Speaks s.message) ∧ ctx.Speaks ctx.config.message
  supplies {m given : Value} {inner : Schema} : U (.wrapper m (.default given) inner) →
    ∀ y, Gives (fun _ => True) (supply ctx given) y → y.Sound objects

/-- Runs of schemas that come to lasting values, if they come to valid ones. -/
abbrev Context.Lasting (ctx : Context) (objects : Nat → Value) (U : Schema → Prop) : Runs :=
  fun s x d => U s ∧ ctx.Yields (fun _ => True) s x d ∧
    (x.Sound objects → ∀ y, d = .valid y → s.Lasts ctx x y)

theorem Dataset.valid_ne_violate {d : Dataset} {y : Value} {stop : Bool} {i : Issue} :
    Dataset.valid y ≠ d.violate stop i := by
  intro h
  have hissues := congrArg Dataset.issues h
  rw [Dataset.issues_violate] at hissues
  cases (List.append_eq_nil_iff.mp hissues.symm).2

theorem Wrapping.isUndefined_of_default? {w : Wrapping} {x given : Value}
    (h : w.default? x = some given) : x.isUndefined = true := by
  obtain rfl := eq_default_of_default? h
  dsimp only [default?] at h
  split at h
  · assumption
  · cases h

theorem Dataset.Settled.eq_valid {ctx : Context} {d : Dataset} (h : d.Settled ctx)
    (hd : d.status = .success) : d = .valid d.value := by
  have hissues := h.success.mpr hd
  obtain ⟨status, value, issues⟩ := d
  cases hd
  cases hissues
  rfl

section

variable {ctx : Context} {objects : Nat → Value} {U : Schema → Prop} (h : ctx.Repeats objects U)

include h

namespace Context.Repeats

theorem closed : ctx.Closed (fun _ => True) U where
  part hs hc := h.part hs hc
  keeps _ _ _ := trivial
  behind hs := by cases h.lazy hs

theorem regular : ctx.Regular objects U where
  supplies hs := h.supplies hs
  transforms hs := (h.repeats hs).elim

theorem steadies (hmessages : ∀ s, U s → ctx.Steady s.message)
    (hconfig : ctx.Steady ctx.config.message) : ctx.Steadies U where
  part hs hc := h.part hs hc
  lazy hs := h.lazy hs
  members {s} hs := by
    have hrepeats := h.repeats hs
    cases s with
    | intersection => exact hrepeats.elim
    | _ => trivial
  calls {s} hs := by
    have hcallees : ∀ f ∈ s.callees, f = s.message ∨ f ∈ s.functions := by
      unfold Schema.callees
      split <;> simp [Schema.functions, Schema.message]
    intro f hf
    rcases hcallees f hf with rfl | hf
    · exact hmessages s hs
    · exact h.functions hs f hf
  config := hconfig

theorem eq_valid {s : Schema} (hs : U s) {x : Value} {d : Dataset}
    (hd : ctx.Yields (fun _ => True) s x d) (hstatus : d.status = .success) : d = .valid d.value :=
  (settled_of_yields h.closed hs hd).eq_valid hstatus

theorem valid_of_clean {s : Schema} (hs : U s) {x : Value} {d : Dataset}
    (hd : ctx.Yields (fun _ => True) s x d) (hissues : d.issues = []) : d = .valid d.value :=
  h.eq_valid hs hd ((settled_of_yields h.closed hs hd).success.mp hissues)

/-- What is valid by a rule is what the schema returns. -/
theorem answers_of_outcome {s : Schema} (hs : U s) (hmap : s.isMap = false) {x y : Value}
    (houtcome : s.Outcome ctx (fun _ => True) ctx.Answers x (.valid y)) :
    ctx.Answers s x (.valid y) := by
  unfold Context.Answers
  rw [Schema.validatorUpTo_eq]
  refine returns_of_outcome (h.functions hs) (h.lazy hs) hmap (fun c _ y e he => ?_) (.inl rfl)
    houtcome
  rwa [← Schema.validatorUpTo_eq]

/-! ### Schemas without parts, and wrappers -/

theorem lasts_of_judgement {s : Schema} (hs : U s) {j : Judgement} (hj : s.judgement? = some j)
    {x y : Value} (hverdict : j ctx.typeNames x = .ok (.inl y)) : s.Lasts ctx x y := by
  have hmap : s.isMap = false := by
    cases s <;> first | rfl | cases hj
  have again (hy : j ctx.typeNames y = .ok (.inl y)) : ctx.Answers s y (.valid y) :=
    h.answers_of_outcome hs hmap (.accepted hj hy)
  rcases Schema.cases_of_judgement hj hverdict with rfl | ⟨m, t, rfl, hcoerce⟩
  · exact ⟨fun _ => again hverdict, fun hy => hy, fun _ => rfl⟩
  · obtain ⟨haccepts, hagain, hmade⟩ := Target.coerce?_again hcoerce
    obtain ⟨id, scalar, rfl, -, -, hdefined⟩ := Target.scalar_of_accepts haccepts
    refine ⟨fun _ => again ?_, fun hy => ?_, fun hsame => ?_⟩
    · cases hj
      simp only [hagain]
      rfl
    · cases hdefined.symm.trans hy
    · rcases hmade with heq | hmade
      · exact heq
      · exact Value.eq_of_made (.inl hmade) hsame

theorem lasts_of_constraint {m : Value} {check : Check} {name : String} {abort : Bool}
    {inner : Schema} (hs : U (.constraint m check name abort inner)) {x y : Value}
    (hinner : inner.Lasts ctx x y) (hpassed : Gives (fun _ => True) (check.test ctx y) true) :
    (Schema.constraint m check name abort inner).Lasts ctx x y where
  again hy := h.answers_of_outcome hs rfl (.passed (hinner.again hy) rfl hpassed)
  undefined := hinner.undefined
  same := hinner.same

theorem lasts_of_spared {m : Value} {w : Wrapping} {inner : Schema} (hs : U (.wrapper m w inner))
    {x y : Value} (hspared : w.spared? x = some y) : (Schema.wrapper m w inner).Lasts ctx x y := by
  obtain ⟨hagain, hy⟩ := Wrapping.spared?_again hspared
  refine ⟨fun _ => h.answers_of_outcome hs rfl (.spared hagain), ?_, ?_⟩
  · rcases hy with rfl | rfl
    · exact fun hundefined => hundefined
    · exact fun hundefined => by cases hundefined
  · rcases hy with rfl | rfl
    · exact fun _ => rfl
    · exact Value.eq_of_made (.inl Value.isMade_null)

theorem lasts_of_wrapped {m : Value} {w : Wrapping} {inner : Schema} (hs : U (.wrapper m w inner))
    {x y : Value} (hdefault : w.default? x = none) (hregular : y.Regular objects)
    (hinner : inner.Lasts ctx x y) : (Schema.wrapper m w inner).Lasts ctx x y := by
  refine ⟨fun hy => h.answers_of_outcome hs rfl ?_, hinner.undefined, hinner.same⟩
  cases hspared : w.spared? y with
  | some z =>
    obtain rfl := Wrapping.eq_of_spared? hregular hspared
    exact .spared hspared
  | none =>
    cases hagain : w.default? y with
    | none => exact .wrapped hspared hagain (hinner.again hy)
    | some given =>
      have hundefined := hinner.undefined (Wrapping.isUndefined_of_default? hagain)
      obtain rfl := Wrapping.eq_default_of_default? hagain
      rw [show (Wrapping.default given).default? x = some given from if_pos hundefined] at hdefault
      cases hdefault

/-- A value that was supplied lasts; no value, if that was supplied, is supplied again. -/
theorem lasts_of_supplied {m given : Value} {inner : Schema}
    (hs : U (.wrapper m (.default given) inner)) {x v y : Value} (hx : x.Sound objects)
    (hundefined : x.isUndefined = true) (hsupply : Gives (fun _ => True) (supply ctx given) v)
    (hregular : y.Regular objects) (hinner : inner.Lasts ctx v y) :
    (Schema.wrapper m (.default given) inner).Lasts ctx x y := by
  refine ⟨fun hy => h.answers_of_outcome hs rfl ?_, fun _ => hundefined, fun hsame => ?_⟩
  · cases hnothing : y.isUndefined with
    | true =>
      have hdefault : (Wrapping.default given).default? y = some given := if_pos hnothing
      have hvy : v = y := by
        rw [(h.supplies hs v hsupply).eq_undefined (hinner.undefined hnothing),
          hregular.eq_undefined hnothing]
      exact .supplied hdefault (hvy ▸ hsupply) (hinner.again hy)
    | false =>
      have hdefault : (Wrapping.default given).default? y = none := by
        dsimp only [Wrapping.default?]
        rw [hnothing]
        rfl
      exact .wrapped rfl hdefault (hinner.again hy)
  · rw [hx.eq_undefined hundefined] at hsame ⊢
    exact Value.eq_of_made (.inr Value.isMade_undefined) hsame

end Context.Repeats

end

end Conform
