/-
  Conform/Proofs/Validity.lean
  ============================
  **Valid values.**  A schema validates a value, as itself or as another, when its run ends
  in success with that (`Context.Validates`).

  A schema without parts does so exactly when its judgement gives the value; else its run is
  the report of one finding (`Context.Refuses`).  A constraint does so exactly when the schema
  inside it does and the test is passed.
-/
import Conform.Proofs.Chain
import Conform.Proofs.Outputs
import Conform.Proofs.Wording

namespace Conform

open Validator

/-- From a world, the run of a schema on a value ends in success with a value. -/
def Context.Validates (ctx : Context) (w : World) (s : Schema) (x y : Value) : Prop :=
  ∃ u, s.run ctx (.fresh x) w = (.ok (.valid y), u)

/-- The run of a schema on a value is nothing but the report of one finding: that the value does not
have the expected shape. -/
def Context.Refuses (ctx : Context) (s : Schema) (x : Value) : Prop :=
  ∃ f : Finding, f.kind = "schema" ∧ f.input = x ∧ f.messageKey ∈ Message.shapeKeys ∧
    s.run ctx (.fresh x) = reject ctx (.fresh x) s.message f

/-- From a world, the run of a schema on a value ends in failure with one issue: that this value
does not have the expected shape. -/
def Context.Reports (ctx : Context) (w : World) (s : Schema) (x : Value) : Prop :=
  ∃ i u, i.kind = "schema" ∧ i.input = x ∧ i.path = [] ∧
    s.run ctx (.fresh x) w = (.ok (.invalid x i []), u)

section

variable {ctx : Context} {s : Schema} {x y : Value} {w : World}

/-! ### Refused values -/

/-- Where no message comes from elsewhere, a refused value has one issue. -/
theorem Context.Refuses.reports (h : ctx.Refuses s x) (hctx : ctx.Plain)
    (hmessage : s.message.isOptionalText = true) (w : World) : ctx.Reports w s x := by
  obtain ⟨f, hkind, hinput, hkey, hrun⟩ := h
  obtain ⟨i, u, hi, -⟩ := returns_report hctx hmessage (Finding.worded_of_shape hkey) w
  obtain ⟨message, -, rfl⟩ := gives_report (I := fun _ => True) ⟨w, u, trivial, hi⟩
  refine ⟨f.toIssue message, u, hkind, hinput, rfl, ?_⟩
  rw [hrun]
  exact bind_of_eq_ok (within_of_eq_ok _ hi)

/-! ### Schemas without parts -/

theorem Schema.run_of_judgement {j : Judgement} (hs : s.judgement? = some j) (d : Dataset) :
    s.run ctx d = judge s.message j ctx d := by
  rw [Schema.run, Schema.validatorUpTo_eq, Schema.validator_eq_judge hs]

/-- A conversion validates a value as what it is, if it is of the target already, or comes to. -/
theorem validates_coerce_iff {m : Value} {t : Target} :
    ctx.Validates w (.coerce m t) x y ↔ t.coerce? x = .ok (some y) := by
  unfold Context.Validates
  rw [Schema.run_of_judgement rfl]
  unfold judge
  dsimp only [Dataset.fresh]
  rcases t.coerce? x with f | _ | z
  · refine iff_of_false ?_ nofun
    rintro ⟨u, hrun⟩
    cases hrun
  · refine iff_of_false ?_ nofun
    rintro ⟨u, hrun⟩
    exact reject_ne_ok hrun rfl
  · constructor
    · rintro ⟨u, hrun⟩
      cases hrun
      rfl
    · rintro ⟨⟩
      exact ⟨w, rfl⟩

/-- A value that cannot be converted is refused. -/
theorem refuses_coerce {m : Value} {t : Target} (h : t.coerce? x = .ok none)
    (hkey : t.messageKey x ∈ Message.shapeKeys) : ctx.Refuses (.coerce m t) x := by
  refine ⟨{ (Schema.coerce m t).label.finding ctx.typeNames x with messageKey := t.messageKey x },
    rfl, rfl, hkey, ?_⟩
  rw [Schema.run_of_judgement rfl]
  unfold judge
  dsimp only [Dataset.fresh]
  rw [h]
  rfl

theorem validates_primitive_iff {m : Value} {p : Primitive} :
    ctx.Validates w (.primitive m p) x y ↔ p.accepts x = true ∧ x = y := by
  constructor
  · rintro ⟨u, hrun⟩
    rw [Schema.run_of_judgement rfl] at hrun
    unfold judge acceptIf at hrun
    dsimp only [Dataset.fresh] at hrun
    cases haccepts : p.accepts x with
    | true =>
      rw [haccepts] at hrun
      cases hrun
      exact ⟨rfl, rfl⟩
    | false =>
      rw [haccepts] at hrun
      exact (reject_ne_ok hrun rfl).elim
  · rintro ⟨haccepts, rfl⟩
    refine ⟨w, ?_⟩
    rw [Schema.run_of_judgement rfl]
    unfold judge acceptIf
    dsimp only [Dataset.fresh]
    rw [haccepts]
    rfl

/-! ### Constraints -/

/-- The run of a constraint on a value ends with one issue, the constraint's own, about what the
schema inside it has made of the value. -/
def Link.Violated (l : Link) (ctx : Context) (w : World) (s : Schema) (x y : Value) : Prop :=
  ∃ i u, i.kind = "validation" ∧ i.type = l.check.type ∧ i.input = y ∧ i.path = [] ∧
    (l.around s).run ctx (.fresh x) w = (.ok ((Dataset.valid y).violate (l.stops ctx) i), u)

/-- A constraint comes to the verdict of its test where the schema inside it validates the value. -/
theorem Link.run_around (l : Link) {u t : World} {e : Dataset}
    (hrun : s.run ctx (.fresh x) w = (.ok (.valid y), u)) :
    (l.around s).run ctx (.fresh x) w = (.ok e, t) ↔
      ∃ i?, l.Judges ctx y u i? t ∧
        e = i?.elim (.valid y) ((Dataset.valid y).violate (l.stops ctx)) := by
  have hinner : s.validatorUpTo (ctx.bound s x) ctx (.fresh x) w = (.ok (.valid y), u) := hrun
  have hchain : (l.around s).run ctx (.fresh x) =
      l.validator (s.validatorUpTo (ctx.bound s x)) ctx (.fresh x) := Schema.run_chain ctx s [l] x
  rw [hchain, Link.validator_eq_ok_iff hinner rfl]
  rfl

/-- A constraint whose test calls nothing validates what passes it, as it is. -/
theorem Link.validates_around_iff (l : Link) {passes : Bool} {z : Value}
    (hs : ctx.Validates w s x y) (htest : l.check.test ctx y = pure passes) :
    ctx.Validates w (l.around s) x z ↔ z = y ∧ passes = true := by
  obtain ⟨u, hrun⟩ := hs
  constructor
  · rintro ⟨t, hvalid⟩
    obtain ⟨i?, hjudges, hdataset⟩ := (l.run_around hrun).mp hvalid
    cases hjudges with
    | passed h =>
      rw [htest] at h
      exact ⟨congrArg Dataset.value hdataset, (pure_eq_ok h).1⟩
    | failed =>
      have hissues := congrArg Dataset.issues hdataset
      rw [Option.elim_some, Dataset.issues_violate] at hissues
      cases hissues
  · rintro ⟨rfl, rfl⟩
    exact ⟨u, (l.run_around hrun).mpr ⟨none, .passed (by rw [htest]; rfl), rfl⟩⟩

/-- Where no message comes from elsewhere, what fails a test that calls nothing has one issue, if
it can be shown. -/
theorem Link.violated (l : Link) (hctx : ctx.Plain) (hmessage : l.message.isOptionalText = true)
    (hplain : ∀ p, l.check ≠ .refine p) (hname : l.check.name = .ok l.name)
    (hobject : l.check.requirement.isObject = false)
    (horder : ∀ relation limit, l.check ≠ .order relation limit)
    (hreceived : ∃ t, l.check.received ctx.typeNames y = .ok t)
    (hs : ctx.Validates w s x y) (htest : l.check.test ctx y = pure false) :
    l.Violated ctx w s x y := by
  obtain ⟨u, hrun⟩ := hs
  obtain ⟨f, hf, hkind, htype, hinput⟩ : ∃ f, l.check.finding ctx.typeNames l.name y = .ok f ∧
      f.kind = "validation" ∧ f.type = l.check.type ∧ f.input = y := by
    obtain ⟨received, hreceived⟩ := hreceived
    unfold Check.finding
    rw [hreceived]
    exact ⟨_, rfl, rfl, rfl, rfl⟩
  have hworded := Check.worded hplain hname hobject (fun r limit h => (horder r limit h).elim) hf
  obtain ⟨i, t, hi, -⟩ := returns_report hctx hmessage hworded u
  obtain ⟨message, -, rfl⟩ := gives_report (I := fun _ => True) ⟨u, t, trivial, hi⟩
  have hissue : l.issue ctx y u = (.ok (f.toIssue message), t) := by
    unfold issue
    rw [hf]
    exact hi
  exact ⟨f.toIssue message, t, hkind, htype, hinput, rfl,
    (l.run_around hrun).mpr ⟨_, .failed (by rw [htest]; rfl) hissue, rfl⟩⟩

end

end Conform
