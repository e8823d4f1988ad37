/-
  Conform/Proofs/RoundTrip.lean
  =============================
  **Round trips.**  What a schema has come to, it comes to again from there
  (`Engine.parse_again`).

  The induction is on the schema: each kind of schema comes to lasting values if its
  parts do.  It goes through for values of which all mappings have keys that are equal
  to themselves.  Others are changed by a map that writes a value anew under such a
  key, since what is removed and written comes last.
-/
import Conform.Proofs.Wholeness
import Conform.Proofs.Protocol

namespace Conform

open Validator

section

variable {ctx : Context} {objects : Nat → Value} {U : Schema → Prop} (h : ctx.Repeats objects U)

include h

theorem Context.Repeats.lasts_of_gives (n : Nat) {s : Schema} (hs : U s) {x : Value} (hx : x.Sound objects)
    {y : Value} (hrun : Gives (fun _ => True) (s.validatorUpTo n ctx (.fresh x)) (.valid y)) :
    s.Lasts ctx x y := by
  -- the room for references is the same for the parts, since there are no references
  induction s using Schema.childInduction generalizing x y with
  | step s ih =>
  have hfollows : ∀ c ∈ s.children,
      Follows ctx (fun _ => True) (ctx.Lasting objects U) (c.validatorUpTo n) c := by
    intro c hc
    have hu : U c := h.part hs hc
    refine ⟨Schema.keeps_validatorUpTo h.closed n hu, fun x d hd => ⟨hu, ⟨n, hd⟩, fun hx y hy => ?_⟩⟩
    subst hy
    exact ih c hc hu hx hd
  have hregular : y.Regular objects :=
    regular_of_yields h.closed h.regular hs ⟨n, hrun⟩ hx rfl
  have houtcome : s.Outcome ctx (fun _ => True) (ctx.Lasting objects U) x (.valid y) := by
    rw [Schema.validatorUpTo_eq] at hrun
    refine Schema.outcome_of_validator (fun c hc => ?_) (fun _ _ _ hlazy => ?_)
      (fun _ _ _ hlazy => ?_) hrun
    · rw [← Schema.validatorUpTo_eq]
      exact hfollows c hc
    · cases h.lazy (hlazy ▸ hs)
    · cases h.lazy (hlazy ▸ hs)
  have hrepeats := h.repeats hs
  generalize hd : Dataset.valid y = d at houtcome
  cases houtcome with
  | accepted hj hverdict =>
    cases hd
    exact h.lasts_of_judgement hs hj hverdict
  | rejected | objected | noneOf => cases hd
  | untyped _ htyped =>
    subst hd
    cases htyped
  | passed hinner _ hpassed =>
    subst hd
    exact h.lasts_of_constraint hs (hinner.2.2 hx y rfl) hpassed
  | violated => exact (Dataset.valid_ne_violate hd).elim
  | spared hspared =>
    cases hd
    exact h.lasts_of_spared hs hspared
  | wrapped _ hdefault hinner =>
    exact h.lasts_of_wrapped hs hdefault hregular (hinner.2.2 hx y hd.symm)
  | supplied hdefault hsupply hinner =>
    obtain rfl := Wrapping.eq_default_of_default? hdefault
    exact h.lasts_of_supplied hs hx (Wrapping.isUndefined_of_default? hdefault) hsupply hregular
      (hinner.2.2 (h.supplies hs _ hsupply) y hd.symm)
  | overwritten | untouched | first | intersection => exact hrepeats.elim
  | behind => cases h.lazy hs
  | sequence hobjection hlayout hp hfinished =>
    subst hd
    exact h.lasts_of_sequence hs hx hobjection hlayout hp hfinished
  | object hinput hp hfinished =>
    subst hd
    exact h.lasts_of_object hs hx hinput hp hfinished
  | map =>
    exact h.lasts_of_map hs hx (hfollows _ (by simp [Schema.children]))
      (hfollows _ (by simp [Schema.children])) hrun
  | record hinput hp hfinished =>
    subst hd
    exact h.lasts_of_record hs hx hinput hp hfinished

end

/-- The parts of a schema that repeats, and has no references, come to valid values again. -/
theorem Context.Repeats.returns_run {ctx : Context} {objects : Nat → Value} {s : Schema}
    (h : ctx.Repeats objects (·.Part s)) {x y : Value} (hx : x.Sound objects)
    (hrun : ctx.Yields (fun _ => True) s x (.valid y)) (hy : y.Whole) :
    Returns (s.run ctx (.fresh y)) (· = .valid y) := by
  obtain ⟨n, hrun⟩ := hrun
  have hagain := (h.lasts_of_gives n .self hx hrun).again hy
  have heq (n : Nat) : s.validatorUpTo n = s.validatorUpTo 0 :=
    (Schema.validatorUpTo_congr (fun _ _ => h.part) (fun _ => h.lazy) .self n _).trans
      (Schema.validatorUpTo_eq 0 s).symm
  unfold Schema.run
  rw [heq]
  exact hagain

namespace Engine

variable {ctx : Context} {schemas : Nat → Schema} {s : Schema} {st : State}

end Engine

end Conform
