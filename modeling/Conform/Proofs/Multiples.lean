/-
  Conform/Proofs/Multiples.lean
  =============================
  **Multiples.**  A finite number is a multiple of another when some integer multiple of the other
  misses it by no more than the tolerance.

  The test looks at one integer only, the one nearest to the quotient.  No other leaves a smaller
  remainder (`remainder_le`), so if any integer will do then this one does.  Two integers are
  tested by division instead; the tolerance is less than one, so that this says the same.
-/
import Conform.Schema.Build
import Conform.Proofs.Validity
import Mathlib.Algebra.Order.Ring.Abs
import Mathlib.Algebra.Order.Field.Rat
import Mathlib.Tactic.Linarith

namespace Conform

open Number Schema

/-! ### The nearest integer -/

/-- A rational is at most a half away from the integer that it is rounded to. -/
theorem abs_sub_roundRat_le (x : Rat) : |x - roundRat x| ≤ 1 / 2 := by
  have hden : (0 : Rat) < x.den := Nat.cast_pos.mpr x.den_pos
  have hnum : x * x.den = x.num := Rat.mul_den_eq_num x
  obtain ⟨hlower, hupper⟩ := roundHalfEvenInt_near x.num x.den_pos
  have hlower : 2 * (x.num : Rat) ≤ 2 * (x.den * roundRat x) + x.den := by exact_mod_cast hlower
  have hupper : 2 * (x.den * (roundRat x : Rat)) ≤ 2 * x.num + x.den := by exact_mod_cast hupper
  rw [← hnum] at hlower hupper
  rw [abs_le]
  constructor
  · refine le_of_mul_le_mul_right ?_ hden
    linarith
  · refine le_of_mul_le_mul_right ?_ hden
    linarith

/-- No integer is nearer to a rational than the one that it is rounded to. -/
theorem abs_sub_roundRat_le_abs_sub (x : Rat) (k : Int) : |x - roundRat x| ≤ |x - k| := by
  by_cases hk : roundRat x = k
  · rw [hk]
  · have hapart : (1 : Rat) ≤ |(roundRat x : Rat) - k| := by
      have h : (1 : Int) ≤ |roundRat x - k| := Int.one_le_abs (sub_ne_zero.mpr hk)
      exact_mod_cast h
    have hnear := abs_sub_roundRat_le x
    have htriangle : |(roundRat x : Rat) - k| ≤ |roundRat x - x| + |x - k| := abs_sub_le _ x _
    rw [abs_sub_comm (roundRat x : Rat) x] at htriangle
    linarith

/-- No multiple of a divisor leaves a smaller remainder than the one nearest to the quotient. -/
theorem remainder_le (p : Rat) {q : Rat} (hq : q ≠ 0) (k : Int) :
    |p - roundRat (p / q) * q| ≤ |p - k * q| := by
  have factor (j : Rat) : |p - j * q| = |p / q - j| * |q| := by
    rw [← abs_mul, sub_mul, div_mul_cancel₀ p hq]
  rw [factor, factor]
  exact mul_le_mul_of_nonneg_right (abs_sub_roundRat_le_abs_sub _ k) (abs_nonneg q)

/-! ### The test -/

theorem tolerance_eq : tolerance = mkRat 4835703278458517 4835703278458516698824704 := by
  decide

theorem tolerance_lt_one : tolerance < 1 := by
  rw [tolerance_eq]
  decide

theorem tolerance_nonneg : 0 ≤ tolerance := by
  rw [tolerance_eq]
  decide

/-- An integer multiple of a divisor misses a number by no more than the tolerance. -/
def IsNearMultiple (p q : Rat) : Prop := ∃ k : Int, |p - k * q| ≤ tolerance

/-- Among integers the tolerance makes no difference. -/
theorem isNearMultiple_int_iff (n d : Int) : IsNearMultiple n d ↔ d ∣ n := by
  constructor
  · rintro ⟨k, hk⟩
    have hmiss : |((n - k * d : Int) : Rat)| < 1 := by
      push_cast
      exact hk.trans_lt tolerance_lt_one
    have hzero : n - k * d = 0 := Int.abs_lt_one_iff.mp (by exact_mod_cast hmiss)
    exact ⟨k, by rw [mul_comm]; exact sub_eq_zero.mp hzero⟩
  · rintro ⟨k, rfl⟩
    refine ⟨k, ?_⟩
    rw [Int.cast_mul, mul_comm, sub_self, abs_zero]
    exact tolerance_nonneg

/-- Nor do the signs. -/
theorem IsNearMultiple.of_abs_eq {p q p' q' : Rat} (hp : |p'| = |p|) (hq : |q'| = |q|)
    (h : IsNearMultiple p q) : IsNearMultiple p' q' := by
  obtain ⟨k, hk⟩ := h
  -- the integer keeps or changes its sign with the number and with the divisor
  rcases abs_eq_abs.mp hp with rfl | rfl <;> rcases abs_eq_abs.mp hq with rfl | rfl
  · exact ⟨k, hk⟩
  · refine ⟨-k, ?_⟩
    push_cast
    rwa [neg_mul_neg]
  · refine ⟨-k, ?_⟩
    push_cast
    rwa [neg_mul, ← neg_sub', abs_neg]
  · refine ⟨k, ?_⟩
    rwa [mul_neg, ← neg_sub', abs_neg]

theorem isNearMultiple_congr {p q p' q' : Rat} (hp : |p'| = |p|) (hq : |q'| = |q|) :
    IsNearMultiple p' q' ↔ IsNearMultiple p q :=
  ⟨.of_abs_eq hp.symm hq.symm, .of_abs_eq hp hq⟩

section

variable {v r : Value} {p q : Rat}

/-- The test of two finite numbers, by division or by rounding. -/
theorem isMultiple_iff (hv : v.toRat? = some p) (hr : r.toRat? = some q) (hq : q ≠ 0) :
    isMultiple v r = true ↔ IsNearMultiple p q := by
  have byRounding : decide (p - roundRat (p / q) * q ≤ tolerance ∧
      -tolerance ≤ p - roundRat (p / q) * q) = true ↔ IsNearMultiple p q := by
    rw [decide_eq_true_iff, and_comm, ← abs_le]
    exact ⟨fun h => ⟨_, h⟩, fun ⟨k, hk⟩ => (remainder_le p hq k).trans hk⟩
  unfold isMultiple
  cases hn : v.toInt? with
  | none =>
    simp only [hv, hr]
    exact byRounding
  | some n =>
    cases hd : r.toInt? with
    | none =>
      simp only [hv, hr]
      exact byRounding
    | some d =>
      unfold Value.toRat? at hv hr
      rw [hn] at hv
      rw [hd] at hr
      cases hv
      cases hr
      dsimp only
      rw [decide_eq_true_iff, isNearMultiple_int_iff]
      exact Int.dvd_iff_emod_eq_zero.symm

/-- The values that are no finite numbers. -/
theorem toRat?_eq_none_iff :
    v.toRat? = none ↔ v.isNumber = false ∨ ∃ negative, v.toFloat? = some (.infinity negative) := by
  have hfloat (x : Binary64) :
      x.toRat? = none ↔ x.isNaN = true ∨ ∃ negative, x = .infinity negative := by
    cases x <;> simp [Binary64.toRat?, Binary64.isNaN]
  unfold Value.toRat? Value.isNumber Value.isBigInt
  cases hint : v.toInt? with
  | some n =>
    have hnone : v.toFloat? = none := by
      cases v with
      | scalar id s => cases s <;> first | rfl | cases hint
      | _ => rfl
    simp [hnone]
  | none =>
    cases v.toFloat? with
    | none => simp
    | some x => simp [hfloat]

/-- What passes is a finite number and a multiple up to the tolerance. -/
theorem passes_multipleOf_iff (hr : r.toRat? = some q) (hq : q ≠ 0) :
    (v.isNumber && isMultiple v r) = true ↔ ∃ p, v.toRat? = some p ∧ IsNearMultiple p q := by
  cases hv : v.toRat? with
  | none =>
    have hfails : isMultiple v r = false := by
      unfold isMultiple
      split
      · next hn _ => simp [Value.toRat?, hn] at hv
      · simp [hv]
    simp [hfails]
  | some p =>
    have hnumber : v.isNumber = true := by
      refine (Bool.not_eq_false _).mp fun h => ?_
      cases hv.symm.trans (toRat?_eq_none_iff.mpr (.inl h))
    simp [hnumber, isMultiple_iff hv hr hq]

/-! ### Building -/

theorem isDivisor_iff : isDivisor r = true ↔ ∃ q, r.toRat? = some q ∧ q ≠ 0 := by
  unfold isDivisor Value.toRat?
  cases r.toInt? with
  | some n => simp
  | none =>
    cases r.toFloat? with
    | none => simp
    | some x =>
      cases x with
      | nan => simp [Binary64.toRat?]
      | infinity negative => simp [Binary64.toRat?]
      | finite negative m e =>
        have hpow (k : Int) : Binary64.twoPow k ≠ 0 := (Nat.pow_pos Nat.two_pos).ne'
        have hzero : (Binary64.finite negative m e).isZero = true ↔ m = 0 := by
          cases m <;> simp [Binary64.isZero]
        simp only [Binary64.toRat?, Binary64.quotient, Option.isSome_some, Bool.true_and,
          Bool.not_eq_true', Option.bind_some, Option.some.injEq, exists_eq_left', ne_eq,
          Rat.mkRat_eq_zero (hpow _), ← Bool.not_eq_true, hzero]
        cases negative <;> simp [hpow]

/-- Multiples can be asked for of a finite number other than zero, and of nothing else. -/
theorem multipleOfCheck_eq_ok_iff {c : Check} :
    multipleOfCheck r = .ok c ↔ c = .multipleOf r ∧ ∃ q, r.toRat? = some q ∧ q ≠ 0 := by
  rw [← isDivisor_iff]
  unfold multipleOfCheck
  split
  · next h => simp [h, eq_comm]
  · next h =>
    simp only [h, and_false, iff_false, Bool.false_eq_true]
    unfold refuse
    cases r.quoted <;> exact fun h => by cases h

/-- A finite number has a text unless it is an integer with too many digits. -/
theorem legible_of_toRat? (hr : r.toRat? = some q) :
    r.Legible ↔ ∀ n, r.toInt? = some n → n.natAbs < tenPow digitLimit := by
  rw [Value.legible_iff]
  unfold Value.toRat? at hr
  cases r with
  | scalar id a =>
    rw [Value.every_scalar]
    cases a with
    | int flavor n => simp [Scalar.IsShort, Value.toInt?]
    | float flavor x => simp [Scalar.IsShort, Value.toInt?]
    | member m =>
      rcases m with ⟨e, name, value⟩
      cases value <;> cases hnumeric : e.numeric <;>
        simp_all [Scalar.IsShort, Value.toInt?, Value.toFloat?]
    | _ => simp [Value.toInt?, Value.toFloat?] at hr
  | _ => simp [Value.toInt?, Value.toFloat?] at hr

/-- The name of a test for multiples has the text of the divisor in it. -/
theorem name_multipleOf (hr : r.toRat? = some q) :
    (Check.multipleOf r).name =
      r.quoted.map fun t => (Check.multipleOf r).type ++ "(" ++ t ++ ")" := by
  have hnull : r.isNull = false := by
    cases r with
    | scalar id a => cases a <;> first | rfl | cases hr
    | _ => rfl
  unfold Check.name
  simp only [Check.requirement, hnull, Bool.false_eq_true, if_false]

/-- A test for multiples is built around every schema, unless it has no name. -/
theorem exists_build_multiple_iff {message : Value} {abort : Bool} {s : Schema}
    (hr : r.toRat? = some q) (hq : q ≠ 0) :
    (∃ t, (multipleOfCheck r >>= fun c => buildConstraint message c abort (.schema s)) = .ok t) ↔
      checkMessage message = .ok () ∧ ∀ n, r.toInt? = some n → n.natAbs < tenPow digitLimit := by
  have hcheck : multipleOfCheck r = .ok (.multipleOf r) :=
    multipleOfCheck_eq_ok_iff.mpr ⟨rfl, q, hr, hq⟩
  rw [hcheck, ← legible_of_toRat? hr, Value.Legible]
  change (∃ t, ((checkMessage message >>= fun _ => .ok s) >>= fun s =>
    (Check.multipleOf r).name >>= fun name =>
      .ok (Schema.constraint message (.multipleOf r) name abort s)) = .ok t) ↔ _
  rw [name_multipleOf hr]
  rcases checkMessage message with f | ⟨⟩ <;> rcases r.quoted with f' | text <;>
    simp [bind, Except.bind, Except.map]

/-- A divisor without a text leaves the test without a name. -/
theorem build_multipleOf_of_long {message : Value} {abort : Bool} {s : Schema}
    (hr : r.toRat? = some q) (hlong : ¬r.Legible) (hmessage : checkMessage message = .ok ()) :
    buildConstraint message (.multipleOf r) abort (.schema s) = .error .digitLimit := by
  have hquoted : r.quoted = .error .digitLimit := by
    rcases Value.quoted_shown r with ⟨-, hshown⟩ | ⟨-, hquoted⟩
    · exact (hlong hshown).elim
    · exact hquoted
  unfold buildConstraint checkWrapped
  rw [name_multipleOf hr, hquoted, hmessage]
  rfl

/-! ### What is validated -/

variable {ctx : Context} {w : World} {s : Schema} {x z : Value} {l : Link}

/-- A constraint for multiples validates what comes of the schema inside it if that is a finite
number and a multiple up to the tolerance. -/
theorem validates_multiple_iff (hcheck : l.check = .multipleOf r) (hr : r.toRat? = some q)
    (hq : q ≠ 0) (hs : ctx.Validates w s x v) :
    ctx.Validates w (l.around s) x z ↔ z = v ∧ ∃ p, v.toRat? = some p ∧ IsNearMultiple p q := by
  rw [← passes_multipleOf_iff hr hq]
  refine l.validates_around_iff hs ?_
  rw [hcheck]
  rfl

/-- Where no message comes from elsewhere, what is no multiple has one issue, if it can be shown. -/
theorem violated_multiple (hcheck : l.check = .multipleOf r) (hr : r.toRat? = some q) (hq : q ≠ 0)
    (hname : l.check.name = .ok l.name) (hctx : ctx.Plain)
    (hmessage : l.message.isOptionalText = true) (hs : ctx.Validates w s x v) (hv : v.Legible)
    (hfails : ¬ctx.Validates w (l.around s) x v) : l.Violated ctx w s x v := by
  rw [validates_multiple_iff hcheck hr hq hs, ← passes_multipleOf_iff hr hq] at hfails
  have hobject : r.isObject = false := by
    cases r with
    | scalar id a => cases a <;> first | rfl | cases hr
    | _ => rfl
  refine l.violated hctx hmessage ?_ hname ?_ ?_ ?_ hs ?_ <;> rw [hcheck]
  · exact fun p h => by cases h
  · exact hobject
  · exact fun relation limit h => by cases h
  · exact hv
  · exact congrArg pure (by simpa using hfails)

/-- **Multiples are exact up to the tolerance.**  Let a constraint ask for multiples of a finite
number other than zero, and let the schema inside it validate a value.

1. The constraint validates that value exactly if it is a finite number that some integer multiple
   misses by no more than the tolerance, and as itself.
2. The tolerance is the exact value of the double that `1e-9` stands for.
3. For two integers this is divisibility.
4. It depends on the exact magnitudes of the two numbers only: neither on their signs, nor on
   whether a whole number is given as an integer or as a double.
5. What is no number, "not a number" and the infinities are not validated; where no message comes
   from elsewhere, each value that is not validated has one issue, if it can be shown.
6. Such a constraint is built for every finite number other than zero whose text has no more
   digits than a text may have. -/
theorem multiples_validated (hcheck : l.check = .multipleOf r) (hr : r.toRat? = some q) (hq : q ≠ 0)
    (hs : ctx.Validates w s x v) :
    (∀ z, ctx.Validates w (l.around s) x z ↔
      z = v ∧ ∃ p, v.toRat? = some p ∧ ∃ k : Int, |p - k * q| ≤ tolerance) ∧
    (parseFloat? "1e-9".toList).bind Binary64.toRat? = some tolerance ∧
    (∀ n d : Int, v.toInt? = some n → r.toInt? = some d →
      (ctx.Validates w (l.around s) x v ↔ d ∣ n)) ∧
    (∀ {l' : Link} {s' : Schema} {x' v' r' : Value} {p p' q' : Rat},
      l'.check = .multipleOf r' → ctx.Validates w s' x' v' → v.toRat? = some p →
      v'.toRat? = some p' → r'.toRat? = some q' → |p'| = |p| → |q'| = |q| →
      (ctx.Validates w (l'.around s') x' v' ↔ ctx.Validates w (l.around s) x v)) ∧
    ((v.isNumber = false ∨ ∃ negative, v.toFloat? = some (.infinity negative)) →
      ∀ z, ¬ctx.Validates w (l.around s) x z) ∧
    (ctx.Plain → l.message.isOptionalText = true → l.check.name = .ok l.name → v.Legible →
      ¬ctx.Validates w (l.around s) x v → l.Violated ctx w s x v) ∧
    ((∃ t, (multipleOfCheck r >>= fun c =>
        buildConstraint l.message c l.abort (.schema s)) = .ok t) ↔
      checkMessage l.message = .ok () ∧
        ∀ d, r.toInt? = some d → d.natAbs < tenPow digitLimit) := by
  have hiff (z : Value) := validates_multiple_iff (z := z) hcheck hr hq hs
  refine ⟨hiff, by decide, ?_, ?_, ?_, ?_, ?_⟩
  · intro n d hn hd
    have hv : v.toRat? = some (n : Rat) := by rw [Value.toRat?, hn]
    have hd : (d : Rat) = q := by
      rw [Value.toRat?, hd] at hr
      exact Option.some.inj hr
    rw [hiff, hv, ← hd]
    simp [isNearMultiple_int_iff]
  · intro l' s' x' v' r' p p' q' hcheck' hs' hv hv' hr' hp hq'
    have hne : q' ≠ 0 := fun h => hq (abs_eq_zero.mp (by rw [← hq', h, abs_zero]))
    rw [validates_multiple_iff hcheck' hr' hne hs', hiff, hv, hv']
    simp [isNearMultiple_congr hp hq']
  · intro hnone z h
    obtain ⟨-, p, hv, -⟩ := (hiff z).mp h
    cases hv.symm.trans (toRat?_eq_none_iff.mpr hnone)
  · exact fun hctx hmessage hname hv => violated_multiple hcheck hr hq hname hctx hmessage hs hv
  · exact exists_build_multiple_iff hr hq

end

/-- 0.3 is a multiple of 0.1, though not three times the double 0.1. -/
theorem multiples_validated_tenth :
    let ctx : Context := ⟨.default, [], [], [], ⟨fun _ _ _ => .error .callable, 0⟩⟩
    let tenth : Value := .scalar .shared (.float .base (.finite false 7205759403792794 (-56)))
    let x : Value := .scalar .shared (.float .base (.finite false 5404319552844595 (-54)))
    let l : Link := ⟨.null, .multipleOf tenth, "multiple_of(0.1)", false⟩
    ∃ p q : Rat, x.toRat? = some p ∧ tenth.toRat? = some q ∧ q ≠ 0 ∧ p ≠ 3 * q ∧
      ctx.Validates .empty (.primitive .null .number) x x ∧
      ctx.Validates .empty (l.around (.primitive .null .number)) x x := by
  intro ctx tenth x l
  have hs : ctx.Validates .empty (.primitive .null .number) x x := ⟨.empty, rfl⟩
  obtain ⟨p, hp⟩ : ∃ p : Rat, x.toRat? = some p ∧ p = mkRat 5404319552844595 18014398509481984 :=
    ⟨_, rfl, by decide⟩
  obtain ⟨q, hq⟩ : ∃ q : Rat, tenth.toRat? = some q ∧
      q = mkRat 3602879701896397 36028797018963968 :=
    ⟨_, rfl, by decide⟩
  obtain ⟨hp, rfl⟩ := hp
  obtain ⟨hq, rfl⟩ := hq
  refine ⟨_, _, hp, hq, by decide, by norm_num, hs, ?_⟩
  refine ((multiples_validated rfl hq (by decide) hs).1 x).mpr ⟨rfl, _, hp, 3, ?_⟩
  rw [tolerance_eq, abs_le]
  exact ⟨by norm_num, by norm_num⟩

/-- Zero is a multiple of `10 ^ 4300`, a finite number other than zero, but no such constraint is
built: the divisor has too many digits for the name of the constraint. -/
theorem multiples_unbuilt :
    let r : Value := .int (tenPow digitLimit)
    (∃ q : Rat, r.toRat? = some q ∧ q ≠ 0 ∧ IsNearMultiple 0 q) ∧
    multipleOfCheck r = .ok (.multipleOf r) ∧
    buildConstraint .null (.multipleOf r) false (.schema (.primitive .null .number)) =
      .error .digitLimit := by
  have hsize : tenPow digitLimit ≤ ((tenPow digitLimit : Nat) : Int).natAbs :=
    Nat.le_of_eq (Int.natAbs_natCast _).symm
  have hpos : ((tenPow digitLimit : Nat) : Int) ≠ 0 :=
    Int.natCast_ne_zero.mpr (tenPow_pos digitLimit).ne'
  -- the number itself must not be computed
  generalize ((tenPow digitLimit : Nat) : Int) = n at hsize hpos
  have hr : (Value.int n).toRat? = some (n : Rat) := rfl
  have hq : (n : Rat) ≠ 0 := Int.cast_ne_zero.mpr hpos
  have hlong : ¬(Value.int n).Legible := fun h =>
    Nat.not_lt.mpr hsize ((legible_of_toRat? hr).mp h n rfl)
  refine ⟨⟨n, hr, hq, 0, ?_⟩, multipleOfCheck_eq_ok_iff.mpr ⟨rfl, n, hr, hq⟩,
    build_multipleOf_of_long hr hlong rfl⟩
  simpa using tolerance_nonneg

end Conform
