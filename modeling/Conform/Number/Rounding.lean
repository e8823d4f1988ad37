/-
  Conform/Number/Rounding.lean
  ============================
  **Rounding quotients** to the nearest integer, a half to the even
  neighbour, and the decimal digits of a number with their place values.
-/
namespace Conform.Number

/-- `num / den` rounded to the nearest natural number, a half to the even neighbour. -/
def roundHalfEven (num den : Nat) : Nat :=
  let q := num / den
  let r := num % den
  if 2 * r < den then q
  else if den < 2 * r then q + 1
  else if q % 2 = 0 then q else q + 1

/-- What a quotient is rounded to is at most a half away from it. -/
theorem roundHalfEven_near (num : Nat) {den : Nat} (h : 0 < den) :
    2 * num ≤ 2 * (den * roundHalfEven num den) + den ∧
      2 * (den * roundHalfEven num den) ≤ 2 * num + den := by
  have hn := Nat.div_add_mod num den
  have hr := Nat.mod_lt num h
  have hs : den * (num / den + 1) = den * (num / den) + den := Nat.mul_succ _ _
  unfold roundHalfEven
  simp only []
  split
  · omega
  · split
    · omega
    · split <;> omega

/-- `num / den` rounded to the nearest integer, a half to the even neighbour. -/
def roundHalfEvenInt (num : Int) (den : Nat) : Int :=
  let q := num / den
  let r := num % den
  if 2 * r < den then q
  else if den < 2 * r then q + 1
  else if q % 2 = 0 then q else q + 1

/-- What an integer quotient is rounded to is at most a half away from it. -/
theorem roundHalfEvenInt_near (num : Int) {den : Nat} (h : 0 < den) :
    2 * num ≤ 2 * (den * roundHalfEvenInt num den) + den ∧
      2 * (den * roundHalfEvenInt num den) ≤ 2 * num + den := by
  have hpos : (0 : Int) < den := Int.natCast_pos.mpr h
  have hn := Int.mul_ediv_add_emod num den
  have hr := Int.emod_nonneg num (Int.ne_of_gt hpos)
  have hr' := Int.emod_lt_of_pos num hpos
  have hs : (den : Int) * (num / den + 1) = den * (num / den) + den := by
    rw [Int.mul_add, Int.mul_one]
  unfold roundHalfEvenInt
  simp only []
  split
  · omega
  · split
    · omega
    · split <;> omega

/-- The nearest integer to a rational, a half to the even neighbour. -/
def roundRat (x : Rat) : Int :=
  roundHalfEvenInt x.num x.den

/-- `10 ^ k`, the place value of the digit with `k` digits behind it. -/
def tenPow (k : Nat) : Nat :=
  Nat.pow 10 k

@[simp] theorem tenPow_zero : tenPow 0 = 1 := rfl

theorem tenPow_succ (k : Nat) : tenPow (k + 1) = tenPow k * 10 := rfl

theorem tenPow_pos (k : Nat) : 0 < tenPow k := by
  induction k with
  | zero => exact Nat.one_pos
  | succ k ih => rw [tenPow_succ]; omega

/-- The decimal digits of a number as characters, the most significant first. -/
def digits (n : Nat) : List Char :=
  Nat.toDigits 10 n

/-- How many decimal digits a number has; zero has one. -/
def digitCount (n : Nat) : Nat :=
  (digits n).length

/-- The number that decimal digits stand for. -/
def ofDigits (ds : List Nat) : Nat :=
  ds.foldl (fun n d => n * 10 + d) 0

/-- One more digit counts once, and the digits before it ten times as much. -/
theorem ofDigits_concat (ds : List Nat) (d : Nat) :
    ofDigits (ds ++ [d]) = ofDigits ds * 10 + d := by
  simp [ofDigits]

end Conform.Number
