/-
  Conform/Proofs/Numerals.lean
  ============================
  **The texts of integers.**  An integer is written as a numeral, perhaps with a sign in front of it
  and white space around it (`IsIntegerText`); a numeral is made of decimal digits with single low
  lines between them (`IsNumeral`).

  Such a text is read as the integer that it stands for unless it has too many digits, and as the
  nearest double however many it has.  What an integer is written as is such a text, so it is read
  as that integer again.
-/
import Conform.Number.Numeral
import Conform.Proofs.Data
import Mathlib.Data.List.DropRight

namespace Conform

open Number Text

/-! ### The grammar -/

/-- Decimal digits of any script with single low lines between them, and their values. -/
inductive IsNumeral : List Char → List Nat → Prop where
  | last {c : Char} {d : Nat} : digitValue? c = some d → IsNumeral [c] [d]
  | next {c : Char} {d : Nat} {s : List Char} {ds : List Nat} :
      digitValue? c = some d → IsNumeral s ds → IsNumeral (c :: s) (d :: ds)
  | spaced {c : Char} {d : Nat} {s : List Char} {ds : List Nat} :
      digitValue? c = some d → IsNumeral s ds → IsNumeral (c :: '_' :: s) (d :: ds)

/-- A sign or none; whether it is a minus. -/
inductive IsSign : List Char → Bool → Prop where
  | none : IsSign [] false
  | plus : IsSign ['+'] false
  | minus : IsSign ['-'] true

/-- The text of an integer: white space around a numeral that may have a sign. -/
inductive IsIntegerText : List Char → Bool → List Nat → Prop where
  | intro {before sign numeral after : List Char} {negative : Bool} {ds : List Nat} :
      (∀ c ∈ before, isBlank c = true) → IsSign sign negative → IsNumeral numeral ds →
      (∀ c ∈ after, isBlank c = true) →
      IsIntegerText (before ++ (sign ++ numeral) ++ after) negative ds

/-- The integer with a sign and decimal digits. -/
def integerOf (negative : Bool) (ds : List Nat) : Int :=
  if negative then -(ofDigits ds : Int) else ofDigits ds

section

variable {s : List Char} {ds : List Nat} {c : Char} {d : Nat} {negative : Bool}

theorem IsNumeral.digits_ne_nil (h : IsNumeral s ds) : ds ≠ [] := by
  cases h <;> exact List.cons_ne_nil _ _

/-- A numeral starts with a digit. -/
theorem IsNumeral.exists_cons (h : IsNumeral s ds) :
    ∃ c rest d, s = c :: rest ∧ digitValue? c = some d := by
  cases h with
  | last hc | next hc | spaced hc => exact ⟨_, _, _, rfl, hc⟩

/-- A numeral ends with a digit. -/
theorem IsNumeral.exists_append (h : IsNumeral s ds) :
    ∃ init c d, s = init ++ [c] ∧ digitValue? c = some d := by
  induction h with
  | last hc => exact ⟨[], _, _, rfl, hc⟩
  | @next c _ _ _ _ _ ih =>
    obtain ⟨init, c', d', rfl, hc'⟩ := ih
    exact ⟨c :: init, c', d', rfl, hc'⟩
  | @spaced c _ _ _ _ _ ih =>
    obtain ⟨init, c', d', rfl, hc'⟩ := ih
    exact ⟨c :: '_' :: init, c', d', rfl, hc'⟩

/-- Digits without low lines are a numeral. -/
theorem IsNumeral.of_map_eq (h : s.map digitValue? = ds.map some) (hs : s ≠ []) :
    IsNumeral s ds := by
  induction s generalizing ds with
  | nil => exact (hs rfl).elim
  | cons c rest ih =>
    obtain ⟨d, ds, rfl⟩ : ∃ d ds', ds = d :: ds' := by
      cases ds with
      | nil => cases h
      | cons d ds => exact ⟨d, ds, rfl⟩
    obtain ⟨hc, hrest⟩ := List.cons.inj h
    cases rest with
    | nil =>
      obtain rfl : ds = [] := by simpa using hrest
      exact .last hc
    | cons c' rest => exact .next hc (ih hrest (List.cons_ne_nil _ _))

/-! ### Characters of a numeral -/

/-- A digit is one of the ten that follow the zero of a script. -/
theorem exists_zero_of_digitValue (h : digitValue? c = some d) :
    ∃ z ∈ decimalZeros, c.toNat = z + d ∧ d < 10 := by
  unfold digitValue? at h
  split at h
  · split at h
    · next hc =>
      cases h
      have hlow : '0'.toNat ≤ c.toNat := hc.1
      have hhigh : c.toNat ≤ '9'.toNat := hc.2
      refine ⟨48, by decide, ?_, ?_⟩
      · exact (Nat.add_sub_cancel' hlow).symm
      · change c.toNat - 48 < 10
        have hhigh : c.toNat ≤ 57 := hhigh
        omega
    · cases h
  · obtain ⟨z, hfind, rfl⟩ := Option.map_eq_some_iff.mp h
    have hbounds := List.find?_some hfind
    simp only [Bool.and_eq_true, decide_eq_true_eq] at hbounds
    exact ⟨z, List.mem_of_find?_eq_some hfind, by omega, by omega⟩

/-- No digit is white space. -/
theorem isBlank_of_digitValue (h : digitValue? c = some d) : isBlank c = false := by
  have hapart : ∀ z ∈ decimalZeros, ∀ r ∈ blankRanges, r.2 < z ∨ z + 9 < r.1 := by decide
  obtain ⟨z, hz, hcode, hd⟩ := exists_zero_of_digitValue h
  refine List.any_eq_false.mpr fun r hr => ?_
  simp only [Bool.and_eq_true, decide_eq_true_eq]
  rcases hapart z hz r hr with hlow | hhigh <;> omega

/-- No digit is a capital letter. -/
theorem toLower_of_digitValue (h : digitValue? c = some d) : c.toLower = c := by
  have hapart : ∀ z ∈ decimalZeros, z + 9 < 65 ∨ 90 < z := by decide
  obtain ⟨z, hz, hcode, hd⟩ := exists_zero_of_digitValue h
  unfold Char.toLower
  split
  · next hcapital =>
    have hlow : 65 ≤ c.toNat := hcapital.1
    have hhigh : c.toNat ≤ 90 := hcapital.2
    rcases hapart z hz with h | h <;> omega
  · rfl

theorem isBlank_of_isNumeralBlank (h : isNumeralBlank c = true) : isBlank c = true := by
  unfold isNumeralBlank at h
  split at h
  · unfold isAsciiBlank at h
    simp only [Bool.or_eq_true, beq_iff_eq, Bool.and_eq_true, decide_eq_true_eq] at h
    rcases h with rfl | h
    · rfl
    · exact List.any_eq_true.mpr ⟨(9, 13), by decide, by simpa using h⟩
  · exact h

/-! ### White space around a text -/

/-- What surrounds a text is taken away up to the first character and from the last one on that
stay. -/
theorem stripped_eq {p : Char → Bool} {before after : List Char}
    (hbefore : ∀ c ∈ before, p c = true) (hafter : ∀ c ∈ after, p c = true)
    (hfirst : ∃ c rest, s = c :: rest ∧ p c = false)
    (hlast : ∃ init c, s = init ++ [c] ∧ p c = false) :
    (((before ++ s ++ after).dropWhile p).reverse.dropWhile p).reverse = s := by
  have hstart {c : Char} {rest : List Char} (hc : p c = false) :
      (c :: rest).dropWhile p = c :: rest := List.dropWhile_cons_of_neg (by simp [hc])
  obtain ⟨c, rest, rfl, hc⟩ := hfirst
  rw [List.append_assoc, List.dropWhile_append_of_pos hbefore, List.cons_append, hstart hc,
    ← List.cons_append, List.reverse_append,
    List.dropWhile_append_of_pos fun c h => hafter c (List.mem_reverse.mp h)]
  obtain ⟨init, c', heq, hc'⟩ := hlast
  rw [heq, List.reverse_append, List.reverse_singleton, List.singleton_append, hstart hc',
    List.reverse_cons, List.reverse_reverse]

/-- A numeral with a sign or without starts and ends with characters that are no white space. -/
theorem exists_ends {sign : List Char} (hsign : IsSign sign negative) (hs : IsNumeral s ds) :
    (∃ c rest, sign ++ s = c :: rest ∧ isBlank c = false) ∧
      ∃ init c, sign ++ s = init ++ [c] ∧ isBlank c = false := by
  constructor
  · cases hsign with
    | none =>
      obtain ⟨c, rest, d, rfl, hc⟩ := hs.exists_cons
      exact ⟨c, rest, rfl, isBlank_of_digitValue hc⟩
    | plus | minus => exact ⟨_, s, rfl, by decide⟩
  · obtain ⟨init, c, d, rfl, hc⟩ := hs.exists_append
    exact ⟨sign ++ init, c, (List.append_assoc _ _ _).symm, isBlank_of_digitValue hc⟩

/-- The white space around the text of an integer is taken away by the general rule. -/
theorem trim_of_numeral {before sign after : List Char} (hbefore : ∀ c ∈ before, isBlank c = true)
    (hsign : IsSign sign negative) (hs : IsNumeral s ds) (hafter : ∀ c ∈ after, isBlank c = true) :
    trim (before ++ (sign ++ s) ++ after) = sign ++ s := by
  obtain ⟨hfirst, hlast⟩ := exists_ends hsign hs
  exact stripped_eq hbefore hafter hfirst hlast

/-- The rule for numerals, by which less is white space, takes nothing more away. -/
theorem trimNumeral_of_numeral {sign : List Char} (hsign : IsSign sign negative)
    (hs : IsNumeral s ds) : trimNumeral (sign ++ s) = sign ++ s := by
  have hblank {c : Char} (h : isBlank c = false) : isNumeralBlank c = false :=
    Bool.eq_false_iff.mpr fun h' => by rw [isBlank_of_isNumeralBlank h'] at h; cases h
  obtain ⟨⟨c, rest, hfirst, hc⟩, init, c', hlast, hc'⟩ := exists_ends hsign hs
  have hstripped : trimNumeral ([] ++ (sign ++ s) ++ []) = sign ++ s :=
    stripped_eq nofun nofun ⟨c, rest, hfirst, hblank hc⟩ ⟨init, c', hlast, hblank hc'⟩
  rwa [List.nil_append, List.append_nil] at hstripped

/-! ### Reading -/

/-- The sign in front of a numeral is told from its digits. -/
theorem takeSign_of_numeral {sign : List Char} (hsign : IsSign sign negative)
    (hs : IsNumeral s ds) :
    takeSign (sign ++ s) = (negative, s) := by
  cases hsign with
  | none =>
    obtain ⟨c, rest, d, rfl, hc⟩ := hs.exists_cons
    rw [List.nil_append]
    unfold takeSign
    split
    · next heq =>
      cases heq
      cases hc
    · next heq =>
      cases heq
      cases hc
    · rfl
  | plus | minus => rfl

/-- A digit is read whether or not another comes before it. -/
theorem takeDigits_digit (hc : digitValue? c = some d) (afterDigit : Bool) :
    takeDigits afterDigit (c :: s) = (d :: (takeDigits true s).1, (takeDigits true s).2) := by
  conv_lhs => unfold takeDigits
  rw [hc]

/-- A low line between two digits is passed over. -/
theorem takeDigits_line (hc : digitValue? c = some d) :
    takeDigits true ('_' :: c :: s) = takeDigits false (c :: s) := by
  have hline : digitValue? '_' = none := by decide
  have hdecimal : isDecimal c = true := by rw [isDecimal, hc]; rfl
  conv_lhs => unfold takeDigits
  rw [hline]
  exact if_pos hdecimal

/-- All of a numeral is read, whether or not a digit comes before it. -/
theorem takeDigits_of_numeral (hs : IsNumeral s ds) (afterDigit : Bool) :
    takeDigits afterDigit s = (ds, []) := by
  induction hs generalizing afterDigit with
  | last hc => rw [takeDigits_digit hc, takeDigits]
  | next hc _ ih => rw [takeDigits_digit hc, ih]
  | spaced hc hs ih =>
    obtain ⟨c, rest, d, rfl, hnext⟩ := hs.exists_cons
    rw [takeDigits_digit hc, takeDigits_line hnext, ih]

/-- The text of an integer is read as that integer unless it has too many digits. -/
theorem parseInt?_of_numeral {sign : List Char} (hsign : IsSign sign negative)
    (hs : IsNumeral s ds) :
    parseInt? (sign ++ s) =
      if ds.length ≤ digitLimit then some (integerOf negative ds) else none := by
  unfold parseInt?
  rw [trimNumeral_of_numeral hsign hs, takeSign_of_numeral hsign hs]
  simp only []
  rw [takeDigits_of_numeral hs]
  split
  · next heq => exact (hs.digits_ne_nil (congrArg Prod.fst heq)).elim
  · next heq =>
    cases heq
    rfl
  · next hne => exact (hne _ rfl).elim

/-! ### Reading as a double -/

/-- Leading zeros do not count. -/
theorem ofDigits_dropZeros (ds : List Nat) : ofDigits (ds.dropWhile (· == 0)) = ofDigits ds := by
  induction ds with
  | nil => rfl
  | cons d ds ih =>
    rw [List.dropWhile_cons]
    split
    · next hzero =>
      obtain rfl : d = 0 := beq_iff_eq.mp hzero
      rw [ih]
      rfl
    · rfl

/-- A number with more digits is larger. -/
theorem tenPow_le_ofDigits {d : Nat} (hd : d ≠ 0) (ds : List Nat) :
    tenPow ds.length ≤ ofDigits (d :: ds) := by
  induction ds using List.reverseRecOn with
  | nil => simpa [ofDigits] using Nat.one_le_iff_ne_zero.mpr hd
  | append_singleton ds e ih =>
    rw [List.length_append, List.length_singleton, tenPow_succ, ← List.cons_append, ofDigits_concat]
    exact Nat.le_add_right_of_le (Nat.mul_le_mul_right 10 ih)

theorem twoPow_pos (e : Int) : 0 < Binary64.twoPow e := Nat.two_pow_pos e.toNat

theorem twoPow_le_twoPow {d e : Int} (h : d ≤ e) : Binary64.twoPow d ≤ Binary64.twoPow e :=
  Nat.pow_le_pow_right Nat.two_pos (Int.toNat_le_toNat h)

theorem twoPow_le_iff {e : Int} {n : Nat} (hn : n ≠ 0) : Binary64.twoPow e ≤ n ↔ e ≤ n.log2 :=
  (Nat.le_log2 hn).symm.trans Int.toNat_le

/-- Powers of ten from the 400th on are beyond the range of doubles. -/
theorem twoPow_le_tenPow {k : Nat} (hk : 400 ≤ k) : Binary64.twoPow 1024 ≤ tenPow k :=
  calc Binary64.twoPow 1024 ≤ Binary64.twoPow ((3 * k : Nat) : Int) := twoPow_le_twoPow (by omega)
    _ = Nat.pow 8 k := Nat.pow_mul 2 3 k
    _ ≤ tenPow k := Nat.pow_le_pow_left (by decide) k

/-- The double nearest to an integer from `2 ^ 1024` on is infinite. -/
theorem ofQuotient_infinite {n : Nat} (hn : Binary64.twoPow 1024 ≤ n) (negative : Bool) :
    Binary64.ofQuotient negative n 1 = .infinity negative := by
  have hpos : n ≠ 0 := ((twoPow_pos 1024).trans_le hn).ne'
  have hlog : (1024 : Int) ≤ n.log2 := (twoPow_le_iff hpos).mp hn
  have hfloor : Binary64.floorLog2 n 1 = n.log2 := by
    have hle : Binary64.twoPow n.log2 ≤ n := Nat.log2_self_le hpos
    have hone : Binary64.twoPow (-(n.log2 : Int)) = 1 := by
      rw [Binary64.twoPow, Int.toNat_eq_zero.mpr (by omega)]
    have hsub : (n.log2 : Int) - Nat.log2 1 = n.log2 := Int.sub_zero _
    unfold Binary64.floorLog2
    simp only [hsub]
    rw [hone, Nat.one_mul, Nat.mul_one, if_pos hle]
  have hmin : max ((n.log2 : Int) - 52) Binary64.minExponent = n.log2 - 52 :=
    Int.max_eq_left (by unfold Binary64.minExponent; omega)
  have hmax : Binary64.maxExponent < (n.log2 : Int) - 52 := by unfold Binary64.maxExponent; omega
  unfold Binary64.ofQuotient
  rw [if_neg hpos, hfloor]
  simp only [hmin]
  -- the exponent is too large before the significand is rounded, and rounding does not lessen it
  refine if_pos ?_
  rw [apply_ite Prod.snd]
  split <;> omega

/-- Rounding never leads to "not a number". -/
theorem isNaN_ofQuotient (negative : Bool) (num den : Nat) :
    (Binary64.ofQuotient negative num den).isNaN = false := by
  unfold Binary64.ofQuotient
  split
  · rfl
  · dsimp only
    split
    · split <;> rfl
    · split <;> rfl

/-- A decimal without fraction and exponent comes to the double nearest to an integer. -/
theorem binaryOfDecimal_zero (negative : Bool) (ds : List Nat) :
    binaryOfDecimal negative ds 0 = .ofQuotient negative (ofDigits ds) 1 := by
  rw [← ofDigits_dropZeros ds]
  unfold binaryOfDecimal
  simp only [Int.zero_add]
  cases hdrop : ds.dropWhile (· == 0) with
  | nil => rfl
  | cons d rest =>
    have hd : d ≠ 0 := by
      have hhead := List.head_dropWhile_not (p := (· == 0)) (l := ds) (by simp [hdrop])
      simpa only [hdrop, List.head_cons, beq_eq_false_iff_ne] using hhead
    rw [if_neg (by simp; omega)]
    split
    · next hlong =>
      have hlong : 400 ≤ rest.length := by
        simp only [List.length_cons] at hlong
        omega
      have hlarge := (twoPow_le_tenPow hlong).trans (tenPow_le_ofDigits hd rest)
      exact (ofQuotient_infinite hlarge negative).symm
    · simp

/-- The text of an integer is read as the double nearest to that integer. -/
theorem parseFloat?_of_numeral {sign : List Char} (hsign : IsSign sign negative)
    (hs : IsNumeral s ds) :
    parseFloat? (sign ++ s) = some (.ofQuotient negative (ofDigits ds) 1) := by
  obtain ⟨c, rest, d, hfirst, hc⟩ := hs.exists_cons
  have hword {c' : Char} {word : List Char} (hc' : digitValue? c' = none) :
      asciiLower s ≠ c' :: word := by
    rw [hfirst]
    intro h
    have hhead : c.toLower = c' := (List.cons.inj h).1
    rw [toLower_of_digitValue hc] at hhead
    rw [hhead, hc'] at hc
    cases hc
  have hdecimal : takeDecimal? s = some (ds, 0, []) := by
    unfold takeDecimal?
    rw [takeDigits_of_numeral hs]
    simp [takeFraction, takeExponent, hs.digits_ne_nil]
  unfold parseFloat? parseFloatBody?
  rw [trimNumeral_of_numeral hsign hs, takeSign_of_numeral hsign hs]
  simp only []
  rw [if_neg, if_neg, hdecimal]
  · exact congrArg some (binaryOfDecimal_zero negative ds)
  · exact hword (by decide)
  · exact not_or.mpr ⟨hword (by decide), hword (by decide)⟩

/-! ### Writing -/

/-- The value of a digit of ASCII. -/
theorem digitValue_of_isDigit (hc : c.isDigit = true) :
    digitValue? c = some (c.toNat - '0'.toNat) := by
  unfold Char.isDigit at hc
  simp only [ge_iff_le, Bool.and_eq_true, decide_eq_true_eq] at hc
  have hhigh : c.toNat ≤ 57 := hc.2
  unfold digitValue?
  rw [if_pos (by omega)]
  exact if_pos hc

/-- The digits of a number are a numeral, and stand for it. -/
theorem exists_isNumeral_digits (n : Nat) :
    ∃ ds, IsNumeral (digits n) ds ∧ ofDigits ds = n ∧ ds.length = digitCount n := by
  refine ⟨(digits n).map fun c => c.toNat - '0'.toNat, .of_map_eq ?_ Nat.toDigits_ne_nil, ?_, ?_⟩
  · rw [List.map_map]
    exact List.map_congr_left fun c hc =>
      digitValue_of_isDigit (Nat.isDigit_of_mem_toDigits (by decide) (by decide) hc)
  · have hread : Nat.ofDigitChars 10 (digits n) 0 = n := Nat.ofDigitChars_ten_toDigits
    unfold Nat.ofDigitChars at hread
    simpa only [ofDigits, List.foldl_map, Nat.mul_comm] using hread
  · exact List.length_map _

/-- A number has few digits exactly if it is small. -/
theorem digitCount_le_iff (n : Nat) {k : Nat} (hk : 0 < k) : digitCount n ≤ k ↔ n < tenPow k :=
  Nat.length_toDigits_le_iff (by decide) hk

/-- What an integer is written as is a text of that integer, also with white space around it. -/
theorem exists_isIntegerText_intText (n : Int) {before after : List Char}
    (hbefore : ∀ c ∈ before, isBlank c = true) (hafter : ∀ c ∈ after, isBlank c = true) :
    ∃ negative ds, IsIntegerText (before ++ intText n ++ after) negative ds ∧
      integerOf negative ds = n ∧ ds.length = digitCount n.natAbs := by
  obtain ⟨ds, hds, hvalue, hlength⟩ := exists_isNumeral_digits n.natAbs
  unfold intText
  split
  · refine ⟨true, ds, .intro hbefore .minus hds hafter, ?_, hlength⟩
    rw [integerOf, if_pos rfl, hvalue]
    omega
  · refine ⟨false, ds, .intro hbefore .none hds hafter, ?_, hlength⟩
    rw [integerOf, if_neg Bool.false_ne_true, hvalue]
    omega

end

end Conform
