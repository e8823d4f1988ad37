/-
  Conform/Proofs/Folding.lean
  ===========================
  **Classes without regard to case.**  Where case is disregarded, a set of characters is matched by
  the lower case of a character, and by some others that have a capital form in common with it.

  Decimal digits have no case.  A range of the letters from a to z is matched by these letters in
  either case, and by four characters beyond ASCII: the dotted capital i, the dotless small i, the
  long s and the sign for kelvins (`holds_letters_iff`).  What the tables of letter case say about
  digits and these letters is found by going through their runs.
-/
import Conform.Proofs.Numerals
import Conform.Pattern.Match

namespace Conform

open Text Pattern

/-! ### Lower case -/

/-- Beyond ASCII, a character is its own lower case, or is moved by the offset of a run. -/
theorem lowerCode_cases {code : Nat} (hlarge : 128 ≤ code) :
    lowerCode code = code ∨ ∃ r ∈ toLowerRuns, r.first ≤ code ∧ code ≤ r.last ∧
      lowerCode code = (code + r.offset).toNat := by
  unfold lowerCode mapCode
  rw [if_neg (Nat.not_lt.mpr hlarge)]
  cases hfind : toLowerRuns.find? (·.covers code) with
  | none => exact .inl rfl
  | some r =>
    have hcovers := List.find?_some hfind
    simp only [CaseRun.covers, Bool.and_eq_true, decide_eq_true_eq] at hcovers
    exact .inr ⟨r, List.mem_of_find?_eq_some hfind, hcovers.1.1, hcovers.1.2, rfl⟩

/-- Neither the characters that a run moves nor those that it moves them to are among these. -/
def Text.CaseRun.isClearOf (r : CaseRun) (lo hi : Nat) : Bool :=
  (Nat.blt r.last lo || Nat.blt hi r.first) &&
    (Nat.blt (r.last + r.offset).toNat lo || Nat.blt hi (r.first + r.offset).toNat)

theorem Text.CaseRun.isClearOf_iff {r : CaseRun} {lo hi : Nat} : r.isClearOf lo hi = true ↔
    (r.last < lo ∨ hi < r.first) ∧
      ((r.last + r.offset).toNat < lo ∨ hi < (r.first + r.offset).toNat) := by
  simp only [CaseRun.isClearOf, Bool.and_eq_true, Bool.or_eq_true, Nat.blt_eq]

/-- A character beyond ASCII that no run has to do with is the lower case of itself alone. -/
theorem lowerCode_eq_iff {x : Nat} (hx : 128 ≤ x)
    (hclear : ∀ r ∈ toLowerRuns, r.isClearOf x x = true) (code : Nat) :
    lowerCode code = x ↔ code = x := by
  rcases Nat.lt_or_ge code 128 with hsmall | hlarge
  · unfold lowerCode
    rw [if_pos hsmall]
    split <;> omega
  · rcases lowerCode_cases hlarge with hsame | ⟨r, hr, hfirst, hlast, hmoved⟩
    · rw [hsame]
    · have := CaseRun.isClearOf_iff.mp (hclear r hr)
      omega

/-! ### Digits -/

/-- A code that is that of a decimal digit lies behind the zero of a script. -/
theorem exists_zero_of_isDecimal {code : Nat} (h : isDecimal (Char.ofNat code) = true) :
    ∃ z ∈ decimalZeros, 0 < z ∧ z ≤ code ∧ code ≤ z + 9 := by
  have hpositive : ∀ z ∈ decimalZeros, 0 < z := by decide
  obtain ⟨d, hd⟩ := Option.isSome_iff_exists.mp h
  obtain ⟨z, hz, hcode, hlt⟩ := exists_zero_of_digitValue hd
  have hpos := hpositive z hz
  -- what is no code of a character counts as zero
  by_cases hvalid : code.isValidChar
  · rw [Char.ofNat, dif_pos hvalid] at hcode
    change code = z + d at hcode
    exact ⟨z, hz, hpos, by omega, by omega⟩
  · rw [Char.ofNat, dif_neg hvalid] at hcode
    change 0 = z + d at hcode
    omega

/-- Letter case has nothing to do with digits. -/
theorem isClearOf_digits {r : CaseRun} (hr : r ∈ toLowerRuns) {z : Nat} (hz : z ∈ decimalZeros) :
    r.isClearOf z (z + 9) = true := by
  have htable : toLowerRuns.all (fun r => decimalZeros.all fun z => r.isClearOf z (z + 9)) = true := by
    decide +kernel
  exact List.all_eq_true.mp (List.all_eq_true.mp htable r hr) z hz

/-- Digits have no lower case, and nothing has them for its lower case. -/
theorem isDecimal_lowerCode (c : Char) :
    isDecimal (Char.ofNat (lowerCode c.toNat)) = isDecimal c := by
  rcases Nat.lt_or_ge c.toNat 128 with hsmall | hlarge
  · have hascii : ∀ k < 128, isDecimal (Char.ofNat (lowerCode k)) = isDecimal (Char.ofNat k) := by
      decide
    rw [hascii _ hsmall, Char.ofNat_toNat]
  rcases lowerCode_cases hlarge with hsame | ⟨r, hr, hfirst, hlast, hmoved⟩
  · rw [hsame, Char.ofNat_toNat]
  trans false
  · refine Bool.eq_false_iff.mpr fun h => ?_
    obtain ⟨z, hz, hpos, hlow, hhigh⟩ := exists_zero_of_isDecimal h
    have := (CaseRun.isClearOf_iff.mp (isClearOf_digits hr hz)).2
    omega
  · refine (Bool.eq_false_iff.mpr fun h => ?_).symm
    rw [← Char.ofNat_toNat c] at h
    obtain ⟨z, hz, hpos, hlow, hhigh⟩ := exists_zero_of_isDecimal h
    have := (CaseRun.isClearOf_iff.mp (isClearOf_digits hr hz)).1
    omega

/-- The class of digits, matched without regard to case. -/
theorem holds_digit {flags : Flags} (hflags : flags.ascii = false) (c : Char) :
    SetItem.holds flags .full (lowerCode c.toNat) (.category .digit false) = isDecimal c := by
  simp [SetItem.holds, Category.holds, hflags, isDecimal_lowerCode]

/-! ### Letters -/

section

variable {lo hi : Nat}

/-- Small letters are their own lower case.  Of the characters beyond ASCII, the dotted capital i and
the sign for kelvins have a letter of ASCII for their lower case, and no other has. -/
theorem run_cases {r : CaseRun} (hr : r ∈ toLowerRuns) :
    (r.last < 97 ∨ 122 < r.first) ∧
      (r.last < 128 ∨ 122 < (r.first + r.offset).toNat ∨
        (r.first = 0x130 ∧ r.last = 0x130 ∧ r.offset = -199) ∨
        (r.first = 0x212A ∧ r.last = 0x212A ∧ r.offset = -8383)) := by
  have htable : toLowerRuns.all (fun r => (Nat.blt r.last 97 || Nat.blt 122 r.first) &&
      (Nat.blt r.last 128 || Nat.blt 122 (r.first + r.offset).toNat ||
        (r.first == 0x130 && r.last == 0x130 && r.offset == -199) ||
        (r.first == 0x212A && r.last == 0x212A && r.offset == -8383))) = true := by
    decide +kernel
  have hrun := List.all_eq_true.mp htable r hr
  simpa [Nat.blt_eq, or_assoc, and_assoc] using hrun

/-- Which characters have a letter of a range for their lower case. -/
theorem lowerCode_between_iff (hlo : 97 ≤ lo) (hhi : hi ≤ 122) (code : Nat) :
    lo ≤ lowerCode code ∧ lowerCode code ≤ hi ↔
      (lo ≤ code ∧ code ≤ hi) ∨ (lo ≤ code + 32 ∧ code + 32 ≤ hi) ∨
        (code = 0x130 ∧ lo ≤ 105 ∧ 105 ≤ hi) ∨ (code = 0x212A ∧ lo ≤ 107 ∧ 107 ≤ hi) := by
  rcases Nat.lt_or_ge code 128 with hsmall | hlarge
  · unfold lowerCode
    rw [if_pos hsmall]
    split <;> omega
  · have hdotted : lowerCode 0x130 = 105 := by decide +kernel
    have hkelvin : lowerCode 0x212A = 107 := by decide +kernel
    constructor
    · intro h
      rcases lowerCode_cases hlarge with hsame | ⟨r, hr, hfirst, hlast, hmoved⟩
      · omega
      · have := (run_cases hr).2
        omega
    · rintro (h | h | ⟨rfl, h⟩ | ⟨rfl, h⟩)
      · omega
      · omega
      · rwa [hdotted]
      · rwa [hkelvin]

/-- The letters of a range are their own lower case, and what has them for its lower case is not
among them. -/
theorem rangeFoldsTo_letters (hlo : 97 ≤ lo) (hhi : hi ≤ 122) (code : Nat) :
    rangeFoldsTo .full lo hi code = (lo ≤ code && code ≤ hi) := by
  have hsources : ((sources toLowerRuns code).any fun c => lo ≤ c && c ≤ hi) = false := by
    refine List.any_eq_false.mpr fun c hc => ?_
    obtain ⟨r, hr, hsource⟩ := List.mem_filterMap.mp hc
    have hclear := (run_cases hr).1
    dsimp only at hsource
    split at hsource
    · next hcovers =>
      cases hsource
      simp only [CaseRun.covers, Bool.and_eq_true, decide_eq_true_eq] at hcovers
      simp only [Bool.and_eq_true, decide_eq_true_eq]
      omega
    · cases hsource
  have hself : (lo ≤ code && code ≤ hi) = true → lowerCode code = code := by
    simp only [Bool.and_eq_true, decide_eq_true_eq]
    intro h
    unfold lowerCode
    rw [if_pos (by omega), if_neg (by omega)]
  simp only [rangeFoldsTo, hsources, Bool.or_false]
  cases hrange : (lo ≤ code && code ≤ hi) with
  | false => rfl
  | true => rw [hself hrange, beq_self_eq_true]; rfl

/-- The dotless i and the long s share their capital forms with letters of ASCII, and no other
character does. -/
theorem relatives_any_letters (hlo : 97 ≤ lo) (hhi : hi ≤ 122) (code : Nat) :
    (relatives code).any (rangeFoldsTo .full lo hi) = true ↔
      (code = 0x131 ∧ lo ≤ 105 ∧ 105 ≤ hi) ∨ (code = 0x17F ∧ lo ≤ 115 ∧ 115 ≤ hi) := by
  have hfamilies : ∀ family ∈ caseFamilies, family = [0x69, 0x131] ∨ family = [0x73, 0x17F] ∨
      ∀ c ∈ family, 122 < c := by decide
  have hi' : relatives 0x131 = [0x69] := by decide
  have hs' : relatives 0x17F = [0x73] := by decide
  simp only [List.any_eq_true, rangeFoldsTo_letters hlo hhi, Bool.and_eq_true, decide_eq_true_eq]
  constructor
  · rintro ⟨c, hc, hbetween⟩
    unfold relatives at hc
    split at hc
    · next family hfind =>
      have hmem : code ∈ family := by simpa using List.find?_some hfind
      obtain ⟨hcmem, hne⟩ := List.mem_filter.mp hc
      rcases hfamilies family (List.mem_of_find?_eq_some hfind) with rfl | rfl | hlarge
      · simp only [List.mem_cons, List.not_mem_nil, or_false, bne_iff_ne] at hmem hcmem hne
        omega
      · simp only [List.mem_cons, List.not_mem_nil, or_false, bne_iff_ne] at hmem hcmem hne
        omega
      · have := hlarge c hcmem
        omega
    · cases hc
  · rintro (⟨rfl, h⟩ | ⟨rfl, h⟩)
    · exact ⟨0x69, by simp [hi'], h⟩
    · exact ⟨0x73, by simp [hs'], h⟩

/-- **A range of letters, matched without regard to case.** -/
theorem holds_letters_iff {flags : Flags} (hlo : 97 ≤ lo) (hhi : hi ≤ 122) (code : Nat) :
    SetItem.holds flags .full (lowerCode code) (.range lo hi) = true ↔
      (lo ≤ code ∧ code ≤ hi) ∨ (lo ≤ code + 32 ∧ code + 32 ≤ hi) ∨
        ((code = 0x130 ∨ code = 0x131) ∧ lo ≤ 105 ∧ 105 ≤ hi) ∨
        (code = 0x17F ∧ lo ≤ 115 ∧ 115 ≤ hi) ∨ (code = 0x212A ∧ lo ≤ 107 ∧ 107 ≤ hi) := by
  have hdotless : ∀ r ∈ toLowerRuns, r.isClearOf 0x131 0x131 = true :=
    List.all_eq_true.mp (by decide +kernel)
  have hlong : ∀ r ∈ toLowerRuns, r.isClearOf 0x17F 0x17F = true :=
    List.all_eq_true.mp (by decide +kernel)
  have hplane : hi ≤ basicPlane := hhi.trans (by decide)
  have hholds : SetItem.holds flags .full (lowerCode code) (.range lo hi) =
      (rangeFoldsTo .full lo hi (lowerCode code) ||
        (relatives (lowerCode code)).any (rangeFoldsTo .full lo hi)) := by
    simp [SetItem.holds, Nat.min_eq_left hplane, Nat.not_lt.mpr hplane]
  rw [hholds, Bool.or_eq_true, relatives_any_letters hlo hhi, rangeFoldsTo_letters hlo hhi,
    Bool.and_eq_true, decide_eq_true_eq, decide_eq_true_eq, lowerCode_between_iff hlo hhi,
    lowerCode_eq_iff (by decide) hdotless, lowerCode_eq_iff (by decide) hlong]
  constructor
  · rintro ((h | h | h | h) | h | h) <;> omega
  · rintro (h | h | ⟨h | h, h'⟩ | h | h) <;> omega

end

/-! ### Sets -/

section

variable {flags : Flags}

/-- A set in which some member has other forms is matched by the lower case of a character. -/
theorem matchesSet_fold {items : List SetItem} (hfolding : flags.folding = .full)
    (hmoves : items.any (·.moves .full) = true) (code : Nat) :
    matchesSet flags items code = items.any (·.holds flags .full (lowerCode code)) := by
  simp [matchesSet, hfolding, hmoves, Folding.fold]

/-- A set in which no member has other forms is matched by the character itself. -/
theorem matchesSet_still {items : List SetItem} (hfolding : flags.folding = .full)
    (hmoves : items.any (·.moves .full) = false) (code : Nat) :
    matchesSet flags items code = items.any (·.holds flags .full code) := by
  simp [matchesSet, hfolding, hmoves]

/-- A member that is its own lower case and has no relatives is matched by itself alone. -/
theorem holds_char (literal : Char) (hfold : lowerCode literal.toNat = literal.toNat)
    (halone : relatives literal.toNat = []) (c : Char) :
    SetItem.holds flags .full c.toNat (.char literal.toNat) = (c == literal) := by
  have hsame : (c.toNat == literal.toNat) = (c == literal) := by
    rw [Bool.eq_iff_iff, beq_iff_eq, beq_iff_eq]
    exact Char.toNat_inj
  simp [SetItem.holds, Folding.fold, hfold, halone, hsame]

end

end Conform
