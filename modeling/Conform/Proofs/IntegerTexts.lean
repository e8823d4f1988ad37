/-
  Conform/Proofs/IntegerTexts.lean
  ================================
  **Converting the texts of integers.**  A text of an integer is converted to that integer as long
  as it has no more digits than a text may have.  With more of them the conversion to an integer is
  refused, while the conversion to a number falls back on the nearest double.

  The conversion of an integer to a text is undone by both, also when white space is put around the
  text.  It is refused when the text would have too many digits.
-/
import Conform.Proofs.Numerals
import Conform.Proofs.Validity

namespace Conform

open Number Text Target

/-! ### Reading a text -/

section

variable {s : String} {negative : Bool} {ds : List Nat}

/-- What is left of the text of an integer without the white space around it. -/
theorem trim_integerText (h : IsIntegerText s.toList negative ds) :
    ∃ sign numeral, IsSign sign negative ∧ IsNumeral numeral ds ∧
      trim s.toList = sign ++ numeral ∧ sign ++ numeral ≠ [] := by
  generalize s.toList = text at h
  obtain ⟨hbefore, hsign, hnumeral, hafter⟩ := h
  refine ⟨_, _, hsign, hnumeral, trim_of_numeral hbefore hsign hnumeral hafter, ?_⟩
  obtain ⟨c, rest, d, rfl, -⟩ := hnumeral.exists_cons
  exact List.append_ne_nil_of_right_ne_nil _ (List.cons_ne_nil _ _)

/-- As a number, a text of an integer is that integer, or the nearest double if it is too long. -/
theorem readNumber_integerText (h : IsIntegerText s.toList negative ds) :
    readNumber s = .ok (if ds.length ≤ digitLimit then .int (integerOf negative ds)
      else .float (.ofQuotient negative (ofDigits ds) 1)) := by
  obtain ⟨sign, numeral, hsign, hnumeral, htrim, hne⟩ := trim_integerText h
  unfold readNumber
  rw [htrim]
  split
  · next hnil => exact (hne hnil).elim
  · by_cases hshort : ds.length ≤ digitLimit
    · rw [parseInt?_of_numeral hsign hnumeral, if_pos hshort, if_pos hshort]
    · rw [parseInt?_of_numeral hsign hnumeral, if_neg hshort, if_neg hshort, Value.readFloat,
        parseFloat?_of_numeral hsign hnumeral]
      rfl

/-- As an integer, a text of an integer is that integer, or nothing if it is too long. -/
theorem readInteger_integerText (h : IsIntegerText s.toList negative ds) :
    readInteger s = if ds.length ≤ digitLimit then .ok (.int (integerOf negative ds))
      else .error .badValue := by
  obtain ⟨sign, numeral, hsign, hnumeral, htrim, hne⟩ := trim_integerText h
  unfold readInteger
  rw [htrim]
  split
  · next hnil => exact (hne hnil).elim
  · by_cases hshort : ds.length ≤ digitLimit
    · rw [Value.readInt, parseInt?_of_numeral hsign hnumeral, if_pos hshort, if_pos hshort]
      rfl
    · rw [Value.readInt, parseInt?_of_numeral hsign hnumeral, if_neg hshort, if_neg hshort]
      rfl

end

/-! ### Converting a text -/

section

variable {ctx : Context} {w : World} {m : Value} {id : Identity} {flavor : Flavor} {s : String}
  {negative : Bool} {ds : List Nat} {x z : Value}

/-- A text of an integer is a number: that integer, or the nearest double if it is too long. -/
theorem validates_number_integerText (h : IsIntegerText s.toList negative ds) :
    ctx.Validates w (.coerce m .number) (.scalar id (.str flavor s)) z ↔
      z = if ds.length ≤ digitLimit then .int (integerOf negative ds)
        else .float (.ofQuotient negative (ofDigits ds) 1) := by
  have hconvert : Target.number.coerce? (.scalar id (.str flavor s)) = .ok (some
      (if ds.length ≤ digitLimit then .int (integerOf negative ds)
        else .float (.ofQuotient negative (ofDigits ds) 1))) := by
    have hnumber : (if ds.length ≤ digitLimit then Value.int (integerOf negative ds)
        else .float (.ofQuotient negative (ofDigits ds) 1)).isNumber = true := by
      split
      · rfl
      · simp [Value.isNumber, Value.isBigInt, Value.float, Value.toInt?, Value.toFloat?,
          isNaN_ofQuotient]
    unfold coerce? convert toNumber
    simp only [readNumber_integerText h]
    exact congrArg Except.ok (if_pos hnumber)
  rw [validates_coerce_iff, hconvert]
  simp [eq_comm]

/-- A text of an integer that is not too long is that integer, as a number and as an integer. -/
theorem validates_short_integerText (h : IsIntegerText s.toList negative ds)
    (hshort : ds.length ≤ digitLimit) {t : Target} (ht : t ∈ [Target.number, .bigInt]) :
    ctx.Validates w (.coerce m t) (.scalar id (.str flavor s)) z ↔
      z = .int (integerOf negative ds) := by
  obtain rfl | rfl : t = .number ∨ t = .bigInt := by simpa using ht
  · rw [validates_number_integerText h, if_pos hshort]
  have hconvert : Target.bigInt.coerce? (.scalar id (.str flavor s)) =
      .ok (some (.int (integerOf negative ds))) := by
    unfold coerce? convert toInteger
    simp only [readInteger_integerText h, if_pos hshort]
    rfl
  rw [validates_coerce_iff, hconvert]
  simp [eq_comm]

/-- A text of an integer that is too long is refused. -/
theorem refuses_integer_integerText (h : IsIntegerText s.toList negative ds)
    (hlong : digitLimit < ds.length) :
    ctx.Refuses (.coerce m .bigInt) (.scalar id (.str flavor s)) := by
  have hkey : "coerce_bigint" ∈ Message.shapeKeys := by decide
  refine refuses_coerce ?_ hkey
  unfold coerce? convert toInteger
  simp only [readInteger_integerText h, if_neg (Nat.not_le.mpr hlong)]
  rfl

/-- **What the texts of integers are converted to.**  A text of an integer that has no more digits
than a text may have is that integer, both as a number and as an integer.  A longer one is never
taken for an integer: as an integer it is refused, with one issue where no message comes from
elsewhere.  As a number it is the nearest double, which is infinite from `2 ^ 1024` on. -/
theorem integer_texts_converted (h : IsIntegerText s.toList negative ds) (ctx : Context) (w : World)
    (m : Value) (id : Identity) (flavor : Flavor) :
    let x : Value := .scalar id (.str flavor s)
    (ds.length ≤ digitLimit → ∀ t ∈ [Target.number, .bigInt], ∀ z,
      ctx.Validates w (.coerce m t) x z ↔ z = .int (integerOf negative ds)) ∧
    (digitLimit < ds.length →
      ctx.Refuses (.coerce m .bigInt) x ∧
      (ctx.Plain → m.isOptionalText = true → ctx.Reports w (.coerce m .bigInt) x) ∧
      ∀ z, ctx.Validates w (.coerce m .number) x z ↔
        z = .float (.ofQuotient negative (ofDigits ds) 1)) ∧
    (Binary64.twoPow 1024 ≤ ofDigits ds →
      Binary64.ofQuotient negative (ofDigits ds) 1 = .infinity negative) := by
  intro x
  refine ⟨fun hshort t ht z => validates_short_integerText h hshort ht, fun hlong => ?_,
    fun hlarge => ofQuotient_infinite hlarge negative⟩
  have hrefuses : ctx.Refuses (.coerce m .bigInt) x := refuses_integer_integerText h hlong
  refine ⟨hrefuses, fun hctx hm => hrefuses.reports hctx hm w, fun z => ?_⟩
  rw [validates_number_integerText h, if_neg (Nat.not_le.mpr hlong)]

end

/-- Digits of two scripts with a low line between them, a sign, and an ideographic space. -/
theorem integer_texts_converted_twelve :
    let ctx : Context := ⟨.default, [], [], [], ⟨fun _ _ _ => .error .callable, 0⟩⟩
    let s := String.ofList ['\u3000', '-', '1', '_', '\u0662', ' ']
    IsIntegerText s.toList true [1, 2] ∧
    ∀ t ∈ [Target.number, .bigInt],
      ctx.Validates .empty (.coerce .null t) (.scalar .fresh (.str .base s)) (.int (-12)) := by
  intro ctx s
  have htext : s.toList = ['\u3000'] ++ (['-'] ++ ['1', '_', '\u0662']) ++ [' '] :=
    String.toList_ofList
  have h : IsIntegerText s.toList true [1, 2] := by
    rw [htext]
    refine .intro (List.forall_mem_singleton.mpr (by decide)) .minus ?_
      (List.forall_mem_singleton.mpr (by decide))
    exact .spaced (by decide) (.last (by decide))
  refine ⟨h, fun t ht => ?_⟩
  exact ((integer_texts_converted h ctx .empty .null .fresh .base).1 (by decide) t ht _).mpr rfl

/-- One and as many zeros as a text may have digits: as a number this is infinite. -/
theorem integer_text_infinite :
    let ctx : Context := ⟨.default, [], [], [], ⟨fun _ _ _ => .error .callable, 0⟩⟩
    let s := String.ofList ('1' :: List.replicate digitLimit '0')
    IsIntegerText s.toList false (1 :: List.replicate digitLimit 0) ∧
    ctx.Validates .empty (.coerce .null .number) (.scalar .fresh (.str .base s))
      (.float (.infinity false)) := by
  intro ctx s
  have hnumeral : IsNumeral ('1' :: List.replicate digitLimit '0')
      (1 :: List.replicate digitLimit 0) := by
    refine .of_map_eq ?_ (List.cons_ne_nil _ _)
    rw [List.map_cons, List.map_cons, List.map_replicate, List.map_replicate]
    exact congrArg₂ _ (by decide) (congrArg _ (by decide))
  have h : IsIntegerText s.toList false (1 :: List.replicate digitLimit 0) := by
    have htext : s.toList = [] ++ ([] ++ '1' :: List.replicate digitLimit '0') ++ [] := by
      rw [List.append_nil]
      exact String.toList_ofList
    rw [htext]
    exact .intro nofun .none hnumeral nofun
  have hlarge : Binary64.twoPow 1024 ≤ ofDigits (1 :: List.replicate digitLimit 0) := by
    have hpow := tenPow_le_ofDigits one_ne_zero (List.replicate digitLimit 0)
    rw [List.length_replicate] at hpow
    exact (twoPow_le_tenPow (by decide)).trans hpow
  refine ⟨h, (validates_number_integerText h).mpr ?_⟩
  rw [if_neg (by rw [List.length_cons, List.length_replicate]; exact Nat.not_succ_le_self _),
    ofQuotient_infinite hlarge]

/-! ### Converting an integer to a text and back -/

section

variable {ctx : Context} {w : World} {m v z : Value} {n : Int}

/-- The text of an integer, also of one that is a member of an enumeration. -/
theorem toText_of_toInt? (hv : v.toInt? = some n) : toText v = (integerText n).map .str := by
  cases v with
  | scalar id a =>
    cases a with
    | int flavor k =>
      cases hv
      rfl
    | member e =>
      rcases e with ⟨e, name, value⟩
      cases hnumeric : e.numeric <;> cases value <;>
        simp only [Value.toInt?, hnumeric, if_true, Bool.false_eq_true, if_false, reduceCtorEq] at hv
      cases hv
      simp only [toText, Scalar.text, hnumeric, if_true, EnumValue.quoted]
    | _ => cases hv
  | _ => cases hv

/-- An integer is no text, so it is converted to one. -/
theorem coerce_string_of_toInt? (hv : v.toInt? = some n) :
    Target.string.coerce? v = .ok ((intText? n).map fun t => .str (String.ofList t)) := by
  have hstr : v.toStr? = none := by
    cases v with
    | scalar id a => cases a <;> first | rfl | cases hv
    | _ => rfl
  have haccepts : Target.string.accepts v = false := by
    unfold accepts
    rw [hstr]
    rfl
  have hconvert : Target.string.convert v = (integerText n).map .str := toText_of_toInt? hv
  unfold coerce?
  rw [haccepts, if_neg Bool.false_ne_true, hconvert]
  unfold integerText
  rcases intText? n with _ | t
  · rfl
  · rfl

/-- **Converting integers to texts and back.**  An integer that has no more digits than a text may
have is converted to a text, and this text, with any white space around it, is converted to that
integer again, both as a number and as an integer.  An integer with more digits is refused, with one
issue where no message comes from elsewhere. -/
theorem integers_restored (hv : v.toInt? = some n) (ctx : Context) (w : World) (m : Value) :
    (digitCount n.natAbs ≤ digitLimit → ∃ s : String,
      (∀ z, ctx.Validates w (.coerce m .string) v z ↔ z = .str s) ∧
      ∀ before after : List Char, (∀ c ∈ before, isBlank c = true) →
        (∀ c ∈ after, isBlank c = true) → ∀ t ∈ [Target.number, .bigInt], ∀ w' m' id flavor z,
          ctx.Validates w' (.coerce m' t)
            (.scalar id (.str flavor (String.ofList (before ++ s.toList ++ after)))) z ↔ z = .int n) ∧
    (digitLimit < digitCount n.natAbs →
      ctx.Refuses (.coerce m .string) v ∧
      (ctx.Plain → m.isOptionalText = true → ctx.Reports w (.coerce m .string) v)) := by
  have hcoerce := coerce_string_of_toInt? hv
  have hsmall := digitCount_le_iff n.natAbs (k := digitLimit) (by decide)
  refine ⟨fun hshort => ?_, fun hlong => ?_⟩
  · rw [intText?, if_pos (hsmall.mp hshort)] at hcoerce
    refine ⟨String.ofList (intText n), fun z => ?_, ?_⟩
    · rw [validates_coerce_iff, hcoerce]
      simp [eq_comm]
    · intro before after hbefore hafter t ht w' m' id flavor z
      rw [String.toList_ofList]
      obtain ⟨negative, ds, htext, hvalue, hlength⟩ :=
        exists_isIntegerText_intText n hbefore hafter
      rw [← String.toList_ofList (l := _ ++ _)] at htext
      rw [validates_short_integerText htext (hlength.trans_le hshort) ht, hvalue]
  · rw [intText?, if_neg (hsmall.not.mp (Nat.not_le.mpr hlong))] at hcoerce
    have hkey : "coerce_string" ∈ Message.shapeKeys := by decide
    have hrefuses : ctx.Refuses (.coerce m .string) v := refuses_coerce hcoerce hkey
    exact ⟨hrefuses, fun hctx hm => hrefuses.reports hctx hm w⟩

end

/-- A negative integer, with a tabulator before its text and a space after it. -/
theorem integers_restored_negative :
    let ctx : Context := ⟨.default, [], [], [], ⟨fun _ _ _ => .error .callable, 0⟩⟩
    ∃ s : String, ctx.Validates .empty (.coerce .null .string) (.int (-12)) (.str s) ∧
      ∀ t ∈ [Target.number, .bigInt], ctx.Validates .empty (.coerce .null t)
        (.scalar .fresh (.str .base (String.ofList (['\t'] ++ s.toList ++ [' '])))) (.int (-12)) := by
  intro ctx
  obtain ⟨hshort, -⟩ := integers_restored (v := .int (-12)) rfl ctx .empty .null
  obtain ⟨s, htext, hback⟩ := hshort (by decide)
  refine ⟨s, (htext _).mpr rfl, fun t ht => ?_⟩
  exact (hback ['\t'] [' '] (List.forall_mem_singleton.mpr (by decide))
    (List.forall_mem_singleton.mpr (by decide)) t ht _ _ _ _ _).mpr rfl

end Conform
