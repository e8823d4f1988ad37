/-
  Conform/Proofs/Identifiers.lean
  ===============================
  **Identifiers of fixed form.**  An identifier is made of groups of digits of prescribed sizes with
  hyphens between them (`IsGrouped`).  It is recognized by cutting a text into runs at its hyphens;
  the regular expression that describes it recognizes the same texts.

  Two things are recognized that the form does not have: the line break that may stand behind it,
  and digits of other scripts than ASCII.
-/
import Conform.Proofs.Folding
import Conform.Proofs.Recognition
import Conform.Proofs.Runs
import Conform.Proofs.Validity
import Conform.Schema.Build

namespace Conform

open Text Pattern

/-! ### The form -/

/-- Groups of digits of the sizes of an identifier's, with hyphens between them. -/
def IsGrouped (digit : Char → Bool) (s : List Char) : Prop :=
  ∃ groups : List (List Char), groups.map List.length = identifierGroups ∧
    (∀ g ∈ groups, ∀ c ∈ g, digit c = true) ∧ s = ['-'].intercalate groups

/-- A digit of base sixteen. -/
def isHexDigit (c : Char) : Bool := (hexValue? c).isSome

section

variable {digit digit' : Char → Bool} {s : List Char}

/-- Texts joined by hyphens: the first of them, and a hyphen before each of the others. -/
theorem intercalate_eq (first : List Char) (more : List (List Char)) :
    ['-'].intercalate (first :: more) = first ++ more.flatMap fun g => '-' :: g := by
  induction more generalizing first with
  | nil => simp [List.intercalate]
  | cons g more ih =>
    rw [List.intercalate_cons_cons, ih g, List.flatMap_cons, List.append_assoc, List.singleton_append,
      List.cons_append]

/-- The form with its five groups spelled out. -/
theorem isGrouped_iff : IsGrouped digit s ↔ ∃ a b c d e : List Char,
    (a.length = 8 ∧ b.length = 4 ∧ c.length = 4 ∧ d.length = 4 ∧ e.length = 12) ∧
    (∀ g ∈ [a, b, c, d, e], ∀ x ∈ g, digit x = true) ∧
    s = a ++ ('-' :: b ++ ('-' :: c ++ ('-' :: d ++ ('-' :: e)))) := by
  constructor
  · rintro ⟨groups, hsizes, hdigits, rfl⟩
    simp only [identifierGroups, List.map_eq_cons_iff, List.map_eq_nil_iff] at hsizes
    obtain ⟨a, -, rfl, ha, b, -, rfl, hb, c, -, rfl, hc, d, -, rfl, hd, e, -, rfl, he, rfl⟩ := hsizes
    refine ⟨a, b, c, d, e, ⟨ha, hb, hc, hd, he⟩, hdigits, ?_⟩
    simp
  · rintro ⟨a, b, c, d, e, ⟨ha, hb, hc, hd, he⟩, hdigits, rfl⟩
    refine ⟨[a, b, c, d, e], ?_, hdigits, ?_⟩
    · simp only [List.map_cons, List.map_nil, ha, hb, hc, hd, he]
      rfl
    · simp

/-- An identifier has 36 characters. -/
theorem IsGrouped.length_eq (h : IsGrouped digit s) : s.length = 36 := by
  obtain ⟨a, b, c, d, e, ⟨ha, hb, hc, hd, he⟩, -, rfl⟩ := isGrouped_iff.mp h
  simp [ha, hb, hc, hd, he]

/-- An identifier ends with a digit. -/
theorem IsGrouped.exists_getLast? (h : IsGrouped digit s) :
    ∃ x, s.getLast? = some x ∧ digit x = true := by
  obtain ⟨a, b, c, d, e, ⟨-, -, -, -, he⟩, hdigits, rfl⟩ := isGrouped_iff.mp h
  have hne : e ≠ [] := List.ne_nil_of_length_pos (by omega)
  refine ⟨e.getLast hne, ?_, hdigits e (by simp) _ (List.getLast_mem hne)⟩
  rw [List.getLast?_append_of_ne_nil _ (by simp), List.getLast?_append_of_ne_nil _ (by simp),
    List.getLast?_append_of_ne_nil _ (by simp), List.getLast?_append_of_ne_nil _ (by simp),
    List.getLast?_cons, List.getLast?_eq_some_getLast hne]
  rfl

theorem IsGrouped.mono (h : IsGrouped digit s)
    (hdigit : ∀ c ∈ s, digit c = true → digit' c = true) :
    IsGrouped digit' s := by
  obtain ⟨a, b, c, d, e, hsizes, hdigits, rfl⟩ := isGrouped_iff.mp h
  refine isGrouped_iff.mpr
    ⟨a, b, c, d, e, hsizes, fun g hg x hx => hdigit x ?_ (hdigits g hg x hx), rfl⟩
  simp only [List.mem_cons, List.not_mem_nil, or_false] at hg
  simp only [List.mem_append, List.mem_cons]
  rcases hg with rfl | rfl | rfl | rfl | rfl <;> simp [hx]

end

/-- Cut at its hyphens, a text of this form falls into its groups. -/
theorem isIdentifier_eq_true_iff {s : List Char} :
    isIdentifier s = true ↔ IsGrouped isIdentifierDigit (withoutFinalBreak s) := by
  unfold isIdentifier
  generalize withoutFinalBreak s = t
  simp only [Bool.and_eq_true, beq_iff_eq, List.all_eq_true]
  constructor
  · rintro ⟨hsizes, hdigits⟩
    refine ⟨_, hsizes, hdigits, ?_⟩
    obtain ⟨hjoin, -, hmore⟩ := join_runs (· == '-') t
    rw [intercalate_eq, List.flatMap_map]
    refine hjoin.trans (congrArg _ (List.flatMap_congr fun r hr => ?_))
    rw [beq_iff_eq.mp (hmore r hr).1]
  · rintro ⟨groups, hsizes, hdigits, rfl⟩
    have hhyphen : isIdentifierDigit '-' = false := by decide
    have hinside {g : List Char} (hg : ∀ c ∈ g, isIdentifierDigit c = true) :
        ∀ c ∈ g, (c == '-') = false := by
      rintro c hc
      refine beq_eq_false_iff_ne.mpr ?_
      rintro rfl
      rw [hg _ hc] at hhyphen
      cases hhyphen
    cases groups with
    | nil => cases hsizes
    | cons first others =>
      rw [List.forall_mem_cons] at hdigits
      have hruns : runs (· == '-') (first ++ others.flatMap fun g => '-' :: g) =
          (first, others.map fun g => ('-', g)) := by
        rw [← List.flatMap_map (fun g => ('-', g)) fun r => r.1 :: r.2]
        exact runs_join (hinside hdigits.1)
          (List.forall_mem_map.mpr fun g hg => ⟨rfl, hinside (hdigits.2 g hg)⟩)
      have hgroups : first :: (others.map fun g => ('-', g)).map (·.2) = first :: others := by
        rw [List.map_map]
        exact congrArg _ (List.map_id others)
      rw [intercalate_eq, hruns, hgroups]
      exact ⟨hsizes, List.forall_mem_cons.mpr hdigits⟩

/-- What is recognized by cutting a text into runs: an identifier with digits of all scripts, and
perhaps a line break behind it. -/
theorem isIdentifier_iff {s : List Char} : isIdentifier s = true ↔
    ∃ t, (s = t ∨ s = t ++ ['\n']) ∧ IsGrouped isIdentifierDigit t := by
  rw [isIdentifier_eq_true_iff]
  constructor
  · exact fun h => ⟨_, eq_withoutFinalBreak s, h⟩
  · rintro ⟨t, rfl | rfl, ht⟩
    · rwa [withoutFinalBreak_of_ne]
      obtain ⟨x, hx, hdigit⟩ := ht.exists_getLast?
      rintro hlast
      cases hx.symm.trans hlast
      cases hdigit
    · rwa [withoutFinalBreak_append]

/-! ### The pattern -/

/-- The regular expression of an identifier, for digits of base sixteen in either case. -/
def identifierRegex : Regex :=
  ⟨"^[\\da-f]\x7b8\x7d(?:-[\\da-f]\x7b4\x7d)\x7b3\x7d-[\\da-f]\x7b12\x7d$", none,
    { Flags.none with ignoreCase := true }⟩

/-- The characters of a group in the pattern. -/
def groupSet : List SetItem := [.category .digit false, .range 97 102]

/-- A group of so many digits in the pattern. -/
def groupNode (n : Nat) : Node := .repeated .most n (some n) [.set false groupSet]

/-- The program of the pattern. -/
def identifierProgram : Program where
  body := [.anchor .lineStart, groupNode 8, .repeated .most 3 (some 3) [.char 45, groupNode 4],
    .char 45, groupNode 12, .anchor .lineEnd]
  flags := { Flags.none with ignoreCase := true }
  names := []

/-- The pattern is compared with its program as a whole, by evaluation. -/
theorem compile_identifierRegex : identifierRegex.compile = .ok identifierProgram := by
  have hsame : identifierRegex.compile.toOption.any (·.isSame identifierProgram) = true := by
    decide +kernel
  exact Program.eq_ok_of_isSame hsame

/-- Without regard to case, the characters of a group in the pattern are the digits of an
identifier. -/
theorem matchesSet_groupSet (c : Char) :
    matchesSet identifierProgram.flags groupSet c.toNat = isIdentifierDigit c := by
  have hletter : SetItem.holds identifierProgram.flags .full (lowerCode c.toNat) (.range 97 102) =
      (decide ('a' ≤ c ∧ c ≤ 'f') || decide ('A' ≤ c ∧ c ≤ 'F')) := by
    have hcodes : ('a' ≤ c ∧ c ≤ 'f') ∨ ('A' ≤ c ∧ c ≤ 'F') ↔
        (97 ≤ c.toNat ∧ c.toNat ≤ 102) ∨ (65 ≤ c.toNat ∧ c.toNat ≤ 70) := Iff.rfl
    rw [Bool.eq_iff_iff, holds_letters_iff (by decide) (by decide), ← Bool.decide_or,
      decide_eq_true_iff, hcodes]
    omega
  rw [matchesSet_fold rfl (by decide), groupSet, List.any_cons, List.any_cons, List.any_nil,
    holds_digit rfl, hletter, isIdentifierDigit, Bool.or_false, Bool.or_assoc]

/-! ### What the pattern recognizes -/

/-- Texts of so many digits of an identifier. -/
def digitGroup (n : Nat) : Language Char :=
  {u | u.length = n ∧ ∀ c ∈ u, isIdentifierDigit c = true}

/-- The text of one hyphen. -/
def hyphen : Language Char := {['-']}

theorem recognizes_groupNode (n : Nat) :
    Recognizes (fun text => Node.run text identifierProgram.flags (groupNode n)) (digitGroup n) := by
  have hlanguage : rounds (letters ((Node.set false groupSet).matchesUnit identifierProgram.flags ·))
      n (some n) 0 = digitGroup n := by
    rw [rounds_self]
    ext u
    rw [mem_letters_pow]
    simp only [Node.matchesUnit, matchesSet_groupSet, Bool.bne_false]
    rfl
  rw [← hlanguage]
  exact recognizes_repeatedUnit rfl n (some n)

theorem recognizes_hyphen :
    Recognizes (fun text => Node.run text identifierProgram.flags (.char 45)) hyphen :=
  recognizes_char '-' (by decide)

/-- A hyphen and a group behind it. -/
theorem mem_hyphen_mul {n : Nat} {u : List Char} : u ∈ hyphen * (digitGroup n * 1) ↔
    ∃ g, (g.length = n ∧ ∀ c ∈ g, isIdentifierDigit c = true) ∧ u = '-' :: g := by
  rw [mul_one, Language.mem_mul]
  constructor
  · rintro ⟨_, rfl, g, hg, rfl⟩
    exact ⟨g, hg, rfl⟩
  · rintro ⟨g, hg, rfl⟩
    exact ⟨['-'], rfl, g, hg, rfl⟩

/-- What the program recognizes between the ends of the line. -/
def identifierLanguage : Language Char :=
  digitGroup 8 * ((hyphen * (digitGroup 4 * 1)) ^ 3 * (hyphen * (digitGroup 12 * 1)))

theorem mem_identifierLanguage {u : List Char} :
    u ∈ identifierLanguage ↔ IsGrouped isIdentifierDigit u := by
  rw [isGrouped_iff, identifierLanguage, pow_succ', pow_succ', pow_one]
  constructor
  · rintro ⟨a, ⟨ha, ha'⟩, _, ⟨_, ⟨_, hv, _, ⟨_, hv', _, hv'', rfl⟩, rfl⟩, _, hw, rfl⟩, rfl⟩
    obtain ⟨b, ⟨hb, hb'⟩, rfl⟩ := mem_hyphen_mul.mp hv
    obtain ⟨c, ⟨hc, hc'⟩, rfl⟩ := mem_hyphen_mul.mp hv'
    obtain ⟨d, ⟨hd, hd'⟩, rfl⟩ := mem_hyphen_mul.mp hv''
    obtain ⟨e, ⟨he, he'⟩, rfl⟩ := mem_hyphen_mul.mp hw
    refine ⟨a, b, c, d, e, ⟨ha, hb, hc, hd, he⟩, ?_, by simp⟩
    simp only [List.forall_mem_cons]
    exact ⟨ha', hb', hc', hd', he', nofun⟩
  · rintro ⟨a, b, c, d, e, ⟨ha, hb, hc, hd, he⟩, hdigits, rfl⟩
    simp only [List.forall_mem_cons] at hdigits
    obtain ⟨ha', hb', hc', hd', he', -⟩ := hdigits
    have hgroup {n : Nat} {g : List Char} (hsize : g.length = n)
        (hg : ∀ c ∈ g, isIdentifierDigit c = true) : '-' :: g ∈ hyphen * (digitGroup n * 1) :=
      mem_hyphen_mul.mpr ⟨g, ⟨hsize, hg⟩, rfl⟩
    exact ⟨a, ⟨ha, ha'⟩, _, ⟨_, ⟨_, hgroup hb hb', _, ⟨_, hgroup hc hc', _, hgroup hd hd', rfl⟩, rfl⟩,
      _, hgroup he he', rfl⟩, by simp⟩

/-- **The pattern of an identifier.**  Its program matches what cutting a text into runs
recognizes. -/
theorem identifierProgram_matchAt (s : List Char) :
    (identifierProgram.matchAt s.toArray 0).isSome = isIdentifier s := by
  have hempty : [] ∉ hyphen * (digitGroup 4 * 1) := fun h => by
    obtain ⟨g, -, heq⟩ := mem_hyphen_mul.mp h
    cases heq
  have hbody : Recognizes (fun text => runBody text identifierProgram.flags
      [groupNode 8, .repeated .most 3 (some 3) [.char 45, groupNode 4], .char 45, groupNode 12])
      identifierLanguage := by
    unfold identifierLanguage
    rw [← rounds_self]
    refine recognizes_cons (recognizes_groupNode 8) (recognizes_cons ?_
      (recognizes_cons recognizes_hyphen (recognizes_cons (recognizes_groupNode 12) recognizes_nil)))
    exact recognizes_repeated
      (recognizes_cons recognizes_hyphen (recognizes_cons (recognizes_groupNode 4) recognizes_nil))
      hempty fun m hm => by cases hm; exact Nat.le_refl 3
  rw [Bool.eq_iff_iff, isSome_matchAt_iff rfl rfl hbody, isIdentifier_iff]
  simp only [mem_identifierLanguage]

/-! ### What is validated -/

/-- In ASCII the digits of an identifier are those of base sixteen. -/
theorem isIdentifierDigit_of_ascii {c : Char} (hascii : c.toNat < 128) :
    isIdentifierDigit c = isHexDigit c := by
  have htable : ∀ k < 128, isIdentifierDigit (Char.ofNat k) = isHexDigit (Char.ofNat k) := by
    decide
  rw [← Char.ofNat_toNat c]
  exact htable _ hascii

/-- The digits of base sixteen are ASCII. -/
theorem toNat_lt_of_isHexDigit {c : Char} (h : isHexDigit c = true) : c.toNat < 128 := by
  have below {limit : Char} (hle : c ≤ limit) (hlimit : limit.toNat < 128) : c.toNat < 128 :=
    Nat.lt_of_le_of_lt hle hlimit
  unfold isHexDigit hexValue? at h
  split at h
  · next hc => exact below hc.2 (by decide)
  · split at h
    · next hc => exact below hc.2 (by decide)
    · split at h
      · next hc => exact below hc.2 (by decide)
      · cases h

/-- **Which texts are identifiers.**  Let a constraint for identifiers stand around the type of
texts, and let a text be given.

1. It is validated, as itself, exactly if it has the form of an identifier, perhaps with a line
   break behind it, where the digits are the letters from a to f in either case and the decimal digits of
   all scripts.
2. An identifier with digits of base sixteen, and nothing before or after it, is always validated.
3. Where all characters are ASCII and no line break ends the text, nothing else is.
4. Where no message comes from elsewhere, a text that is not validated has one issue.
5. The test is whether the program of the regular expression matches the text. -/
theorem identifiers_validated (ctx : Context) (w : World) (m message : Value) (abort : Bool)
    (id : Identity) (flavor : Flavor) (s : String) :
    let x : Value := .scalar id (.str flavor s)
    let l : Link := ⟨message, .uuid, "uuid", abort⟩
    let inner : Schema := .primitive m .string
    (∀ z, ctx.Validates w (l.around inner) x z ↔
      z = x ∧ ∃ t, (s.toList = t ∨ s.toList = t ++ ['\n']) ∧ IsGrouped isIdentifierDigit t) ∧
    (IsGrouped isHexDigit s.toList → ctx.Validates w (l.around inner) x x) ∧
    ((∀ c ∈ s.toList, c.toNat < 128) → s.toList.getLast? ≠ some '\n' →
      ctx.Validates w (l.around inner) x x → IsGrouped isHexDigit s.toList) ∧
    (ctx.Plain → message.isOptionalText = true → ¬ctx.Validates w (l.around inner) x x →
      l.Violated ctx w inner x x) ∧
    identifierRegex.compile = .ok identifierProgram ∧
    (ctx.Validates w (l.around inner) x x ↔
      (identifierProgram.matchAt s.toList.toArray 0).isSome) := by
  intro x l inner
  have hs : ctx.Validates w inner x x := validates_primitive_iff.mpr ⟨rfl, rfl⟩
  have htest : l.check.test ctx x = pure (isIdentifier s.toList) := rfl
  have hiff (z : Value) : ctx.Validates w (l.around inner) x z ↔
      z = x ∧ isIdentifier s.toList = true := l.validates_around_iff hs htest
  refine ⟨fun z => by rw [hiff, isIdentifier_iff], fun hform => ?_, fun hascii hend hvalid => ?_,
    fun hctx hmessage hinvalid => ?_, compile_identifierRegex, ?_⟩
  · exact (hiff x).mpr ⟨rfl, isIdentifier_iff.mpr
      ⟨_, .inl rfl, hform.mono fun c _ hc =>
        (isIdentifierDigit_of_ascii (toNat_lt_of_isHexDigit hc)).trans hc⟩⟩
  · obtain ⟨t, ht | ht, hform⟩ := isIdentifier_iff.mp ((hiff x).mp hvalid).2
    · rw [ht] at hascii ⊢
      exact hform.mono fun c hc h => (isIdentifierDigit_of_ascii (hascii c hc)).symm.trans h
    · rw [ht, List.getLast?_concat] at hend
      exact (hend rfl).elim
  · have hfails : isIdentifier s.toList = false :=
      Bool.eq_false_iff.mpr fun h => hinvalid ((hiff x).mpr ⟨rfl, h⟩)
    refine l.violated hctx hmessage nofun rfl rfl nofun ⟨_, rfl⟩ hs ?_
    rw [htest, hfails]
  · rw [hiff, identifierProgram_matchAt]
    exact and_iff_right rfl

/-- Two texts that are validated and do not have the form: an identifier with a line break behind
it, and one with an Arabic digit. -/
theorem identifiers_stray :
    let ctx : Context := ⟨.default, [], [], [], ⟨fun _ _ _ => .error .callable, 0⟩⟩
    let l : Link := ⟨.null, .uuid, "uuid", false⟩
    ∀ s ∈ ["123e4567-e89b-12d3-a456-426614174000\n", "\u066123e4567-e89b-12d3-a456-426614174000"],
      let x : Value := .scalar .fresh (.str .base s)
      ctx.Validates .empty (l.around (.primitive .null .string)) x x ∧
        ¬IsGrouped isHexDigit s.toList := by
  intro ctx l s hs x
  have hvalid (h : isIdentifier s.toList = true) :
      ctx.Validates .empty (l.around (.primitive .null .string)) x x :=
    (l.validates_around_iff (validates_primitive_iff.mpr ⟨rfl, rfl⟩) rfl).mpr ⟨rfl, h⟩
  simp only [List.mem_cons, List.not_mem_nil, or_false] at hs
  rcases hs with rfl | rfl
  · refine ⟨hvalid (by decide), fun hform => ?_⟩
    exact absurd hform.length_eq (by decide)
  · refine ⟨hvalid (by decide), fun hform => ?_⟩
    obtain ⟨a, b, c, d, e, ⟨ha, -⟩, hdigits, heq⟩ := isGrouped_iff.mp hform
    cases a with
    | nil => cases ha
    | cons digit a =>
      have hhead : "\u066123e4567-e89b-12d3-a456-426614174000".toList.head? = some digit := by
        rw [heq]
        rfl
      have hdigit : isHexDigit digit = true := hdigits _ List.mem_cons_self _ List.mem_cons_self
      obtain rfl : '\u0661' = digit := Option.some.inj hhead
      exact absurd hdigit (by decide)

end Conform
