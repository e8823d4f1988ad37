/-
  Conform/Proofs/Addresses.lean
  =============================
  **Mail addresses.**  An address has a name, an at sign and a domain.  Both sides are made of runs
  of characters with single separators between them; the last run of the domain stands behind a dot
  and has at least two letters (`IsMailAddress`).

  Addresses are recognized by cutting a text into runs.  The regular expression that describes them
  recognizes the same texts, although it finds the last dot by trying: what it takes for the front
  of a domain may have to be given back run by run.

  Beyond the form, a line break may stand behind an address, and the digits of a domain may be those
  of other scripts than ASCII.
-/
import Conform.Proofs.Folding
import Conform.Proofs.Recognition
import Conform.Proofs.Runs
import Conform.Proofs.Validity
import Conform.Schema.Build

namespace Conform

open Text Pattern Computability

/-! ### The form -/

/-- So many characters of a class, or more. -/
def IsRun (allowed : Char → Bool) (least : Nat) (s : List Char) : Prop :=
  least ≤ s.length ∧ ∀ c ∈ s, allowed c = true

/-- Runs that are not empty, with single separators between them. -/
def IsJoined (separator allowed : Char → Bool) (s : List Char) : Prop :=
  ∃ (first : List Char) (more : List (Char × List Char)), IsRun allowed 1 first ∧
    (∀ r ∈ more, separator r.1 = true ∧ IsRun allowed 1 r.2) ∧
    s = first ++ more.flatMap fun r => r.1 :: r.2

/-- A separator of a domain. -/
def isDivider (c : Char) : Bool := c == '.' || c == '-'

/-- A mail address: a name, an at sign, and a domain with a dot and letters at its end. -/
def IsMailAddress (digit : Char → Bool) (s : List Char) : Prop :=
  ∃ name front last : List Char, IsJoined (· == '.') isLocalChar name ∧
    IsJoined isDivider (fun c => digit c || isFoldedLetter c) front ∧
    IsRun isFoldedLetter 2 last ∧ s = name ++ '@' :: (front ++ '.' :: last)

section

variable {separator allowed allowed' digit digit' : Char → Bool} {s : List Char}

theorem IsRun.mono {least : Nat} (h : IsRun allowed least s)
    (hallowed : ∀ c ∈ s, allowed c = true → allowed' c = true) : IsRun allowed' least s :=
  ⟨h.1, fun c hc => hallowed c hc (h.2 c hc)⟩

theorem IsJoined.mono (h : IsJoined separator allowed s)
    (hallowed : ∀ c ∈ s, allowed c = true → allowed' c = true) : IsJoined separator allowed' s := by
  obtain ⟨first, more, hfirst, hmore, rfl⟩ := h
  refine ⟨first, more, hfirst.mono fun c hc => hallowed c (List.mem_append_left _ hc),
    fun r hr => ⟨(hmore r hr).1, (hmore r hr).2.mono fun c hc => ?_⟩, rfl⟩
  refine hallowed c (List.mem_append_right _ (List.mem_flatMap.mpr ⟨r, hr, ?_⟩))
  exact List.mem_cons_of_mem _ hc

/-- Joined runs have no other characters than those of the runs and the separators. -/
theorem IsJoined.forall_mem (h : IsJoined separator allowed s) :
    ∀ c ∈ s, separator c = true ∨ allowed c = true := by
  intro c hc
  obtain ⟨first, more, hfirst, hmore, rfl⟩ := h
  rcases List.mem_append.mp hc with hc | hc
  · exact .inr (hfirst.2 c hc)
  · obtain ⟨r, hr, hc⟩ := List.mem_flatMap.mp hc
    rcases List.mem_cons.mp hc with rfl | hc
    · exact .inl (hmore r hr).1
    · exact .inr ((hmore r hr).2.2 c hc)

theorem IsMailAddress.mono (h : IsMailAddress digit s)
    (hdigit : ∀ c ∈ s, digit c = true → digit' c = true) : IsMailAddress digit' s := by
  obtain ⟨name, front, last, hname, hfront, hlast, rfl⟩ := h
  refine ⟨name, front, last, hname, hfront.mono fun c hc hallowed => ?_, hlast, rfl⟩
  rw [Bool.or_eq_true] at hallowed ⊢
  exact hallowed.imp_left (hdigit c (by simp [hc]))

/-- An address ends with a letter. -/
theorem IsMailAddress.exists_getLast? (h : IsMailAddress digit s) :
    ∃ x, s.getLast? = some x ∧ isFoldedLetter x = true := by
  obtain ⟨name, front, last, -, -, ⟨hlength, hletters⟩, rfl⟩ := h
  have hne : last ≠ [] := List.ne_nil_of_length_pos (by omega)
  refine ⟨last.getLast hne, ?_, hletters _ (List.getLast_mem hne)⟩
  rw [List.getLast?_append_of_ne_nil _ (by simp), List.getLast?_cons,
    List.getLast?_append_of_ne_nil _ (by simp), List.getLast?_cons,
    List.getLast?_eq_some_getLast hne]
  rfl

/-! ### Cutting into runs -/

theorem isRun_iff : isRun allowed s = true ↔ IsRun allowed 1 s := by
  cases s <;> simp [isRun, IsRun]

/-- Where no separator is a character of a run, runs that are joined are found again. -/
theorem IsJoined.runs_eq {first : List Char} {more : List (Char × List Char)}
    (hdisjoint : ∀ c, allowed c = true → separator c = false) (hfirst : IsRun allowed 1 first)
    (hmore : ∀ r ∈ more, separator r.1 = true ∧ IsRun allowed 1 r.2) :
    runs separator (first ++ more.flatMap fun r => r.1 :: r.2) = (first, more) :=
  runs_join (fun c hc => hdisjoint c (hfirst.2 c hc)) fun r hr =>
    ⟨(hmore r hr).1, fun c hc => hdisjoint c ((hmore r hr).2.2 c hc)⟩

theorem dot_of_isLocalChar {c : Char} (h : isLocalChar c = true) : (c == '.') = false := by
  refine beq_eq_false_iff_ne.mpr ?_
  rintro rfl
  exact absurd h (by decide)

theorem isDivider_of_isDomainChar {c : Char} (h : isDomainChar c = true) : isDivider c = false := by
  refine Bool.eq_false_iff.mpr fun hdivider => ?_
  rcases Bool.or_eq_true_iff.mp hdivider with hc | hc
  · rw [beq_iff_eq.mp hc] at h
    exact absurd h (by decide)
  · rw [beq_iff_eq.mp hc] at h
    exact absurd h (by decide)

theorem isLocalPart_iff : isLocalPart s = true ↔ IsJoined (· == '.') isLocalChar s := by
  unfold isLocalPart
  simp only [Bool.and_eq_true, List.all_eq_true, isRun_iff]
  constructor
  · rintro ⟨hfirst, hmore⟩
    obtain ⟨hjoin, -, hseparators⟩ := join_runs (· == '.') s
    exact ⟨_, _, hfirst, fun r hr => ⟨(hseparators r hr).1, hmore r hr⟩, hjoin⟩
  · rintro ⟨first, more, hfirst, hmore, rfl⟩
    rw [IsJoined.runs_eq (fun _ => dot_of_isLocalChar) hfirst hmore]
    exact ⟨hfirst, fun r hr => (hmore r hr).2⟩

theorem isDomain_iff : isDomain s = true ↔ ∃ front last : List Char,
    IsJoined isDivider isDomainChar front ∧ IsRun isFoldedLetter 2 last ∧
      s = front ++ '.' :: last := by
  have hdivider : (fun c => c == '.' || c == '-') = isDivider := rfl
  unfold isDomain
  rw [hdivider]
  simp only [Bool.and_eq_true, List.all_eq_true, isRun_iff]
  constructor
  · rintro ⟨⟨hfirst, hmore⟩, hend⟩
    obtain ⟨hjoin, -, hseparators⟩ := join_runs isDivider s
    generalize runs isDivider s = cut at hfirst hmore hend hjoin hseparators
    obtain ⟨first, more⟩ := cut
    cases more using List.reverseRecOn with
    | nil => cases hend
    | append_singleton front final =>
      obtain ⟨separator, last⟩ := final
      simp only [List.getLast?_concat, Bool.and_eq_true, beq_iff_eq, decide_eq_true_eq,
        List.all_eq_true] at hend
      obtain ⟨⟨rfl, hlength⟩, hletters⟩ := hend
      refine ⟨first ++ front.flatMap fun r => r.1 :: r.2, last,
        ⟨first, front, hfirst, fun r hr => ?_, rfl⟩, ⟨hlength, hletters⟩, ?_⟩
      · have hr : r ∈ front ++ [('.', last)] := List.mem_append_left _ hr
        exact ⟨(hseparators r hr).1, hmore r hr⟩
      · simpa using hjoin
  · rintro ⟨_, last, ⟨first, front, hfirst, hfront, rfl⟩, ⟨hlength, hletters⟩, rfl⟩
    have hlast : IsRun isDomainChar 1 last :=
      ⟨by omega, fun c hc => Bool.or_eq_true_iff.mpr (.inr (hletters c hc))⟩
    have hmore : ∀ r ∈ front ++ [('.', last)], isDivider r.1 = true ∧ IsRun isDomainChar 1 r.2 := by
      intro r hr
      rcases List.mem_append.mp hr with hr | hr
      · exact hfront r hr
      · obtain rfl := List.mem_singleton.mp hr
        exact ⟨rfl, hlast⟩
    have hjoin : first ++ front.flatMap (fun r => r.1 :: r.2) ++ '.' :: last =
        first ++ (front ++ [('.', last)]).flatMap fun r => r.1 :: r.2 := by
      simp
    rw [hjoin, IsJoined.runs_eq (fun _ => isDivider_of_isDomainChar) hfirst hmore]
    refine ⟨⟨hfirst, fun r hr => (hmore r hr).2⟩, ?_⟩
    simpa [hlength] using hletters

end

/-- Cut at its at sign, an address falls into its name and its domain. -/
theorem isMailAddress_eq_true_iff {s : List Char} :
    isMailAddress s = true ↔ IsMailAddress isDecimal (withoutFinalBreak s) := by
  unfold isMailAddress
  generalize withoutFinalBreak s = t
  constructor
  · intro h
    obtain ⟨hjoin, -, hat⟩ := join_runs (· == '@') t
    split at h
    · next name sign domain hcut =>
      rw [hcut] at hjoin hat
      rw [Bool.and_eq_true, isLocalPart_iff, isDomain_iff] at h
      obtain ⟨hname, front, last, hfront, hlast, rfl⟩ := h
      obtain rfl : sign = '@' := beq_iff_eq.mp (hat _ List.mem_cons_self).1
      exact ⟨name, front, last, hname, hfront, hlast, by simpa using hjoin⟩
    · cases h
  · rintro ⟨name, front, last, hname, hfront, hlast, rfl⟩
    have hdomain : isDomain (front ++ '.' :: last) = true :=
      isDomain_iff.mpr ⟨front, last, hfront, hlast, rfl⟩
    have hnameAt : ∀ c ∈ name, (c == '@') = false := by
      refine fun c hc => beq_eq_false_iff_ne.mpr ?_
      rintro rfl
      exact absurd (hname.forall_mem '@' hc) (by decide)
    have hdomainAt : ∀ c ∈ front ++ '.' :: last, (c == '@') = false := by
      refine fun c hc => beq_eq_false_iff_ne.mpr ?_
      rintro rfl
      rw [List.mem_append, List.mem_cons] at hc
      rcases hc with hc | hc | hc
      · exact absurd (hfront.forall_mem '@' hc) (by decide)
      · cases hc
      · exact absurd (hlast.2 '@' hc) (by decide)
    have hcut : runs (· == '@')
        (name ++ [('@', front ++ '.' :: last)].flatMap fun r => r.1 :: r.2) =
          (name, [('@', front ++ '.' :: last)]) :=
      runs_join hnameAt (List.forall_mem_singleton.mpr ⟨rfl, hdomainAt⟩)
    rw [List.flatMap_cons, List.flatMap_nil, List.append_nil] at hcut
    rw [hcut]
    exact Bool.and_eq_true_iff.mpr ⟨isLocalPart_iff.mpr hname, hdomain⟩

/-- What is recognized by cutting a text into runs: an address with digits of all scripts in its
domain, and perhaps a line break behind it. -/
theorem isMailAddress_iff {s : List Char} : isMailAddress s = true ↔
    ∃ t, (s = t ∨ s = t ++ ['\n']) ∧ IsMailAddress isDecimal t := by
  rw [isMailAddress_eq_true_iff]
  constructor
  · exact fun h => ⟨_, eq_withoutFinalBreak s, h⟩
  · rintro ⟨t, rfl | rfl, ht⟩
    · rwa [withoutFinalBreak_of_ne]
      obtain ⟨x, hx, hletter⟩ := ht.exists_getLast?
      intro hlast
      cases hx.symm.trans hlast
      exact absurd hletter (by decide)
    · rwa [withoutFinalBreak_append]

/-! ### The pattern -/

/-- The regular expression of a mail address, for letters in either case. -/
def addressRegex : Regex :=
  ⟨"^[\\w+-]+(?:\\.[\\w+-]+)*@[\\da-z]+(?:[.-][\\da-z]+)*\\.[a-z]\x7b2,\x7d$", none,
    { Flags.none with ignoreCase := true }⟩

/-- The characters of a name in the pattern. -/
def localSet : List SetItem := [.category .word false, .char 43, .char 45]

/-- The separators of a domain in the pattern. -/
def dividerSet : List SetItem := [.char 46, .char 45]

/-- The characters of a domain in the pattern. -/
def domainSet : List SetItem := [.category .digit false, .range 97 122]

/-- A run of the pattern. -/
def runNode (items : List SetItem) (least : Nat) : Node :=
  .repeated .most least none [.set false items]

/-- The program of the pattern. -/
def addressProgram : Program where
  body := [.anchor .lineStart, runNode localSet 1,
    .repeated .most 0 none [.char 46, runNode localSet 1], .char 64, runNode domainSet 1,
    .repeated .most 0 none [.set false dividerSet, runNode domainSet 1], .char 46,
    runNode [.range 97 122] 2, .anchor .lineEnd]
  flags := { Flags.none with ignoreCase := true }
  names := []

/-- The pattern is compared with its program as a whole, by evaluation. -/
theorem compile_addressRegex : addressRegex.compile = .ok addressProgram := by
  have hsame : addressRegex.compile.toOption.any (·.isSame addressProgram) = true := by
    decide +kernel
  exact Program.eq_ok_of_isSame hsame

theorem matchesSet_localSet (c : Char) :
    matchesSet addressProgram.flags localSet c.toNat = isLocalChar c := by
  have hword : SetItem.holds addressProgram.flags .full c.toNat (.category .word false) =
      isWord c := by
    simp [SetItem.holds, Category.holds, addressProgram, Flags.none]
  have hplus : SetItem.holds addressProgram.flags .full c.toNat (.char 43) = (c == '+') :=
    holds_char '+' (by decide) (by decide) c
  have hhyphen : SetItem.holds addressProgram.flags .full c.toNat (.char 45) = (c == '-') :=
    holds_char '-' (by decide) (by decide) c
  rw [matchesSet_still rfl (by decide), localSet, List.any_cons, List.any_cons, List.any_cons,
    List.any_nil, hword, hplus, hhyphen, Bool.or_false, isLocalChar, Bool.or_assoc]

theorem matchesSet_dividerSet (c : Char) :
    matchesSet addressProgram.flags dividerSet c.toNat = isDivider c := by
  have hdot : SetItem.holds addressProgram.flags .full c.toNat (.char 46) = (c == '.') :=
    holds_char '.' (by decide) (by decide) c
  have hhyphen : SetItem.holds addressProgram.flags .full c.toNat (.char 45) = (c == '-') :=
    holds_char '-' (by decide) (by decide) c
  rw [matchesSet_still rfl (by decide), dividerSet, List.any_cons, List.any_cons, List.any_nil,
    hdot, hhyphen, Bool.or_false, isDivider]

theorem holds_letters (c : Char) :
    SetItem.holds addressProgram.flags .full (lowerCode c.toNat) (.range 97 122) =
      isFoldedLetter c := by
  have hcodes : ('a' ≤ c ∧ c ≤ 'z') ∨ ('A' ≤ c ∧ c ≤ 'Z') ↔
      (97 ≤ c.toNat ∧ c.toNat ≤ 122) ∨ (65 ≤ c.toNat ∧ c.toNat ≤ 90) := Iff.rfl
  rw [Bool.eq_iff_iff, holds_letters_iff (by decide) (by decide), isFoldedLetter]
  simp only [Bool.or_eq_true, decide_eq_true_eq, beq_iff_eq, hcodes]
  omega

theorem matchesSet_domainSet (c : Char) :
    matchesSet addressProgram.flags domainSet c.toNat = isDomainChar c := by
  rw [matchesSet_fold rfl (by decide), domainSet, List.any_cons, List.any_cons, List.any_nil,
    holds_digit rfl, holds_letters, Bool.or_false, isDomainChar]

theorem matchesSet_letterSet (c : Char) :
    matchesSet addressProgram.flags [.range 97 122] c.toNat = isFoldedLetter c := by
  rw [matchesSet_fold rfl (by decide), List.any_cons, List.any_nil, holds_letters, Bool.or_false]

/-! ### What the pattern recognizes -/

/-- The runs of a class. -/
def runLanguage (allowed : Char → Bool) (least : Nat) : Language Char := {u | IsRun allowed least u}

/-- The texts of one separator. -/
def separatorLanguage (separator : Char → Bool) : Language Char :=
  {u | ∃ c, u = [c] ∧ separator c = true}

section

variable {separator allowed : Char → Bool} {items : List SetItem} {flags : Flags} {u : List Char}

theorem recognizes_separator (hset : ∀ c : Char, matchesSet flags items c.toNat = separator c) :
    Recognizes (fun text => Node.run text flags (.set false items))
      (separatorLanguage separator) := by
  have hlanguage : letters ((Node.set false items).matchesUnit flags ·) =
      separatorLanguage separator := by
    ext u
    simp only [Node.matchesUnit, letters, separatorLanguage, hset, Bool.bne_false]
  rw [← hlanguage]
  exact recognizes_unit rfl

theorem recognizes_runNode (hset : ∀ c : Char, matchesSet flags items c.toNat = allowed c)
    (least : Nat) :
    Recognizes (fun text => Node.run text flags (runNode items least))
      (runLanguage allowed least) := by
  have hlanguage : rounds (letters ((Node.set false items).matchesUnit flags ·)) least none 0 =
      runLanguage allowed least := by
    ext u
    rw [mem_rounds_letters]
    simp only [Node.matchesUnit, hset, Bool.bne_false]
    exact and_congr_right fun _ => and_iff_right nofun
  rw [← hlanguage]
  exact recognizes_repeatedUnit rfl least none

/-- A separator and a run behind it. -/
theorem mem_separator_mul : u ∈ separatorLanguage separator * (runLanguage allowed 1 * 1) ↔
    ∃ c g, separator c = true ∧ IsRun allowed 1 g ∧ u = c :: g := by
  rw [mul_one, Language.mem_mul]
  constructor
  · rintro ⟨_, ⟨c, rfl, hc⟩, g, hg, rfl⟩
    exact ⟨c, g, hc, hg, rfl⟩
  · rintro ⟨c, g, hc, hg, rfl⟩
    exact ⟨[c], ⟨c, rfl, hc⟩, g, hg, rfl⟩

/-- Any number of runs, each with a separator before it. -/
theorem mem_separated_iff :
    u ∈ (separatorLanguage separator * (runLanguage allowed 1 * 1))∗ ↔
      ∃ more : List (Char × List Char), (∀ r ∈ more, separator r.1 = true ∧ IsRun allowed 1 r.2) ∧
        u = more.flatMap fun r => r.1 :: r.2 := by
  rw [Language.mem_kstar]
  constructor
  · rintro ⟨parts, rfl, hparts⟩
    induction parts with
    | nil => exact ⟨[], nofun, rfl⟩
    | cons part parts ih =>
      rw [List.forall_mem_cons, mem_separator_mul] at hparts
      obtain ⟨⟨c, g, hc, hg, rfl⟩, hparts⟩ := hparts
      obtain ⟨more, hmore, heq⟩ := ih hparts
      refine ⟨(c, g) :: more, List.forall_mem_cons.mpr ⟨⟨hc, hg⟩, hmore⟩, ?_⟩
      rw [List.flatten_cons, heq, List.flatMap_cons]
  · rintro ⟨more, hmore, rfl⟩
    refine ⟨more.map fun r => r.1 :: r.2, List.flatMap_def, List.forall_mem_map.mpr fun r hr => ?_⟩
    exact mem_separator_mul.mpr ⟨r.1, r.2, (hmore r hr).1, (hmore r hr).2, rfl⟩

/-- Runs with single separators between them, as a language. -/
theorem mem_joined_iff :
    u ∈ runLanguage allowed 1 * (separatorLanguage separator * (runLanguage allowed 1 * 1))∗ ↔
      IsJoined separator allowed u := by
  rw [Language.mem_mul]
  constructor
  · rintro ⟨first, hfirst, v, hv, rfl⟩
    obtain ⟨more, hmore, rfl⟩ := mem_separated_iff.mp hv
    exact ⟨first, more, hfirst, hmore, rfl⟩
  · rintro ⟨first, more, hfirst, hmore, rfl⟩
    exact ⟨first, hfirst, _, mem_separated_iff.mpr ⟨more, hmore, rfl⟩, rfl⟩

end

/-- What the program recognizes between the ends of the line. -/
def addressLanguage : Language Char :=
  runLanguage isLocalChar 1 * ((separatorLanguage (· == '.') * (runLanguage isLocalChar 1 * 1))∗ *
    ({['@']} * (runLanguage isDomainChar 1 *
      ((separatorLanguage isDivider * (runLanguage isDomainChar 1 * 1))∗ *
        ({['.']} * (runLanguage isFoldedLetter 2 * 1))))))

theorem mem_addressLanguage {u : List Char} :
    u ∈ addressLanguage ↔ IsMailAddress isDecimal u := by
  rw [addressLanguage, ← mul_assoc, ← mul_assoc (runLanguage isDomainChar 1),
    mul_one (runLanguage isFoldedLetter 2)]
  constructor
  · rintro ⟨name, hname, _, ⟨_, rfl, _, ⟨front, hfront, _, ⟨_, rfl, last, hlast, rfl⟩, rfl⟩, rfl⟩,
      rfl⟩
    exact ⟨name, front, last, mem_joined_iff.mp hname, mem_joined_iff.mp hfront, hlast, rfl⟩
  · rintro ⟨name, front, last, hname, hfront, hlast, rfl⟩
    exact ⟨name, mem_joined_iff.mpr hname, _, ⟨['@'], rfl, _, ⟨front, mem_joined_iff.mpr hfront, _,
      ⟨['.'], rfl, last, hlast, rfl⟩, rfl⟩, rfl⟩, rfl⟩

theorem recognizes_separated {separator allowed : Char → Bool} {flags : Flags} {node : Node}
    {items : List SetItem}
    (hnode : Recognizes (fun text => Node.run text flags node) (separatorLanguage separator))
    (hset : ∀ c : Char, matchesSet flags items c.toNat = allowed c) :
    Recognizes (fun text => Node.run text flags (.repeated .most 0 none [node, runNode items 1]))
      (separatorLanguage separator * (runLanguage allowed 1 * 1))∗ := by
  have hempty : [] ∉ separatorLanguage separator * (runLanguage allowed 1 * 1) := fun h => by
    obtain ⟨c, g, -, -, heq⟩ := mem_separator_mul.mp h
    cases heq
  rw [← rounds_any]
  have hround := recognizes_cons hnode (recognizes_cons (recognizes_runNode hset 1) recognizes_nil)
  exact recognizes_repeated hround hempty nofun

/-- **The pattern of a mail address.**  Its program matches what cutting a text into runs
recognizes. -/
theorem addressProgram_matchAt (s : List Char) :
    (addressProgram.matchAt s.toArray 0).isSome = isMailAddress s := by
  have hdot : Recognizes (fun text => Node.run text addressProgram.flags (.char 46)) {['.']} :=
    recognizes_char '.' (by decide)
  have hat : Recognizes (fun text => Node.run text addressProgram.flags (.char 64)) {['@']} :=
    recognizes_char '@' (by decide)
  have hseparator : separatorLanguage (· == '.') = {['.']} := by
    ext u
    constructor
    · rintro ⟨c, rfl, hc⟩
      rw [beq_iff_eq.mp hc]
      rfl
    · rintro rfl
      exact ⟨'.', rfl, rfl⟩
  have hbody : Recognizes (fun text => runBody text addressProgram.flags
      [runNode localSet 1, .repeated .most 0 none [.char 46, runNode localSet 1], .char 64,
        runNode domainSet 1, .repeated .most 0 none [.set false dividerSet, runNode domainSet 1],
        .char 46, runNode [.range 97 122] 2]) addressLanguage :=
    recognizes_cons (recognizes_runNode matchesSet_localSet 1) <|
    recognizes_cons (recognizes_separated (hseparator ▸ hdot) matchesSet_localSet) <|
    recognizes_cons hat <|
    recognizes_cons (recognizes_runNode matchesSet_domainSet 1) <|
    recognizes_cons
      (recognizes_separated (recognizes_separator matchesSet_dividerSet) matchesSet_domainSet) <|
    recognizes_cons hdot <|
    recognizes_cons (recognizes_runNode matchesSet_letterSet 2) recognizes_nil
  rw [Bool.eq_iff_iff, isSome_matchAt_iff rfl rfl hbody, isMailAddress_iff]
  simp only [mem_addressLanguage]

/-! ### What is validated -/

/-- The digits of ASCII are decimal digits. -/
theorem isDecimal_of_isDigit {c : Char} (h : c.isDigit = true) : isDecimal c = true := by
  have htable : ∀ k < 58, 48 ≤ k → isDecimal (Char.ofNat k) = true := by decide
  obtain ⟨hlow, hhigh⟩ := Char.isDigit_iff_toNat.mp h
  rw [← Char.ofNat_toNat c]
  exact htable _ (Nat.lt_succ_of_le hhigh) hlow

/-- **Which texts are mail addresses.**  Let a constraint for mail addresses stand around the type
of texts, and let a text be given.

1. It is validated, as itself, exactly if it has the form of an address, perhaps with a line break
   behind it, where the digits of the domain are the decimal digits of all scripts.
2. A text that does not end with a line break is validated exactly if it has this form.
3. An address with digits of ASCII alone in its domain is always validated.
4. Where a text has no other decimal digits than those of ASCII and no line break ends it, nothing
   else is.
5. Where no message comes from elsewhere, a text that is not validated has one issue.
6. The test is whether the program of the regular expression matches the text. -/
theorem addresses_validated (ctx : Context) (w : World) (m message : Value) (abort : Bool)
    (id : Identity) (flavor : Flavor) (s : String) :
    let x : Value := .scalar id (.str flavor s)
    let l : Link := ⟨message, .email, "email", abort⟩
    let inner : Schema := .primitive m .string
    (∀ z, ctx.Validates w (l.around inner) x z ↔
      z = x ∧ ∃ t, (s.toList = t ∨ s.toList = t ++ ['\n']) ∧ IsMailAddress isDecimal t) ∧
    (s.toList.getLast? ≠ some '\n' →
      (ctx.Validates w (l.around inner) x x ↔ IsMailAddress isDecimal s.toList)) ∧
    (IsMailAddress Char.isDigit s.toList → ctx.Validates w (l.around inner) x x) ∧
    ((∀ c ∈ s.toList, isDecimal c = true → c.isDigit = true) → s.toList.getLast? ≠ some '\n' →
      ctx.Validates w (l.around inner) x x → IsMailAddress Char.isDigit s.toList) ∧
    (ctx.Plain → message.isOptionalText = true → ¬ctx.Validates w (l.around inner) x x →
      l.Violated ctx w inner x x) ∧
    addressRegex.compile = .ok addressProgram ∧
    (ctx.Validates w (l.around inner) x x ↔
      (addressProgram.matchAt s.toList.toArray 0).isSome) := by
  intro x l inner
  have hs : ctx.Validates w inner x x := validates_primitive_iff.mpr ⟨rfl, rfl⟩
  have htest : l.check.test ctx x = pure (isMailAddress s.toList) := rfl
  have hiff (z : Value) : ctx.Validates w (l.around inner) x z ↔
      z = x ∧ isMailAddress s.toList = true := l.validates_around_iff hs htest
  have hform (hend : s.toList.getLast? ≠ some '\n') :
      ctx.Validates w (l.around inner) x x ↔ IsMailAddress isDecimal s.toList := by
    rw [hiff, isMailAddress_eq_true_iff, withoutFinalBreak_of_ne hend]
    exact and_iff_right rfl
  refine ⟨fun z => by rw [hiff, isMailAddress_iff], hform, fun haddress => ?_,
    fun hdigits hend hvalid => ?_, fun hctx hmessage hinvalid => ?_, compile_addressRegex, ?_⟩
  · refine (hiff x).mpr ⟨rfl, isMailAddress_iff.mpr ⟨_, .inl rfl, ?_⟩⟩
    exact haddress.mono fun c _ => isDecimal_of_isDigit
  · exact ((hform hend).mp hvalid).mono hdigits
  · have hfails : isMailAddress s.toList = false :=
      Bool.eq_false_iff.mpr fun h => hinvalid ((hiff x).mpr ⟨rfl, h⟩)
    refine l.violated hctx hmessage nofun rfl rfl nofun ⟨_, rfl⟩ hs ?_
    rw [htest, hfails]
  · rw [hiff, addressProgram_matchAt]
    exact and_iff_right rfl

/-- A text that is validated although the digit in its domain is not one of ASCII. -/
theorem addresses_stray :
    let ctx : Context := ⟨.default, [], [], [], ⟨fun _ _ _ => .error .callable, 0⟩⟩
    let l : Link := ⟨.null, .email, "email", false⟩
    let x : Value := .scalar .fresh (.str .base "a@\u0661.com")
    ctx.Validates .empty (l.around (.primitive .null .string)) x x ∧
      ¬IsMailAddress Char.isDigit "a@\u0661.com".toList := by
  intro ctx l x
  have hvalid : isMailAddress "a@\u0661.com".toList = true := by decide
  have hinner : ctx.Validates .empty (.primitive .null .string) x x :=
    validates_primitive_iff.mpr ⟨rfl, rfl⟩
  refine ⟨(l.validates_around_iff hinner rfl).mpr ⟨rfl, hvalid⟩, ?_⟩
  rintro ⟨name, front, last, hname, hfront, -, heq⟩
  have heq : ['a', '@', '\u0661', '.', 'c', 'o', 'm'] = name ++ '@' :: (front ++ '.' :: last) := heq
  have hfirst : front ≠ [] := by
    obtain ⟨first, more, ⟨hlength, -⟩, -, rfl⟩ := hfront
    exact List.append_ne_nil_of_left_ne_nil (List.ne_nil_of_length_pos hlength) _
  -- the at sign ends the name, so the digit is the first character of the domain
  match name, front with
  | [], _ => simp at heq
  | [_], [] => exact hfirst rfl
  | [_], c :: front =>
    obtain rfl : '\u0661' = c := (List.cons.inj (List.cons.inj (List.cons.inj heq).2).2).1
    exact absurd (hfront.forall_mem '\u0661' List.mem_cons_self) (by decide)
  | _ :: c :: name, _ =>
    obtain rfl : '@' = c := (List.cons.inj (List.cons.inj heq).2).1
    exact absurd (hname.forall_mem '@' (by simp)) (by decide)

end Conform
