/-
  Conform/Proofs/Recognition.lean
  ===============================
  **What patterns recognize.**  Matching is a search with a continuation; what it finds can be said
  without one.  A part of a pattern recognizes a language if from any position it leads on from the
  ends of the words of the language, and from no other (`Recognizes`).

  A sequence recognizes the products of words of its parts.  A repetition that takes as many rounds
  as it can recognizes the powers that its bounds allow: a shorter match is found by giving rounds
  back.  The bound on the number of steps and the test for rounds without progress do not get in the
  way as long as no round is empty.
-/
import Conform.Pattern.Match
import Mathlib.Computability.Language
import Mathlib.Data.List.TakeWhile

namespace Conform.Pattern

open Computability

/-- A part of a pattern leads on from the ends of the words of a language. -/
def Recognizes (run : Array Char → Next → Next) (L : Language Char) : Prop :=
  ∀ (before rest : List Char) (groups : List (Nat × Nat × Nat)) (next : Next),
    (run (before ++ rest).toArray next ⟨before.length, groups⟩).isSome ↔
      ∃ u v, rest = u ++ v ∧ u ∈ L ∧ (next ⟨before.length + u.length, groups⟩).isSome

/-- The single characters of a class. -/
def letters (accepts : Nat → Bool) : Language Char :=
  {u | ∃ c, u = [c] ∧ accepts c.toNat = true}

/-- What rounds of a language come to, of which there are at least `min` and, if that is given, at
most `max`, when `done` of them are over. -/
def rounds (L : Language Char) (min : Nat) (max : Option Nat) (done : Nat) : Language Char :=
  {u | ∃ k, min ≤ done + k ∧ (∀ m ∈ max, done + k ≤ m) ∧ u ∈ L ^ k}

section

variable {flags : Flags} {L M : Language Char} {u v : List Char} {accepts : Nat → Bool}

theorem mem_letters_pow {k : Nat} :
    u ∈ letters accepts ^ k ↔ u.length = k ∧ ∀ c ∈ u, accepts c.toNat = true := by
  induction k generalizing u with
  | zero =>
    rw [pow_zero, Language.mem_one, List.length_eq_zero_iff]
    exact ⟨fun h => ⟨h, by simp [h]⟩, fun h => h.1⟩
  | succ k ih =>
    rw [pow_succ', Language.mem_mul]
    constructor
    · rintro ⟨_, ⟨c, rfl, hc⟩, v, hv, rfl⟩
      obtain ⟨hlength, hall⟩ := ih.mp hv
      exact ⟨by simp [hlength], by simpa using ⟨hc, hall⟩⟩
    · rintro ⟨hlength, hall⟩
      cases u with
      | nil => cases hlength
      | cons c v =>
        rw [List.forall_mem_cons] at hall
        exact ⟨[c], ⟨c, rfl, hall.1⟩, v, ih.mpr ⟨Nat.succ.inj hlength, hall.2⟩, rfl⟩

/-- With bounds that are the same there is one power. -/
theorem rounds_self (L : Language Char) (n : Nat) : rounds L n (some n) 0 = L ^ n := by
  ext u
  constructor
  · rintro ⟨k, hmin, hmax, hu⟩
    obtain rfl : n = k := by
      have hmax := hmax n rfl
      omega
    exact hu
  · exact fun hu => ⟨n, by omega, fun m hm => by cases hm; omega, hu⟩

/-- Without bounds all powers are admitted. -/
theorem rounds_any (L : Language Char) : rounds L 0 none 0 = L∗ := by
  ext u
  rw [Language.kstar_eq_iSup_pow, Language.mem_iSup]
  constructor
  · rintro ⟨k, -, -, hu⟩
    exact ⟨k, hu⟩
  · rintro ⟨k, hu⟩
    exact ⟨k, Nat.zero_le _, nofun, hu⟩

/-- Rounds of single characters. -/
theorem mem_rounds_letters {min : Nat} {max : Option Nat} :
    u ∈ rounds (letters accepts) min max 0 ↔
      min ≤ u.length ∧ (∀ m ∈ max, u.length ≤ m) ∧ ∀ c ∈ u, accepts c.toNat = true := by
  constructor
  · rintro ⟨k, hmin, hmax, hu⟩
    obtain ⟨rfl, hall⟩ := mem_letters_pow.mp hu
    rw [Nat.zero_add] at hmin hmax
    exact ⟨hmin, hmax, hall⟩
  · rintro ⟨hmin, hmax, hall⟩
    rw [← Nat.zero_add u.length] at hmin hmax
    exact ⟨u.length, hmin, hmax, mem_letters_pow.mpr ⟨rfl, hall⟩⟩

/-- Either no round follows, or one does and then the others. -/
theorem mem_rounds_iff {min done : Nat} {max : Option Nat} (hdone : ∀ m ∈ max, done ≤ m) :
    u ∈ rounds L min max done ↔ (min ≤ done ∧ u = []) ∨
      ((∀ m ∈ max, done < m) ∧ u ∈ L * rounds L min max (done + 1)) := by
  constructor
  · rintro ⟨k, hmin, hmax, hu⟩
    cases k with
    | zero =>
      rw [pow_zero] at hu
      exact .inl ⟨hmin, (Language.mem_one u).mp hu⟩
    | succ k =>
      rw [pow_succ'] at hu
      obtain ⟨v, hv, w, hw, rfl⟩ := hu
      refine .inr ⟨fun m hm => ?_, v, hv, w, ⟨k, by omega, fun m hm => ?_, hw⟩, rfl⟩
      · have := hmax m hm
        omega
      · have := hmax m hm
        omega
  · rintro (⟨hmin, rfl⟩ | ⟨-, v, hv, w, ⟨k, hmin, hmax, hw⟩, rfl⟩)
    · exact ⟨0, hmin, hdone, (Language.mem_one _).mpr rfl⟩
    · refine ⟨k + 1, by omega, fun m hm => ?_, ?_⟩
      · have := hmax m hm
        omega
      · rw [pow_succ']
        exact ⟨v, hv, w, hw, rfl⟩

/-! ### Sequences -/

theorem recognizes_nil : Recognizes (fun text => runBody text flags []) 1 := by
  intro before rest groups next
  simp only [runBody]
  constructor
  · exact fun h => ⟨[], rest, rfl, (Language.mem_one _).mpr rfl, h⟩
  · rintro ⟨u, v, -, hu, h⟩
    obtain rfl := (Language.mem_one _).mp hu
    exact h

/-- After a part that recognizes `L` comes something that, wherever a word of `L` ends, leads on from
the ends of the words of `M`. -/
theorem Recognizes.andThen {run : Array Char → Next → Next} (hrun : Recognizes run L)
    {before rest : List Char} {groups : List (Nat × Nat × Nat)} {after next : Next}
    (hafter : ∀ u v, rest = u ++ v → u ∈ L →
      ((after ⟨(before ++ u).length, groups⟩).isSome ↔
        ∃ w t, v = w ++ t ∧ w ∈ M ∧ (next ⟨(before ++ u).length + w.length, groups⟩).isSome)) :
    (run (before ++ rest).toArray after ⟨before.length, groups⟩).isSome ↔
      ∃ w t, rest = w ++ t ∧ w ∈ L * M ∧ (next ⟨before.length + w.length, groups⟩).isSome := by
  rw [hrun]
  simp only [List.length_append] at hafter
  constructor
  · rintro ⟨u, v, hrest, hu, h⟩
    obtain ⟨w, t, rfl, hw, h⟩ := (hafter u v hrest hu).mp h
    refine ⟨u ++ w, t, by rw [hrest, List.append_assoc], ⟨u, hu, w, hw, rfl⟩, ?_⟩
    rwa [List.length_append, ← Nat.add_assoc]
  · rintro ⟨_, t, hrest, ⟨u, hu, w, hw, rfl⟩, h⟩
    rw [List.append_assoc] at hrest
    refine ⟨u, w ++ t, hrest, hu, (hafter u _ hrest hu).mpr ⟨w, t, rfl, hw, ?_⟩⟩
    rwa [List.length_append, ← Nat.add_assoc] at h

theorem recognizes_cons {node : Node} {body : List Node}
    (hnode : Recognizes (fun text => Node.run text flags node) L)
    (hbody : Recognizes (fun text => runBody text flags body) M) :
    Recognizes (fun text => runBody text flags (node :: body)) (L * M) := by
  intro before rest groups next
  simp only [runBody]
  refine hnode.andThen fun u v hrest _ => ?_
  rw [hrest, ← List.append_assoc]
  exact hbody (before ++ u) v groups next

/-! ### Single characters -/

theorem run_unit {node : Node} (hnode : node.isUnit = true) (text : Array Char) (next : Next)
    (c : Cursor) :
    Node.run text flags node next c = runUnit text (node.matchesUnit flags ·) next c := by
  cases node <;> first | rfl | cases hnode

/-- What stands at the end of a part of a text. -/
theorem getElem?_at_length (before rest : List Char) :
    (before ++ rest).toArray[before.length]? = rest.head? := by
  rw [List.getElem?_toArray, List.getElem?_append_right (Nat.le_refl _), Nat.sub_self,
    List.head?_eq_getElem?]

theorem recognizes_unit {node : Node} (hnode : node.isUnit = true) :
    Recognizes (fun text => Node.run text flags node) (letters (node.matchesUnit flags ·)) := by
  intro before rest groups next
  simp only [run_unit hnode, runUnit, getElem?_at_length]
  cases rest with
  | nil =>
    refine iff_of_false Bool.false_ne_true ?_
    rintro ⟨u, v, heq, ⟨c, rfl, -⟩, -⟩
    cases heq
  | cons c rest =>
    simp only [List.head?_cons]
    constructor
    · intro h
      split at h
      · next haccepts => exact ⟨[c], rest, rfl, ⟨c, rfl, haccepts⟩, h⟩
      · cases h
    · rintro ⟨_, v, heq, ⟨c', rfl, haccepts⟩, h⟩
      obtain ⟨rfl, rfl⟩ := List.cons.inj heq
      rwa [if_pos haccepts]

/-- A literal character without other forms is matched by itself alone. -/
theorem matchesChar_eq {literal : Char} (hmoves : flags.folding.moves literal.toNat = false)
    (c : Char) : matchesChar flags literal.toNat c.toNat = (c == literal) := by
  rw [matchesChar, hmoves, Bool.not_false, if_pos rfl, Bool.eq_iff_iff, beq_iff_eq, beq_iff_eq]
  exact Char.toNat_inj

/-- Such a character recognizes the text of itself. -/
theorem recognizes_char (literal : Char) (hmoves : flags.folding.moves literal.toNat = false) :
    Recognizes (fun text => Node.run text flags (.char literal.toNat)) {[literal]} := by
  have hlanguage : letters ((Node.char literal.toNat).matchesUnit flags ·) = {[literal]} := by
    have hmatches (c : Char) :
        (Node.char literal.toNat).matchesUnit flags c.toNat = true ↔ c = literal :=
      (Bool.eq_iff_iff.mp (matchesChar_eq hmoves c)).trans beq_iff_eq
    ext u
    constructor
    · rintro ⟨c, rfl, hc⟩
      rw [(hmatches c).mp hc]
      rfl
    · rintro rfl
      exact ⟨literal, rfl, (hmatches literal).mpr rfl⟩
  rw [← hlanguage]
  exact recognizes_unit rfl

/-! ### Repeated characters -/

/-- Single characters are counted as far as they match. -/
theorem unitRun_eq (before rest : List Char) (limit : Nat) :
    unitRun accepts (before ++ rest).toArray limit before.length =
      ((rest.take limit).takeWhile fun c => accepts c.toNat).length := by
  induction limit generalizing before rest with
  | zero => simp [unitRun]
  | succ limit ih =>
    rw [unitRun, getElem?_at_length]
    cases rest with
    | nil => rfl
    | cons c rest =>
      have hnext := ih (before ++ [c]) rest
      rw [List.append_assoc, List.singleton_append, List.length_append, List.length_singleton]
        at hnext
      simp only [List.head?_cons, List.take_succ_cons, List.takeWhile_cons]
      split
      · rw [hnext, List.length_cons]
      · rfl

/-- A start of a text is within what is counted if the limit admits it and all of it matches. -/
theorem le_unitRun_iff {before rest : List Char} {limit k : Nat} :
    k ≤ unitRun accepts (before ++ rest).toArray limit before.length ↔
      k ≤ limit ∧ ∃ v w, rest = v ++ w ∧ v.length = k ∧ ∀ c ∈ v, accepts c.toNat = true := by
  rw [unitRun_eq]
  constructor
  · intro hk
    have hprefix : (rest.take limit).takeWhile (fun c => accepts c.toNat) <+: rest :=
      (List.takeWhile_prefix _).trans (List.take_prefix _ _)
    obtain ⟨w, hw⟩ := hprefix
    have hall : ∀ c ∈ (rest.take limit).takeWhile (fun c => accepts c.toNat),
        accepts c.toNat = true :=
      fun c hc => List.mem_takeWhile_imp (p := fun c : Char => accepts c.toNat) hc
    have hlimit : k ≤ limit :=
      hk.trans ((List.takeWhile_prefix _).length_le.trans (List.length_take_le _ _))
    generalize (rest.take limit).takeWhile (fun c => accepts c.toNat) = v at hk hw hall
    refine ⟨hlimit, v.take k, v.drop k ++ w, ?_, List.length_take_of_le hk,
      fun c hc => hall c (List.mem_of_mem_take hc)⟩
    rw [← List.append_assoc, List.take_append_drop, hw]
  · rintro ⟨hlimit, v, w, rfl, rfl, hall⟩
    rw [List.take_append, List.take_of_length_le hlimit, List.takeWhile_append_of_pos hall,
      List.length_append]
    exact Nat.le_add_right _ _

/-- Fewer characters are tried until the rest matches. -/
theorem isSome_tryMost {least count : Nat} {c : Cursor} {next : Next} :
    (tryMost least c next count).isSome ↔
      ∃ k, least ≤ k ∧ k ≤ count ∧ (next { c with index := c.index + k }).isSome := by
  induction count with
  | zero =>
    rw [tryMost]
    split
    · next h =>
      subst h
      exact ⟨fun h => ⟨0, Nat.le_refl 0, Nat.le_refl 0, h⟩,
        fun ⟨k, _, hk, h⟩ => by rwa [Nat.le_zero.mp hk] at h⟩
    · next h =>
      refine iff_of_false Bool.false_ne_true ?_
      rintro ⟨k, hleast, hk, -⟩
      omega
  | succ count ih =>
    rw [tryMost]
    split
    · next hless =>
      refine iff_of_false Bool.false_ne_true ?_
      rintro ⟨k, hleast, hk, -⟩
      omega
    · next hless =>
      split
      · next r hr =>
        exact iff_of_true rfl ⟨count + 1, Nat.not_lt.mp hless, Nat.le_refl _, by rw [hr]; rfl⟩
      · next hnone =>
        rw [ih]
        constructor
        · exact fun ⟨k, hleast, hk, h⟩ => ⟨k, hleast, Nat.le_succ_of_le hk, h⟩
        · rintro ⟨k, hleast, hk, h⟩
          refine ⟨k, hleast, Nat.le_of_lt_succ (Nat.lt_of_le_of_ne hk ?_), h⟩
          rintro rfl
          rw [hnone] at h
          cases h

/-- A repeated single character recognizes as many of them as its bounds allow. -/
theorem recognizes_repeatedUnit {node : Node} (hnode : node.isUnit = true) (min : Nat)
    (max : Option Nat) :
    Recognizes (fun text => Node.run text flags (.repeated .most min max [node]))
      (rounds (letters (node.matchesUnit flags ·)) min max 0) := by
  intro before rest groups next
  have hleft : (before ++ rest).toArray.size - before.length = rest.length := by simp
  have within (limit : Nat) (hlimit : ∀ k, k ≤ limit ↔ (∀ m ∈ max, k ≤ m) ∧ k ≤ rest.length) :
      (let most := unitRun (node.matchesUnit flags ·) (before ++ rest).toArray limit before.length
        if most < min then none else tryMost min ⟨before.length, groups⟩ next most).isSome ↔
      ∃ u v, rest = u ++ v ∧ u ∈ rounds (letters (node.matchesUnit flags ·)) min max 0 ∧
        (next ⟨before.length + u.length, groups⟩).isSome := by
    constructor
    · intro h
      dsimp only at h
      split at h
      · cases h
      · obtain ⟨k, hmin, hk, hnext⟩ := isSome_tryMost.mp h
        obtain ⟨hlim, u, v, hrest, rfl, hall⟩ := le_unitRun_iff.mp hk
        have hmax := ((hlimit _).mp hlim).1
        exact ⟨u, v, hrest, mem_rounds_letters.mpr ⟨hmin, hmax, hall⟩, hnext⟩
    · rintro ⟨u, v, hrest, hu, hnext⟩
      obtain ⟨hmin, hmax, hall⟩ := mem_rounds_letters.mp hu
      have hlim : u.length ≤ limit := (hlimit _).mpr ⟨hmax, by simp [hrest]⟩
      have hk : u.length ≤ unitRun (node.matchesUnit flags ·) (before ++ rest).toArray limit
          before.length := le_unitRun_iff.mpr ⟨hlim, u, v, hrest, rfl, hall⟩
      dsimp only
      rw [if_neg (Nat.not_lt.mpr (hmin.trans hk))]
      exact isSome_tryMost.mpr ⟨u.length, hmin, hk, hnext⟩
  simp only [Node.run, if_pos hnode, hleft]
  cases max with
  | none => exact within rest.length (by simp)
  | some m => exact within (Nat.min m rest.length) fun k => by simp

/-! ### Repeated sequences -/

/-- A repetition either ends here or has another round; the one is possible if there have been
enough, the other if there have not, or if another is admitted and the last one has got on. -/
theorem isSome_repeatMost_succ {body : Next → Next} {next : Next} {min : Nat} {max : Option Nat}
    {steps done : Nat} {last : Option Nat} {c : Cursor} :
    (repeatMost body next min max (steps + 1) done last c).isSome ↔
      (min ≤ done ∧ (next c).isSome) ∨
        (done < min ∨ ((∀ m ∈ max, done < m) ∧ last ≠ some c.index)) ∧
          (body (repeatMost body next min max steps (done + 1)
            (if done < min then last else some c.index)) c).isSome := by
  conv_lhs => unfold repeatMost
  by_cases hless : done < min
  · simp [hless]
  · rw [if_neg hless, if_neg hless, or_iff_right hless, iff_true_intro (Nat.not_lt.mp hless),
      true_and]
    by_cases hmore : (∀ m ∈ max, done < m) ∧ last ≠ some c.index
    · rw [if_pos, iff_true_intro hmore, true_and]
      · -- the end is tried where another round leads nowhere
        cases body (repeatMost body next min max steps (done + 1) (some c.index)) c <;> simp
      · cases max <;> simpa using hmore
    · rw [if_neg, iff_false_intro hmore, false_and, or_false]
      cases max <;> simpa using hmore

/-- The rounds that follow when some are over, of a part that recognizes a language without the
empty word. -/
theorem isSome_repeatMost {body : Array Char → Next → Next} (hbody : Recognizes body L)
    (hempty : [] ∉ L) {min : Nat} {max : Option Nat} (hmin : ∀ m ∈ max, min ≤ m) {next : Next}
    {groups : List (Nat × Nat × Nat)} {steps done : Nat} {last : Option Nat}
    {before rest : List Char} (hsteps : min - done + rest.length < steps)
    (hlast : ∀ i ∈ last, i < before.length) (hdone : ∀ m ∈ max, done ≤ m) :
    (repeatMost (body (before ++ rest).toArray) next min max steps done last
        ⟨before.length, groups⟩).isSome ↔
      ∃ u v, rest = u ++ v ∧ u ∈ rounds L min max done ∧
        (next ⟨before.length + u.length, groups⟩).isSome := by
  induction steps generalizing done last before rest with
  | zero => exact absurd hsteps (Nat.not_lt_zero _)
  | succ steps ih =>
    have hrounds : (∃ u v, rest = u ++ v ∧ u ∈ rounds L min max done ∧
        (next ⟨before.length + u.length, groups⟩).isSome) ↔
        (min ≤ done ∧ (next ⟨before.length, groups⟩).isSome) ∨
          ((∀ m ∈ max, done < m) ∧ ∃ u v, rest = u ++ v ∧ u ∈ L * rounds L min max (done + 1) ∧
            (next ⟨before.length + u.length, groups⟩).isSome) := by
      constructor
      · rintro ⟨u, v, hrest, hu, h⟩
        rcases (mem_rounds_iff hdone).mp hu with ⟨hle, rfl⟩ | ⟨hmore, hu⟩
        · exact .inl ⟨hle, h⟩
        · exact .inr ⟨hmore, u, v, hrest, hu, h⟩
      · rintro (⟨hle, h⟩ | ⟨hmore, u, v, hrest, hu, h⟩)
        · exact ⟨[], rest, rfl, (mem_rounds_iff hdone).mpr (.inl ⟨hle, rfl⟩), h⟩
        · exact ⟨u, v, hrest, (mem_rounds_iff hdone).mpr (.inr ⟨hmore, hu⟩), h⟩
    have hmore : (done < min ∨ ((∀ m ∈ max, done < m) ∧ last ≠ some before.length)) ↔
        ∀ m ∈ max, done < m := by
      constructor
      · exact fun h m hm => h.elim (fun hless => hless.trans_le (hmin m hm)) fun h => h.1 m hm
      · exact fun h => .inr ⟨h, fun heq => Nat.lt_irrefl _ (hlast _ heq)⟩
    rw [isSome_repeatMost_succ, hrounds, hmore]
    refine or_congr Iff.rfl (and_congr_right fun hmore => hbody.andThen fun u v hrest hu => ?_)
    -- a round is not empty: the text ahead gets shorter, and the next round starts further on
    have hpos : 0 < u.length := List.length_pos_of_ne_nil fun h => hempty (h ▸ hu)
    rw [hrest, ← List.append_assoc]
    rw [hrest, List.length_append] at hsteps
    refine ih (by omega) (fun i hi => ?_) hmore
    have hle : i ≤ before.length := by
      split at hi
      · exact (hlast i hi).le
      · exact (Option.some.inj hi).ge
    rw [List.length_append]
    omega

/-- A repeated sequence without an empty word recognizes as many rounds as its bounds allow. -/
theorem recognizes_repeated {first second : Node} {others : List Node}
    (hbody : Recognizes (fun text => runBody text flags (first :: second :: others)) L)
    (hempty : [] ∉ L) {min : Nat} {max : Option Nat} (hmin : ∀ m ∈ max, min ≤ m) :
    Recognizes
      (fun text => Node.run text flags (.repeated .most min max (first :: second :: others)))
      (rounds L min max 0) := by
  intro before rest groups next
  have hleft : (before ++ rest).toArray.size - before.length = rest.length := by simp
  simp only [Node.run, hleft]
  exact isSome_repeatMost hbody hempty hmin (by omega) nofun fun m _ => Nat.zero_le m

/-! ### Whole lines -/

theorem runBody_append (text : Array Char) (first second : List Node) (next : Next) (c : Cursor) :
    runBody text flags (first ++ second) next c =
      runBody text flags first (runBody text flags second next) c := by
  induction first generalizing c with
  | nil => rw [List.nil_append, runBody]
  | cons node first ih =>
    rw [List.cons_append, runBody, runBody]
    exact congrArg (fun next => Node.run text flags node next c) (funext ih)

/-- The end of the line is the end of the text, or a line break right before it. -/
theorem lineEnd_holds_iff (hmultiline : flags.multiline = false) (u v : List Char) :
    Anchor.lineEnd.holds flags (u ++ v).toArray u.length = true ↔ v = [] ∨ v = ['\n'] := by
  simp only [Anchor.holds, breakAt, getElem?_at_length, hmultiline]
  cases v with
  | nil => simp
  | cons c v => cases v <;> simp

/-- A pattern from the start of the line to its end matches the words of the language between them,
also with a line break behind them. -/
theorem isSome_matchAt_iff {program : Program} {body : List Node}
    (hprogram : program.body = .anchor .lineStart :: (body ++ [.anchor .lineEnd]))
    (hmultiline : program.flags.multiline = false)
    (hbody : Recognizes (fun text => runBody text program.flags body) L) (s : List Char) :
    (program.matchAt s.toArray 0).isSome ↔ ∃ u, (s = u ∨ s = u ++ ['\n']) ∧ u ∈ L := by
  have hrun : program.matchAt s.toArray 0 = runBody ([] ++ s).toArray program.flags body
      (runBody s.toArray program.flags [.anchor .lineEnd] some) ⟨([] : List Char).length, []⟩ := by
    unfold Program.matchAt
    rw [hprogram, runBody, Node.run, runBody_append]
    rfl
  rw [hrun, hbody]
  have hend (u v : List Char) : (runBody (u ++ v).toArray program.flags [.anchor .lineEnd] some
      ⟨u.length, []⟩).isSome ↔ v = [] ∨ v = ['\n'] := by
    rw [← lineEnd_holds_iff hmultiline u v]
    simp only [runBody, Node.run]
    split
    · next h => simp [h]
    · next h => simp [h]
  simp only [List.length_nil, Nat.zero_add]
  constructor
  · rintro ⟨u, v, rfl, hu, h⟩
    rcases (hend u v).mp h with rfl | rfl
    · exact ⟨u, .inl (List.append_nil u), hu⟩
    · exact ⟨u, .inr rfl, hu⟩
  · rintro ⟨u, rfl | rfl, hu⟩
    · refine ⟨s, [], (List.append_nil s).symm, hu, ?_⟩
      have := (hend s []).mpr (.inl rfl)
      rwa [List.append_nil] at this
    · exact ⟨u, ['\n'], rfl, hu, (hend u _).mpr (.inr rfl)⟩

end

/-! ### Equality of programs -/

mutual

/-- Two nodes are the same, and hold no others but those that they repeat. -/
def Node.isSame : Node → Node → Bool
  | .repeated greed min max body, .repeated greed' min' max' body' =>
    greed == greed' && min == min' && max == max' && isSameBody body body'
  | a, b => a.sameLeaf b

/-- Two sequences are the same, node by node. -/
def isSameBody : List Node → List Node → Bool
  | [], [] => true
  | a :: as, b :: bs => a.isSame b && isSameBody as bs
  | _, _ => false

end

/-- Two programs are the same. -/
def Program.isSame (a b : Program) : Bool :=
  isSameBody a.body b.body && a.flags == b.flags && a.names == b.names

theorem eq_of_sameLeaf {a b : Node} (h : a.sameLeaf b = true) : a = b := by
  cases a <;> cases b <;> simp_all [Node.sameLeaf]

mutual

theorem eq_of_isSame {a b : Node} (h : a.isSame b = true) : a = b := by
  unfold Node.isSame at h
  split at h
  · simp only [Bool.and_eq_true, beq_iff_eq] at h
    obtain ⟨⟨⟨rfl, rfl⟩, rfl⟩, hbody⟩ := h
    rw [eq_of_isSameBody hbody]
  · exact eq_of_sameLeaf h

theorem eq_of_isSameBody {as bs : List Node} (h : isSameBody as bs = true) : as = bs := by
  unfold isSameBody at h
  split at h
  · rfl
  · rw [Bool.and_eq_true] at h
    rw [eq_of_isSame h.1, eq_of_isSameBody h.2]
  · cases h

end

theorem Program.eq_of_isSame {a b : Program} (h : a.isSame b = true) : a = b := by
  rw [Program.isSame, Bool.and_eq_true, Bool.and_eq_true, beq_iff_eq, beq_iff_eq] at h
  cases a
  cases b
  cases eq_of_isSameBody h.1.1
  cases h.1.2
  cases h.2
  rfl

/-- What compiles to the same program compiles to this program. -/
theorem Program.eq_ok_of_isSame {ε : Type} {compiled : Except ε Program} {program : Program}
    (h : compiled.toOption.any (·.isSame program) = true) : compiled = .ok program := by
  cases compiled with
  | error refusal => cases h
  | ok other => exact congrArg Except.ok (Program.eq_of_isSame h)

end Conform.Pattern
