/-
  Conform/Proofs/Runs.lean
  ========================
  **Cutting texts at separators.**  A text falls into runs without separators, and joined by the
  separators between them the runs are the text again (`join_runs`, `runs_join`).

  Some texts are recognized also with one line break behind them, which is taken away first
  (`withoutFinalBreak`).
-/
import Conform.Text.Address
import Mathlib.Data.List.Basic

namespace Conform

open Text

/-! ### Runs -/

section

variable {p : Char → Bool} {s t first : List Char} {more : List (Char × List Char)}

theorem runs_cons (p : Char → Bool) (c : Char) (s : List Char) :
    runs p (c :: s) = if p c then ([], (c, (runs p s).1) :: (runs p s).2)
      else (c :: (runs p s).1, (runs p s).2) := rfl

/-- Characters that are no separators lengthen the first run. -/
theorem runs_append (hfirst : ∀ c ∈ first, p c = false) (s : List Char) :
    runs p (first ++ s) = (first ++ (runs p s).1, (runs p s).2) := by
  induction first with
  | nil => rfl
  | cons c first ih =>
    rw [List.forall_mem_cons] at hfirst
    rw [List.cons_append, runs_cons, ih hfirst.2, if_neg (Bool.eq_false_iff.mp hfirst.1)]
    rfl

/-- Runs without separators that are joined by separators are found again. -/
theorem runs_join (hfirst : ∀ c ∈ first, p c = false)
    (hmore : ∀ r ∈ more, p r.1 = true ∧ ∀ c ∈ r.2, p c = false) :
    runs p (first ++ more.flatMap fun r => r.1 :: r.2) = (first, more) := by
  induction more generalizing first with
  | nil =>
    rw [runs_append hfirst, List.flatMap_nil, runs, List.append_nil]
  | cons r more ih =>
    rw [List.forall_mem_cons] at hmore
    rw [runs_append hfirst, List.flatMap_cons, List.cons_append, runs_cons, ih hmore.1.2 hmore.2,
      if_pos hmore.1.1, List.append_nil]

/-- The runs of a text have no separators, and joined they are the text. -/
theorem join_runs (p : Char → Bool) (s : List Char) :
    s = (runs p s).1 ++ (runs p s).2.flatMap (fun r => r.1 :: r.2) ∧
      (∀ c ∈ (runs p s).1, p c = false) ∧
      ∀ r ∈ (runs p s).2, p r.1 = true ∧ ∀ c ∈ r.2, p c = false := by
  induction s with
  | nil => simp [runs]
  | cons c rest ih =>
    obtain ⟨hjoin, hfirst, hmore⟩ := ih
    rw [runs_cons]
    split
    · next hc =>
      exact ⟨congrArg (c :: ·) hjoin, by simp, List.forall_mem_cons.mpr ⟨⟨hc, hfirst⟩, hmore⟩⟩
    · next hc =>
      exact ⟨congrArg (c :: ·) hjoin,
        List.forall_mem_cons.mpr ⟨Bool.eq_false_iff.mpr hc, hfirst⟩, hmore⟩

end

/-! ### Line breaks -/

/-- One line break is taken away from the end of a text. -/
theorem withoutFinalBreak_append (s : List Char) : withoutFinalBreak (s ++ ['\n']) = s := by
  simp [withoutFinalBreak]

/-- Nothing else is taken away. -/
theorem eq_withoutFinalBreak (s : List Char) :
    s = withoutFinalBreak s ∨ s = withoutFinalBreak s ++ ['\n'] := by
  unfold withoutFinalBreak
  split
  · next hlast => exact .inr (List.dropLast_append_getLast? _ hlast).symm
  · exact .inl rfl

/-- Any other text stays as it is. -/
theorem withoutFinalBreak_of_ne {s : List Char} (h : s.getLast? ≠ some '\n') :
    withoutFinalBreak s = s := by
  unfold withoutFinalBreak
  split
  · next hlast => exact (h hlast).elim
  · rfl

end Conform
