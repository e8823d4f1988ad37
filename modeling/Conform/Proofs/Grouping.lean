/-
  Conform/Proofs/Grouping.lean
  ============================
  **Merging in groups.**  Outputs can be merged all at once, or group by group with
  the outcomes merged after that.  It comes to the same where strict equality is
  symmetric and transitive (`mergesTo_flatten`): writing mappings over mappings is
  associative, and other outputs agree with the first of all as soon as they agree
  with the first of their group.

  Whether outputs can be merged at all is said by `Harmonious`, which passes to parts
  of a list (`Harmonious.sublist`) and on to the outcomes of its groups
  (`harmonious_of_groups`).
-/
import Conform.Proofs.Orderly

namespace Conform.Validator

variable {objects : Nat → Value} {a b y first : Value} {vs us rest : List Value}

/-- Outputs, of which there are some, are merged into a value. -/
def MergesTo : List Value → Value → Prop
  | [], _ => False
  | first :: rest, y => mergeAll? first rest = .ok (some y)

/-- Strict equality is symmetric and transitive on some values. -/
structure Consistent (vs : List Value) : Prop where
  symm {a b : Value} : a ∈ vs → b ∈ vs → a.strictEq b = .ok true → b.strictEq a = .ok true
  trans {a b c : Value} : a ∈ vs → b ∈ vs → c ∈ vs → a.strictEq b = .ok true →
    b.strictEq c = .ok true → a.strictEq c = .ok true

/-- Outputs that can be merged: mappings only, or no mappings, and each equal to those after it. -/
def Harmonious (vs : List Value) : Prop :=
  AllMappings vs ∨ (∀ v ∈ vs, v.isMapping = false) ∧ vs.Pairwise fun a b => a.strictEq b = .ok true

theorem Consistent.mono (h : Consistent vs) (hsub : us ⊆ vs) : Consistent us where
  symm ha hb := h.symm (hsub ha) (hsub hb)
  trans ha hb hc := h.trans (hsub ha) (hsub hb) (hsub hc)

theorem Harmonious.sublist (h : Harmonious vs) (hsub : us.Sublist vs) : Harmonious us :=
  h.imp (fun hall v hv => hall v (hsub.subset hv))
    fun ⟨hother, hequal⟩ => ⟨fun v hv => hother v (hsub.subset hv), hequal.sublist hsub⟩

theorem MergesTo.unique {z : Value} (h : MergesTo vs y) (h' : MergesTo vs z) : y = z := by
  cases vs with
  | nil => exact h.elim
  | cons first rest =>
    cases Eq.trans (Eq.symm h) h'
    rfl

theorem MergesTo.orderly (h : MergesTo vs y) (horderly : ∀ v ∈ vs, v.Orderly objects) :
    y.Orderly objects := by
  cases vs with
  | nil => exact h.elim
  | cons first rest =>
    rw [List.forall_mem_cons] at horderly
    exact orderly_of_mergeAll horderly.1 horderly.2 h

/-- What outputs are merged into is like the first: a mapping too, or the same. -/
theorem MergesTo.like (h : mergeAll? first rest = .ok (some y)) :
    y.isMapping = first.isMapping ∧ (first.isMapping = false → y = first) := by
  induction rest generalizing first with
  | nil =>
    cases h
    exact ⟨rfl, fun _ => rfl⟩
  | cons b rest ih =>
    rcases cases_of_merge? first b with ⟨m, hmerge, hm⟩ | ⟨hmerge, -⟩ | ⟨f, hmerge, -⟩
    · obtain ⟨hy, hother⟩ := ih ((mergeAll?_cons hmerge).symm.trans h)
      rcases hm with ⟨hall, hmapping, -⟩ | ⟨-, -, rfl⟩
      · have hfirst := (allMappings_pair.mp hall).1
        exact ⟨(hy.trans hmapping).trans hfirst.symm, fun hfalse => by cases hfirst.symm.trans hfalse⟩
      · exact ⟨hy, hother⟩
    · cases (mergeAll?_cons_none hmerge).symm.trans h
    · cases (mergeAll?_cons_error hmerge).symm.trans h

theorem MergesTo.exists_like (h : MergesTo vs y) :
    ∃ v ∈ vs, y.isMapping = v.isMapping ∧ (v.isMapping = false → y = v) := by
  cases vs with
  | nil => exact h.elim
  | cons first rest => exact ⟨first, List.mem_cons_self, MergesTo.like h⟩

/-! ### What can be merged -/

/-- Strictly equal values are both mappings, or neither is. -/
theorem isMapping_eq_of_strictEq (ha : a.Held objects) (hb : b.Held objects)
    (h : a.strictEq b = .ok true) : a.isMapping = b.isMapping := by
  by_contra hne
  cases h.symm.trans (Value.strictEq_of_isMapping_ne ha hb hne)

section

variable (hheld : ∀ v ∈ vs, v.Held objects)

include hheld

theorem Harmonious.exists_mergesTo (h : Harmonious vs) (hne : vs ≠ []) : ∃ y, MergesTo vs y := by
  obtain ⟨first, rest, rfl⟩ := List.exists_cons_of_ne_nil hne
  rw [List.forall_mem_cons] at hheld
  refine (exists_mergeAll?_iff hheld.1 hheld.2).mpr (h.imp id fun h => ?_)
  exact (List.pairwise_cons.mp h.2).1

theorem MergesTo.harmonious (hconsistent : Consistent vs) (h : MergesTo vs y) : Harmonious vs := by
  cases vs with
  | nil => exact h.elim
  | cons first rest =>
    rw [List.forall_mem_cons] at hheld
    cases hfirst : first.isMapping with
    | true => exact .inl (List.forall_mem_cons.mpr ⟨hfirst, mappings_of_mergeAll? hheld.1 hheld.2 hfirst h⟩)
    | false =>
      obtain ⟨-, hequal⟩ := equal_of_mergeAll? hfirst h
      refine .inr ⟨List.forall_mem_cons.mpr ⟨hfirst, fun v hv => ?_⟩, List.pairwise_cons.mpr
        ⟨hequal, List.pairwise_of_forall_mem_list fun v hv u hu => ?_⟩⟩
      · exact (isMapping_eq_of_strictEq hheld.1 (hheld.2 v hv) (hequal v hv)).symm.trans hfirst
      · -- both are equal to the first
        have hv' := List.mem_cons_of_mem first hv
        exact hconsistent.trans hv' List.mem_cons_self (List.mem_cons_of_mem first hu)
          (hconsistent.symm List.mem_cons_self hv' (hequal v hv)) (hequal u hu)

end

theorem pairwise_of_groups {groups : List (List Value)} {ys : List Value}
    (hgroups : List.Forall₂ MergesTo groups ys) (hother : ∀ v ∈ groups.flatten, v.isMapping = false)
    (hequal : groups.flatten.Pairwise fun a b => a.strictEq b = .ok true) :
    ys.Pairwise fun a b => a.strictEq b = .ok true := by
  induction hgroups with
  | nil => exact .nil
  | @cons g y groups ys hg hrest ih =>
    rw [List.flatten_cons, List.forall_mem_append] at hother
    rw [List.flatten_cons, List.pairwise_append] at hequal
    refine List.pairwise_cons.mpr ⟨fun z hz => ?_, ih hother.2 hequal.2.1⟩
    obtain ⟨i, hi, rfl⟩ := List.getElem_of_mem hz
    have hi' : i < groups.length := hrest.length_eq ▸ hi
    obtain ⟨v, hv, -, hy⟩ := hg.exists_like
    obtain ⟨u, hu, -, hz⟩ := ((List.forall₂_iff_get.mp hrest).2 i hi' hi).exists_like
    have hu : u ∈ groups.flatten := List.mem_flatten.mpr ⟨_, List.getElem_mem hi', hu⟩
    rw [hy (hother.1 v hv), show ys[i] = u from hz (hother.2 u hu)]
    exact hequal.2.2 v hv u hu

/-- What groups are merged into can be merged if all of it can. -/
theorem harmonious_of_groups {groups : List (List Value)} {ys : List Value}
    (hgroups : List.Forall₂ MergesTo groups ys) (h : Harmonious groups.flatten) : Harmonious ys := by
  have hlike : ∀ y ∈ ys, ∃ v ∈ groups.flatten, y.isMapping = v.isMapping := by
    intro y hy
    obtain ⟨i, hi, rfl⟩ := List.getElem_of_mem hy
    have hi' : i < groups.length := hgroups.length_eq ▸ hi
    obtain ⟨v, hv, hlike, -⟩ := ((List.forall₂_iff_get.mp hgroups).2 i hi' hi).exists_like
    exact ⟨v, List.mem_flatten.mpr ⟨_, List.getElem_mem hi', hv⟩, hlike⟩
  refine h.imp (fun hall y hy => ?_) fun h =>
    ⟨fun y hy => ?_, pairwise_of_groups hgroups h.1 h.2⟩
  · obtain ⟨v, hv, hlike⟩ := hlike y hy
    exact hlike.trans (hall v hv)
  · obtain ⟨v, hv, hlike⟩ := hlike y hy
    exact hlike.trans (h.1 v hv)

/-! ### Merging group by group -/

theorem mergeAll?_append (h : mergeAll? first vs = .ok (some y)) (us : List Value) :
    mergeAll? first (vs ++ us) = mergeAll? y us := by
  induction vs generalizing first with
  | nil =>
    cases h
    rfl
  | cons b rest ih =>
    rcases hmerge : merge? first b with f | (_ | m)
    · cases (mergeAll?_cons_error hmerge).symm.trans h
    · cases (mergeAll?_cons_none hmerge).symm.trans h
    · rw [List.cons_append, mergeAll?_cons hmerge]
      exact ih ((mergeAll?_cons hmerge).symm.trans h)

/-- Writing mappings that are written over one another is writing them one after another. -/
theorem insertAll_foldl {xs p : Value.Entries} {parts : List Value.Entries} (hxs : xs.Keyed objects)
    (hp : p.Keyed objects) (hparts : ∀ q ∈ parts, Value.Entries.Keyed objects q) :
    xs.insertAll (parts.foldl Value.Entries.insertAll p) =
      (p :: parts).foldl Value.Entries.insertAll xs := by
  induction parts generalizing p with
  | nil => rfl
  | cons q rest ih =>
    rw [List.forall_mem_cons] at hparts
    have hq : ∀ e ∈ q, e.1.Keyable objects := fun e he => hparts.1.mem he
    refine (ih (hp.insertAll hq) hparts.2).trans ?_
    simp only [List.foldl_cons]
    rw [hxs.insertAll_insertAll hp hq]

section

variable (ha : a.Orderly objects) (hvs : ∀ v ∈ vs, v.Orderly objects)

include ha hvs

/-- A mapping is merged with what mappings are merged into. -/
theorem mergeAll?_of_mappings (hmapping : a.isMapping = true) (hall : AllMappings vs)
    (h : MergesTo vs b) (hmerge : merge? a b = .ok (some y)) : mergeAll? a vs = .ok (some y) := by
  cases vs with
  | nil => exact h.elim
  | cons f rest =>
    obtain ⟨xs, hxs⟩ := exists_entries hmapping
    rw [AllMappings, List.forall_mem_cons] at hall
    obtain ⟨p, hp⟩ := exists_entries hall.1
    obtain ⟨parts, hparts⟩ := exists_parts hall.2
    obtain ⟨z, hz, hentries, -⟩ := mergeAll?_mappings hp hparts
    have hz : MergesTo (f :: rest) z := hz
    obtain rfl : b = z := h.unique hz
    obtain ⟨y', hy', -, hmade⟩ := mergeAll?_mappings hxs (.cons hp hparts)
    have hkeyed := keyed_of_entries hvs (.cons hp hparts)
    rw [List.forall_mem_cons] at hkeyed
    rw [hy', hmade (List.cons_ne_nil _ _), ← insertAll_foldl (ha.keyed xs hxs) hkeyed.1 hkeyed.2]
    exact (merge?_of_mappings hxs hentries).symm.trans hmerge

/-- What is no mapping is merged with what others are merged into. -/
theorem mergeAll?_of_others (hother : a.isMapping = false)
    (htrans : ∀ u ∈ vs, ∀ v ∈ vs, a.strictEq u = .ok true → u.strictEq v = .ok true →
      a.strictEq v = .ok true)
    (h : MergesTo vs b) (hmerge : merge? a b = .ok (some y)) : mergeAll? a vs = .ok (some y) := by
  have hpair : ¬AllMappings [a, b] := not_allMappings_of_left hother
  rcases cases_of_merge? a b with ⟨m, hmerge', hall | ⟨-, hab, hm⟩⟩ | ⟨hmerge', -⟩ | ⟨f, hmerge', -⟩
  · exact absurd hall.1 hpair
  · cases hmerge.symm.trans hmerge'
    cases vs with
    | nil => exact h.elim
    | cons f rest =>
      have hlike := MergesTo.like h
      have hb : b.isMapping = false :=
        (isMapping_eq_of_strictEq ha.held (MergesTo.orderly h hvs).held hab).symm.trans hother
      have hf : f.isMapping = false := hlike.1.symm.trans hb
      rw [hlike.2 hf] at hab
      have hrest := (equal_of_mergeAll? hf h).2
      rw [hm]
      refine mergeAll?_equal hother (List.forall_mem_cons.mpr ⟨hab, fun v hv => ?_⟩)
      exact htrans f List.mem_cons_self v (List.mem_cons_of_mem _ hv) hab (hrest v hv)
  · cases hmerge.symm.trans hmerge'
  · cases hmerge.symm.trans hmerge'

end

/-- What two groups are merged into, merged, is what they are merged into together. -/
theorem MergesTo.append (hvs : ∀ v ∈ vs, v.Orderly objects) (hus : ∀ v ∈ us, v.Orderly objects)
    (hconsistent : Consistent (vs ++ us)) (ha : MergesTo vs a) (hb : MergesTo us b)
    (hmerge : merge? a b = .ok (some y)) : MergesTo (vs ++ us) y := by
  have horderly := ha.orderly hvs
  obtain ⟨v, hv, hlike, hsame⟩ := ha.exists_like
  have hnext : mergeAll? a us = .ok (some y) := by
    cases hmapping : a.isMapping with
    | true =>
      refine mergeAll?_of_mappings horderly hus hmapping ?_ hb hmerge
      -- a mapping is merged with mappings only
      have hb' : b.isMapping = true := by
        rcases cases_of_merge? a b with ⟨m, -, hall | ⟨-, hab, -⟩⟩ | ⟨hmerge', -⟩ | ⟨f, hmerge', -⟩
        · exact (allMappings_pair.mp hall.1).2
        · rw [← isMapping_eq_of_strictEq horderly.held (hb.orderly hus).held hab, hmapping]
        · cases hmerge.symm.trans hmerge'
        · cases hmerge.symm.trans hmerge'
      rcases hb.harmonious (fun v hv => (hus v hv).held)
        (hconsistent.mono (List.subset_append_right _ _)) with hall | ⟨hother, -⟩
      · exact hall
      · obtain ⟨u, hu, hlike, -⟩ := hb.exists_like
        cases (hlike.trans (hother u hu)).symm.trans hb'
    | false =>
      have hav : a = v := hsame (hlike.symm.trans hmapping)
      refine mergeAll?_of_others horderly hus hmapping (fun u hu u' hu' => ?_) hb hmerge
      exact hconsistent.trans (hav ▸ List.mem_append_left _ hv) (List.mem_append_right _ hu)
        (List.mem_append_right _ hu')
  cases vs with
  | nil => exact ha.elim
  | cons first rest => exact (mergeAll?_append ha us).trans hnext

/-- What groups are merged into, merged, is what they are merged into all together. -/
theorem mergesTo_flatten {groups : List (List Value)} {ys : List Value}
    (hgroups : List.Forall₂ MergesTo groups ys) (horderly : ∀ v ∈ groups.flatten, v.Orderly objects)
    (hconsistent : Consistent groups.flatten) (h : MergesTo ys y) : MergesTo groups.flatten y := by
  have hmore : ∀ (vs : List Value) (a : Value) (groups : List (List Value)) (ys : List Value),
      List.Forall₂ MergesTo groups ys → (∀ v ∈ vs ++ groups.flatten, v.Orderly objects) →
      Consistent (vs ++ groups.flatten) → MergesTo vs a → mergeAll? a ys = .ok (some y) →
      MergesTo (vs ++ groups.flatten) y := by
    intro vs a groups ys hgroups
    induction hgroups generalizing vs a with
    | nil =>
      intro _ _ ha h
      cases h
      rwa [List.flatten_nil, List.append_nil]
    | @cons g b groups ys hg _ ih =>
      intro horderly hconsistent ha h
      rw [List.flatten_cons, ← List.append_assoc] at horderly hconsistent ⊢
      have hboth := (List.forall_mem_append.mp horderly).1
      rcases hmerge : merge? a b with f | (_ | m)
      · cases (mergeAll?_cons_error hmerge).symm.trans h
      · cases (mergeAll?_cons_none hmerge).symm.trans h
      · refine ih (vs ++ g) m horderly hconsistent ?_ ((mergeAll?_cons hmerge).symm.trans h)
        exact MergesTo.append (List.forall_mem_append.mp hboth).1 (List.forall_mem_append.mp hboth).2
          (hconsistent.mono (List.subset_append_left _ _)) ha hg hmerge
  cases hgroups with
  | nil => exact h.elim
  | @cons g b groups ys hg hrest =>
    rw [List.flatten_cons] at horderly hconsistent ⊢
    exact hmore g b groups ys hrest horderly hconsistent hg h

end Conform.Validator
