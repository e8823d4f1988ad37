/-
  Conform/Proofs/Strictness.lean
  ==============================
  **How strict strict equality is.**  Two values that are strictly equal have one
  shape, and equal scalars face each other at corresponding places of it
  (`Value.Matched`).  Strictness itself is a matter of the outermost place: there
  scalars of different kinds are told apart, while inside a container a truth
  value may face the number that it is equal to (`Value.Faces`).

  Literals, enumerated values and intersections compare in this way
  (`strict_equality`); a list of one literal accepts a list of the truth value
  true (`literal_accepts_nested_truth`).
-/
import Conform.Proofs.Merging
import Conform.Proofs.Outputs

namespace Conform

open Validator

/-! ### Kinds of scalars -/

namespace Scalar

/-- The kinds of scalars that strictness is about. -/
inductive Kind where
  | nothing
  | truth
  | number
  | text
  | other
deriving DecidableEq

/-- The kind of a scalar; a member of an enumeration may amount to a number. -/
def kind : Scalar → Kind
  | .null => .nothing
  | .bool _ => .truth
  | .int .. | .float .. | .complex .. | .decimal _ => .number
  | .member m => if (quantity? (.member m)).isSome then .number else .other
  | .str .. => .text
  | _ => .other

/-- Scalars that are one, or equal. -/
def Agrees (s t : Scalar) : Prop := s = t ∨ s.eq t = .ok true

/-- Scalars of one kind that are one, or equal. -/
def AgreesInKind (s t : Scalar) : Prop := s.kind = t.kind ∧ s.Agrees t

/-- The scalar is equal to no truth value, and so is none. -/
def IsApartFromTruths (s : Scalar) : Prop := ∀ b, s.eq (.bool b) ≠ .ok true

/-- The kind of the scalars that stand for something, truth values apart. -/
def Meaning.kind : Meaning → Kind
  | .number _ | .complex .. => .number
  | .text _ => .text
  | .itself s => s.kind
  | _ => .other

variable {s t : Scalar} {m : Meaning}

theorem kind_eq_truth_iff : s.kind = .truth ↔ ∃ b, s = .bool b := by
  cases s with
  | bool b => exact ⟨fun _ => ⟨b, rfl⟩, fun _ => rfl⟩
  | member m => by_cases h : (quantity? (.member m)).isSome <;> simp [kind, h]
  | _ => simp [kind]

theorem kind_of_quantity {q : Quantity} (h : s.quantity? = some q) :
    s.kind = .number ∨ s.kind = .truth := by
  cases s with
  | bool b => exact .inr rfl
  | int | float | decimal => exact .inl rfl
  | member m =>
    refine .inl ?_
    rw [kind, h]
    rfl
  | _ => cases h

theorem Means.kind (h : s.Means m) : s.kind = m.kind ∨ s.kind = .truth ∧ m.kind = .number := by
  cases h with
  | real hq _ => exact (kind_of_quantity hq).imp id fun htruth => ⟨htruth, rfl⟩
  | _ => exact .inl rfl

/-- Equal scalars are of one kind, unless one is a truth value and the other a number. -/
theorem kind_of_eq (h : s.eq t = .ok true) : s.kind = t.kind ∨ s.kind = .truth ∨ t.kind = .truth := by
  obtain ⟨m, hs, ht⟩ := exists_means h
  rcases hs.kind with hs | ⟨hs, -⟩
  · rcases ht.kind with ht | ⟨ht, -⟩
    · exact .inl (hs.trans ht.symm)
    · exact .inr (.inr ht)
  · exact .inr (.inl hs)

theorem Agrees.kind (h : s.Agrees t) : s.kind = t.kind ∨ s.kind = .truth ∨ t.kind = .truth := by
  rcases h with rfl | h
  · exact .inl rfl
  · exact kind_of_eq h

theorem IsApartFromTruths.kind_ne (h : s.IsApartFromTruths) : s.kind ≠ .truth := by
  intro htruth
  obtain ⟨b, rfl⟩ := kind_eq_truth_iff.mp htruth
  cases b
  · exact h false (by decide +kernel)
  · exact h true (by decide +kernel)

theorem Agrees.inKind (h : s.Agrees t) (hs : s.kind ≠ .truth) (ht : t.kind ≠ .truth) :
    s.AgreesInKind t :=
  ⟨h.kind.resolve_right fun htruth => htruth.elim hs ht, h⟩

/-- A scalar that is equal to no truth value faces none. -/
theorem Agrees.inKind_left (h : s.Agrees t) (hs : s.IsApartFromTruths) : s.AgreesInKind t := by
  rcases h with rfl | heq
  · exact ⟨rfl, .inl rfl⟩
  · refine Agrees.inKind (.inr heq) hs.kind_ne fun ht => ?_
    obtain ⟨b, rfl⟩ := kind_eq_truth_iff.mp ht
    exact hs b heq

theorem Agrees.inKind_right (h : s.Agrees t) (ht : t.IsApartFromTruths) : s.AgreesInKind t := by
  rcases h with rfl | heq
  · exact ⟨rfl, .inl rfl⟩
  · refine Agrees.inKind (.inr heq) (fun hs => ?_) ht.kind_ne
    obtain ⟨b, rfl⟩ := kind_eq_truth_iff.mp hs
    exact ht b (eq_symm heq)

end Scalar

/-! ### Values of one shape -/

theorem forall₂_of_mem {α β : Type} {r r' : α → β → Prop} {xs : List α} {ys : List β}
    (h : List.Forall₂ r xs ys) (hr : ∀ x ∈ xs, ∀ y ∈ ys, r x y → r' x y) : List.Forall₂ r' xs ys := by
  induction h with
  | nil => exact .nil
  | cons hxy _ ih =>
    refine .cons (hr _ List.mem_cons_self _ List.mem_cons_self hxy) (ih fun x hx y hy => ?_)
    exact hr x (List.mem_cons_of_mem _ hx) y (List.mem_cons_of_mem _ hy)

namespace Value

/-- Two values have one shape, and related scalars are at corresponding places.  Members of sets and
entries of mappings correspond whatever their order. -/
inductive Matched (R : Scalar → Scalar → Prop) : Value → Value → Prop where
  | scalar {id id' : Identity} {s t : Scalar} : R s t → Matched R (.scalar id s) (.scalar id' t)
  | list {id id' : Identity} {flavor flavor' : Flavor} {xs ys : List Value} :
      List.Forall₂ (Matched R) xs ys → Matched R (.list id flavor xs) (.list id' flavor' ys)
  | tuple {id id' : Identity} {xs ys : List Value} :
      List.Forall₂ (Matched R) xs ys → Matched R (.tuple id xs) (.tuple id' ys)
  | set {id id' : Identity} {frozen frozen' : Bool} {xs ys zs : List Value} :
      zs.Perm ys → List.Forall₂ (Matched R) xs zs →
      Matched R (.set id frozen xs) (.set id' frozen' ys)
  | mapping {id id' : Identity} {kind kind' : MappingKind} {xs ys zs : Entries} :
      zs.Perm ys → List.Forall₂ (fun e f => Matched R e.1 f.1) xs zs →
      List.Forall₂ (fun e f => Matched R e.2 f.2) xs zs →
      Matched R (.mapping id kind xs) (.mapping id' kind' ys)

/-- A value and all that is in it are the objects of their numbers. -/
inductive Known (objects : Nat → Value) : Value → Prop where
  | scalar {id : Identity} {s : Scalar} : Held objects (.scalar id s) → Known objects (.scalar id s)
  | list {id : Identity} {flavor : Flavor} {items : List Value} : Held objects (.list id flavor items) →
      (∀ x ∈ items, Known objects x) → Known objects (.list id flavor items)
  | tuple {id : Identity} {items : List Value} : Held objects (.tuple id items) →
      (∀ x ∈ items, Known objects x) → Known objects (.tuple id items)
  | set {id : Identity} {frozen : Bool} {items : List Value} : Held objects (.set id frozen items) →
      (∀ x ∈ items, Known objects x) → Known objects (.set id frozen items)
  | mapping {id : Identity} {kind : MappingKind} {entries : Entries} :
      Held objects (.mapping id kind entries) → (∀ e ∈ entries, Known objects e.1) →
      (∀ e ∈ entries, Known objects e.2) → Known objects (.mapping id kind entries)

/-- Values as they come from outside, with all that is in them. -/
structure Outer (objects : Nat → Value) (v : Value) : Prop where
  sound : v.Sound objects
  known : v.Known objects

variable {objects : Nat → Value} {a b : Value} {R R' : Scalar → Scalar → Prop}

theorem Known.held {v : Value} (h : v.Known objects) : v.Held objects := by
  cases h <;> assumption

theorem Outer.list {id : Identity} {flavor : Flavor} {items : List Value}
    (h : (Value.list id flavor items).Outer objects) : ∀ x ∈ items, x.Outer objects := by
  obtain ⟨_ | hsound, _ | ⟨-, hknown⟩⟩ := h
  exact fun x hx => ⟨hsound x hx, hknown x hx⟩

theorem Outer.tuple {id : Identity} {items : List Value}
    (h : (Value.tuple id items).Outer objects) : ∀ x ∈ items, x.Outer objects := by
  obtain ⟨_ | _ | ⟨-, hsound⟩, _ | _ | ⟨-, hknown⟩⟩ := h
  exact fun x hx => ⟨hsound x hx, hknown x hx⟩

/-- Every value matches itself. -/
theorem Matched.refl (hR : ∀ s, R s s) (v : Value) : Matched R v v := by
  have same {α : Type} {r : α → α → Prop} {xs : List α} (h : ∀ x ∈ xs, r x x) :
      List.Forall₂ r xs xs := List.forall₂_same.mpr h
  induction v using Value.itemInduction with
  | scalar id s => exact .scalar (hR s)
  | list id flavor items ih => exact .list (same ih)
  | tuple id items ih => exact .tuple (same ih)
  | set id frozen items ih => exact .set (.refl _) (same ih)
  | mapping id kind entries ih =>
    exact .mapping (.refl _) (same fun e he => (ih e he).1) (same fun e he => (ih e he).2)

/-- What is known of the scalars of both values bears on those that face each other. -/
theorem Matched.imp {P Q : Scalar → Prop} (hR : ∀ s t, P s → Q t → R s t → R' s t)
    (ha : a.Every P) (hb : b.Every Q) (h : Matched R a b) : Matched R' a b := by
  induction ha generalizing b with
  | scalar hs =>
    cases h with
    | scalar hst =>
      cases hb with
      | scalar ht => exact .scalar (hR _ _ hs ht hst)
  | list _ ih =>
    cases h with
    | list h =>
      rw [every_list] at hb
      exact .list (forall₂_of_mem h fun x hx y hy => ih x hx (hb y hy))
  | tuple _ ih =>
    cases h with
    | tuple h =>
      rw [every_tuple] at hb
      exact .tuple (forall₂_of_mem h fun x hx y hy => ih x hx (hb y hy))
  | set _ ih =>
    cases h with
    | set hperm h =>
      rw [every_set] at hb
      exact .set hperm (forall₂_of_mem h fun x hx y hy => ih x hx (hb y (hperm.mem_iff.mp hy)))
  | mapping _ _ ihKeys ihValues =>
    cases h with
    | mapping hperm hkeys hvalues =>
      rw [every_mapping] at hb
      exact .mapping hperm
        (forall₂_of_mem hkeys fun e he f hf => ihKeys e he (hb f (hperm.mem_iff.mp hf)).1)
        (forall₂_of_mem hvalues fun e he f hf => ihValues e he (hb f (hperm.mem_iff.mp hf)).2)

/-- Entries that are among others have their keys and their values there. -/
theorem exists_of_eqEntries {xs ys : Entries} (h : eqEntries xs ys = .ok true) :
    ∀ e ∈ xs, ∃ f ∈ ys, e.1.keyEq f.1 = true ∧ e.2.keyEq f.2 = true := by
  induction xs with
  | nil => exact List.forall_mem_nil _
  | cons e xs ih =>
    obtain ⟨k, v⟩ := e
    unfold eqEntries at h
    split at h
    · cases h
    · next l w hfind =>
      have hkey : k.keyEq l = true := List.find?_some (p := fun e : Value × Value => k.keyEq e.1) hfind
      have hmem := List.mem_of_find?_eq_some hfind
      have hvalue : v.keyEq w = true ∧ eqEntries xs ys = .ok true := by
        rw [keyEq_iff]
        cases hsame : v.same w with
        | true => exact ⟨.inl rfl, by simpa [hsame] using h⟩
        | false =>
          rcases heq : v.eq w with f | (_ | _) <;> simp only [hsame, heq] at h
          · cases h
          · cases h
          · exact ⟨.inr rfl, h⟩
      exact List.forall_mem_cons.mpr ⟨⟨(l, w), hmem, hkey, hvalue.1⟩, ih hvalue.2⟩

/-- No key is equal to two that are apart. -/
theorem not_keyEq_of_apart {k l m : Value} (hk : k.Keyable objects) (hl : l.Keyable objects)
    (hm : m.Keyable objects) (hapart : k.keyEq l = false) (hkm : k.keyEq m = true) :
    ¬l.keyEq m = true := by
  intro hlm
  cases hapart.symm.trans (keyEq_trans hk hm hl hkm (keyEq_symm hl hm hlm))

/-- Values that are one object match, so it remains to see that equal ones do. -/
theorem matched_of_eq (ha : a.Outer objects) (hb : b.Outer objects) (h : a.keyEq b = true)
    (heq : a.eq b = .ok true → Matched Scalar.Agrees a b) : Matched Scalar.Agrees a b := by
  rcases keyEq_iff.mp h with hsame | h
  · rw [← eq_of_same ha.known.held hb.known.held hsame]
    exact .refl (fun _ => .inl rfl) _
  · exact heq h

/-- The members of equal sets are equal one by one, in some order. -/
theorem exists_perm_of_eq_set {id id' : Identity} {frozen frozen' : Bool} {xs ys : List Value}
    (hapart : xs.Pairwise fun x x' => x.keyEq x' = false) (hxs : ∀ x ∈ xs, x.Keyable objects)
    (hys : ∀ y ∈ ys, y.Keyable objects) (h : (set id frozen xs).eq (set id' frozen' ys) = .ok true) :
    ∃ zs, zs.Perm ys ∧ List.Forall₂ (fun x y => x.keyEq y = true) xs zs := by
  obtain ⟨hlength, hmembers⟩ := eq_set_iff.mp h
  exact exists_perm_forall₂ hlength hmembers (hapart.imp_of_mem fun {x x'} hx hx' hne y hy =>
    not_keyEq_of_apart (hxs x hx) (hxs x' hx') (hys y hy) hne)

/-- The entries of equal mappings are equal one by one, in some order. -/
theorem exists_perm_of_eq_mapping {id id' : Identity} {kind kind' : MappingKind} {xs ys : Entries}
    (hapart : xs.keys.Pairwise fun k l => k.keyEq l = false) (hxs : ∀ e ∈ xs, e.1.Keyable objects)
    (hys : ∀ f ∈ ys, f.1.Keyable objects) (h : (mapping id kind xs).eq (mapping id' kind' ys) = .ok true) :
    ∃ zs, zs.Perm ys ∧
      List.Forall₂ (fun e f => e.1.keyEq f.1 = true ∧ e.2.keyEq f.2 = true) xs zs := by
  rw [eq] at h
  split at h
  · cases h
  next hlength =>
  have hentries : eqEntries xs ys = .ok true := by
    rcases hentries : eqEntries xs ys with f | (_ | _) <;> rw [hentries] at h <;> first
      | rfl
      | cases h
  exact exists_perm_forall₂ (by simpa using hlength) (exists_of_eqEntries hentries)
    ((List.pairwise_map.mp hapart).imp_of_mem fun {e e'} he he' hne f hf hkey hkey' =>
      not_keyEq_of_apart (hxs e he) (hxs e' he') (hys f hf) hne hkey.1 hkey'.1)

/-- Values that are one object or equal have one shape, and equal scalars are at corresponding
places. -/
theorem matched_of_keyEq (ha : a.Outer objects) (hb : b.Outer objects) (h : a.keyEq b = true) :
    Matched Scalar.Agrees a b := by
  induction a using Value.itemInduction generalizing b with
  | scalar id s =>
    refine matched_of_eq ha hb h fun heq => ?_
    cases b with
    | scalar id' t =>
      rcases eq_scalar_iff.mp heq with ⟨c, -, hsame⟩ | hst
      · rw [← eq_of_same ha.known.held hb.known.held hsame]
        exact .refl (fun _ => .inl rfl) _
      · exact .scalar (.inr hst)
    | _ => cases heq
  | list id flavor xs ih =>
    refine matched_of_eq ha hb h fun heq => ?_
    cases b with
    | list id' flavor' ys =>
      rw [eq] at heq
      split at heq
      · refine .list (forall₂_of_mem (eqItems_iff.mp heq) fun x hx y hy => ?_)
        exact ih x hx (ha.list x hx) (hb.list y hy)
      · cases heq
    | _ => cases heq
  | tuple id xs ih =>
    refine matched_of_eq ha hb h fun heq => ?_
    cases b with
    | tuple id' ys =>
      refine .tuple (forall₂_of_mem (eq_tuple_iff.mp heq) fun x hx y hy => ?_)
      exact ih x hx (ha.tuple x hx) (hb.tuple y hy)
    | _ => cases heq
  | set id frozen xs ih =>
    refine matched_of_eq ha hb h fun heq => ?_
    cases b with
    | set id' frozen' ys =>
      obtain ⟨_ | _ | _ | ⟨-, hapart, hxs⟩, _ | _ | _ | ⟨-, hknown⟩⟩ := ha
      obtain ⟨_ | _ | _ | ⟨-, -, hys⟩, _ | _ | _ | ⟨-, hknown'⟩⟩ := hb
      obtain ⟨zs, hperm, hzs⟩ := exists_perm_of_eq_set hapart hxs hys heq
      refine .set hperm (forall₂_of_mem hzs fun x hx y hy => ?_)
      have hy := hperm.mem_iff.mp hy
      exact ih x hx ⟨(hxs x hx).sound, hknown x hx⟩ ⟨(hys y hy).sound, hknown' y hy⟩
    | _ => cases heq
  | mapping id kind xs ih =>
    refine matched_of_eq ha hb h fun heq => ?_
    cases b with
    | mapping id' kind' ys =>
      obtain ⟨_ | _ | _ | _ | ⟨hapart, hkeys, hvalues⟩, _ | _ | _ | _ | ⟨-, hknownKeys, hknown⟩⟩ := ha
      obtain ⟨_ | _ | _ | _ | ⟨-, hkeys', hvalues'⟩, _ | _ | _ | _ | ⟨-, hknownKeys', hknown'⟩⟩ := hb
      obtain ⟨zs, hperm, hzs⟩ := exists_perm_of_eq_mapping hapart hkeys hkeys' heq
      refine .mapping hperm (forall₂_of_mem hzs fun e he f hf h => ?_)
        (forall₂_of_mem hzs fun e he f hf h => ?_)
      · have hf := hperm.mem_iff.mp hf
        exact (ih e he).1 ⟨(hkeys e he).sound, hknownKeys e he⟩
          ⟨(hkeys' f hf).sound, hknownKeys' f hf⟩ h.1
      · have hf := hperm.mem_iff.mp hf
        exact (ih e he).2 ⟨hvalues e he, hknown e he⟩ ⟨hvalues' f hf, hknown' f hf⟩ h.2
    | _ => cases heq

/-! ### Strictly equal values -/

/-- What strict equality makes sure of.  Equal scalars are at corresponding places; at the outermost
place they are of one kind, and at all places if there are no truth values, or if on one side nothing
is equal to a truth value. -/
structure Faces (a b : Value) : Prop where
  matched : Matched Scalar.Agrees a b
  outermost {id id' : Identity} {s t : Scalar} : a = .scalar id s → b = .scalar id' t →
    s.AgreesInKind t
  untruthful : a.Every (fun s => s.kind ≠ .truth) → b.Every (fun s => s.kind ≠ .truth) →
    Matched Scalar.AgreesInKind a b
  apart : a.Every Scalar.IsApartFromTruths ∨ b.Every Scalar.IsApartFromTruths →
    Matched Scalar.AgreesInKind a b

theorem keyEq_of_strictEq (h : a.strictEq b = .ok true) : a.keyEq b = true := by
  rw [keyEq_iff]
  unfold strictEq at h
  split at h
  · next hsame => exact .inl hsame
  · split at h
    · exact .inr h
    · split at h
      · exact .inr h
      · cases h

/-- Strictly equal scalars are of one kind. -/
theorem kind_of_strictEq {id id' : Identity} {s t : Scalar} (hs : Held objects (.scalar id s))
    (ht : Held objects (.scalar id' t)) (h : (Value.scalar id s).strictEq (.scalar id' t) = .ok true) :
    s.kind = t.kind := by
  have hfaces : s = t ∨ s.eq t = .ok true := by
    rcases keyEq_iff.mp (keyEq_of_strictEq h) with hsame | heq
    · exact .inl (Value.scalar.inj (eq_of_same hs ht hsame)).2
    · rcases eq_scalar_iff.mp heq with ⟨c, -, hsame⟩ | hst
      · exact .inl (Value.scalar.inj (eq_of_same hs ht hsame)).2
      · exact .inr hst
  rcases hfaces with rfl | heq
  · rfl
  -- a truth value is no number, and is of no other type
  have truth {b : Bool} {u : Scalar} (hu : u.typeOf = .bool) : u.kind = .truth := by
    cases u with
    | bool b => rfl
    | int flavor | float flavor | str flavor => cases flavor <;> cases hu
    | type t => cases t <;> cases hu
    | _ => cases hu
  unfold strictEq at h
  split at h
  · next hsame => exact congrArg _ (Value.scalar.inj (eq_of_same hs ht hsame)).2
  split at h
  · next hnumbers =>
    obtain ⟨hleft, hright⟩ := Bool.and_eq_true_iff.mp hnumbers
    refine (Scalar.kind_of_eq heq).resolve_right ?_
    rintro (htruth | htruth) <;> obtain ⟨b, rfl⟩ := Scalar.kind_eq_truth_iff.mp htruth
    · cases hleft
    · cases hright
  split at h
  · next htype =>
    have htype : s.typeOf = t.typeOf := eq_of_beq htype
    refine (Scalar.kind_of_eq heq).elim (fun hkind => hkind) ?_
    rintro (htruth | htruth) <;> obtain ⟨b, rfl⟩ := Scalar.kind_eq_truth_iff.mp htruth
    · exact (truth (b := b) htype.symm).symm
    · exact truth (b := b) htype
  · cases h

/-- Strictly equal values face each other as strict equality makes sure of. -/
theorem faces_of_strictEq (ha : a.Outer objects) (hb : b.Outer objects)
    (h : a.strictEq b = .ok true) : a.Faces b := by
  have hmatched := matched_of_keyEq ha hb (keyEq_of_strictEq h)
  have hany (v : Value) : v.Every fun _ => True := every_of_forall (fun _ => trivial) v
  refine ⟨hmatched, ?_, fun hleft hright => ?_, ?_⟩
  · rintro id id' s t rfl rfl
    cases hmatched with
    | scalar hst => exact ⟨kind_of_strictEq ha.known.held hb.known.held h, hst⟩
  · exact hmatched.imp (fun _ _ hs ht hst => hst.inKind hs ht) hleft hright
  · rintro (hleft | hright)
    · exact hmatched.imp (fun _ _ hs _ hst => hst.inKind_left hs) hleft (hany b)
    · exact hmatched.imp (fun _ _ _ ht hst => hst.inKind_right ht) (hany a) hright

end Value

/-! ### Where values are compared strictly -/

section

variable {s : Schema} {names : TypeNames} {test : Value → Except Fault Bool} {ctx : Context}
  {x v : Value} {values : List Value} {w u : World} {d : Dataset}

/-- A schema that puts its value to a test succeeds only with values that pass it, as they are. -/
theorem passes_of_run {finding : TypeNames → Value → Finding}
    (hs : s.judgement? = some fun names x => acceptIf (test x) x (finding names x))
    (h : s.run ctx (.fresh x) w = (.ok d, u)) (hstatus : d.status = .success) :
    test x = .ok true ∧ d.value = x := by
  rw [Schema.run, Schema.validatorUpTo_eq, Schema.validator_eq_judge hs] at h
  obtain ⟨verdict, v, hverdict, h⟩ := bind_eq_ok h
  have hverdict : acceptIf (test x) x (finding ctx.typeNames x) = .ok verdict :=
    gives_withinExcept (I := fun _ => True) ⟨w, v, trivial, hverdict⟩
  cases verdict with
  | inr f => exact absurd hstatus (reject_ne_ok h)
  | inl y =>
    obtain ⟨rfl, -⟩ := pure_eq_ok h
    rcases htest : test x with f | (_ | _) <;> rw [htest] at hverdict <;> cases hverdict
    exact ⟨rfl, rfl⟩

theorem exists_of_amongStrictly (h : amongStrictly x values = .ok true) :
    ∃ v ∈ values, x.strictEq v = .ok true := by
  induction values with
  | nil => cases h
  | cons v rest ih =>
    rcases hequal : x.strictEq v with f | (_ | _) <;> rw [amongStrictly, hequal] at h
    · cases h
    · obtain ⟨v', hmem, hv'⟩ := ih h
      exact ⟨v', List.mem_cons_of_mem _ hmem, hv'⟩
    · exact ⟨v, List.mem_cons_self, hequal⟩

end

/-- What strict equality makes sure of, and with it a literal for what it accepts, a choice of values
for one of them, and an intersection for the outputs that it merges, unless they are mappings. -/
theorem strict_equality {objects : Nat → Value} :
    (∀ a b : Value, a.Outer objects → b.Outer objects → a.strictEq b = .ok true → a.Faces b) ∧
    (∀ (ctx : Context) (m v : Value) (expects : String) (x : Value) (w u : World) (d : Dataset),
      x.Outer objects → v.Outer objects →
      (Schema.literal m v expects).run ctx (.fresh x) w = (.ok d, u) → d.status = .success →
      d.value = x ∧ x.Faces v) ∧
    (∀ (ctx : Context) (m : Value) (keys : Bool) (values : List Value) (expects : String) (x : Value)
      (w u : World) (d : Dataset), x.Outer objects → (∀ v ∈ values, v.Outer objects) →
      (Schema.enum m keys values expects).run ctx (.fresh x) w = (.ok d, u) → d.status = .success →
      d.value = x ∧ ∃ v ∈ values, x.Faces v) ∧
    ∀ (first : Value) (rest : List Value) (y : Value), (∀ v ∈ first :: rest, v.Outer objects) →
      mergeAll? first rest = .ok (some y) →
      AllMappings (first :: rest) ∨ ∀ v ∈ rest, first.Faces v := by
  refine ⟨fun a b ha hb h => Value.faces_of_strictEq ha hb h, ?_, ?_, ?_⟩
  · intro ctx m v expects x w u d hx hv h hstatus
    obtain ⟨hequal, hvalue⟩ : x.strictEq v = .ok true ∧ d.value = x := passes_of_run rfl h hstatus
    exact ⟨hvalue, Value.faces_of_strictEq hx hv hequal⟩
  · intro ctx m keys values expects x w u d hx hvalues h hstatus
    obtain ⟨hamong, hvalue⟩ : amongStrictly x values = .ok true ∧ d.value = x :=
      passes_of_run rfl h hstatus
    obtain ⟨v, hmem, hequal⟩ := exists_of_amongStrictly hamong
    exact ⟨hvalue, v, hmem, Value.faces_of_strictEq hx (hvalues v hmem) hequal⟩
  · intro first rest y houter hmerge
    rw [List.forall_mem_cons] at houter
    have hagree := (exists_mergeAll?_iff houter.1.known.held
      fun v hv => (houter.2 v hv).known.held).mp ⟨y, hmerge⟩
    exact hagree.imp id fun hequal v hv =>
      Value.faces_of_strictEq houter.1 (houter.2 v hv) (hequal v hv)

/-- A list of numbers and texts is accepted where equal ones of the same kinds are expected. -/
theorem strict_equality_numbers :
    let text : Value := .scalar .shared (.str .base "a")
    let v : Value := .ofList [.int 2, text]
    let x : Value := .ofList [.float (.finite false 2 0), text]
    let ctx : Context := ⟨.default, [], [], [], ⟨fun _ _ _ => .error .callable, 0⟩⟩
    x.Outer (fun _ => .null) ∧ v.Outer (fun _ => .null) ∧
      (Schema.literal .null v "[2, 'a']").run ctx (.fresh x) .empty = (.ok (.valid x), .empty) ∧
      x.Faces v := by
  intro text v x ctx
  have scalar {id : Identity} {s : Scalar} (hid : ∀ i, id ≠ .given i)
      (hnull : s ≠ .null) (hundefined : s ≠ .undefined) :
      (Value.scalar id s).Outer fun _ => .null := by
    have hheld : (Value.scalar id s).Held fun _ => .null := fun i hi => absurd hi (hid i)
    refine ⟨.scalar hheld ⟨fun h => ?_, fun h => ?_⟩, .scalar hheld⟩
    · cases s <;> first | exact absurd rfl hnull | cases h
    · cases s <;> first | exact absurd rfl hundefined | cases h
  have list {items : List Value} (h : ∀ y ∈ items, y.Outer fun _ => .null) :
      (Value.ofList items).Outer fun _ => .null :=
    ⟨.list fun y hy => (h y hy).sound, .list (fun i hi => by cases hi) fun y hy => (h y hy).known⟩
  have hx : x.Outer fun _ => .null := list (by
    simp only [List.forall_mem_cons]
    exact ⟨scalar (by simp) (by simp) (by simp), scalar (by simp) (by simp) (by simp),
      List.forall_mem_nil _⟩)
  have hv : v.Outer fun _ => .null := list (by
    simp only [List.forall_mem_cons]
    exact ⟨scalar (by simp) (by simp) (by simp), scalar (by simp) (by simp) (by simp),
      List.forall_mem_nil _⟩)
  have hrun : (Schema.literal .null v "[2, 'a']").run ctx (.fresh x) .empty =
      (.ok (.valid x), .empty) := by rfl
  exact ⟨hx, hv, hrun, (strict_equality.2.1 ctx .null v _ x .empty .empty _ hx hv hrun rfl).2⟩

/-- Inside a list a truth value may face a number: a list of the number one is strictly equal to a
list of the truth value true, which a literal accepts for it. -/
theorem literal_accepts_nested_truth :
    let one : Value := .ofList [.int 1]
    let truth : Value := .ofList [.bool true]
    let ctx : Context := ⟨.default, [], [], [], ⟨fun _ _ _ => .error .callable, 0⟩⟩
    truth.strictEq one = .ok true ∧ ¬truth.Matched Scalar.AgreesInKind one ∧
      (Schema.literal .null one "[1]").run ctx (.fresh truth) .empty = (.ok (.valid truth), .empty) := by
  intro one truth ctx
  refine ⟨rfl, fun h => ?_, rfl⟩
  change Value.Matched _ (.list .fresh .base [.scalar .shared (.bool true)])
    (.list .fresh .base [.scalar .shared (.int .base 1)]) at h
  cases h with
  | list h =>
    cases h with
    | cons h _ =>
      cases h with
      | scalar h => cases h.1

end Conform
