/-
  Conform/Proofs/Data.lean
  ========================
  **Data**: what can be said of a value scalar by scalar (`Value.Every`).  A
  value has a quoted text exactly when its integers are short (`legible_iff`),
  two values can be compared when no two of their scalars refuse it
  (`exists_eq`, `exists_ifComparable`), and what can be a key can be compared
  with what can be a key.

  `Value.Data` are values of scalars of some kinds in which no value is
  missing, with keys that can be told apart and shown.
-/
import Conform.Constraint
import Conform.Coercion

namespace Conform

open Number (tenPow digitLimit)

/-- Induction over values, with the parts of a container given one by one. -/
theorem Value.itemInduction {P : Value → Prop}
    (scalar : ∀ id s, P (.scalar id s))
    (list : ∀ id flavor items, (∀ x ∈ items, P x) → P (.list id flavor items))
    (tuple : ∀ id items, (∀ x ∈ items, P x) → P (.tuple id items))
    (set : ∀ id frozen items, (∀ x ∈ items, P x) → P (.set id frozen items))
    (mapping : ∀ id kind entries, (∀ e ∈ entries, P e.1 ∧ P e.2) →
      P (.mapping id kind entries)) : ∀ v, P v := by
  intro v
  refine @Value.rec P (fun xs => ∀ x ∈ xs, P x) (fun es => ∀ e ∈ es, P e.1 ∧ P e.2)
    (fun e => P e.1 ∧ P e.2) scalar list tuple set mapping ?_ ?_ ?_ ?_ ?_ v
  · exact fun _ hx => by cases hx
  · exact fun _ _ hhead htail => List.forall_mem_cons.mpr ⟨hhead, htail⟩
  · exact fun _ he => by cases he
  · exact fun _ _ hhead htail => List.forall_mem_cons.mpr ⟨hhead, htail⟩
  · exact fun _ _ hkey hvalue => ⟨hkey, hvalue⟩

/-- Every scalar of a value has a property. -/
inductive Value.Every (P : Scalar → Prop) : Value → Prop where
  | scalar {id : Identity} {s : Scalar} : P s → Every P (.scalar id s)
  | list {id : Identity} {flavor : Flavor} {items : List Value} :
      (∀ x ∈ items, Every P x) → Every P (.list id flavor items)
  | tuple {id : Identity} {items : List Value} :
      (∀ x ∈ items, Every P x) → Every P (.tuple id items)
  | set {id : Identity} {frozen : Bool} {items : List Value} :
      (∀ x ∈ items, Every P x) → Every P (.set id frozen items)
  | mapping {id : Identity} {kind : MappingKind} {entries : List (Value × Value)} :
      (∀ e ∈ entries, Every P e.1) → (∀ e ∈ entries, Every P e.2) →
      Every P (.mapping id kind entries)

theorem Value.Every.mono {P Q : Scalar → Prop} {v : Value} (h : v.Every P)
    (hPQ : ∀ s, P s → Q s) : v.Every Q := by
  induction h with
  | scalar hs => exact .scalar (hPQ _ hs)
  | list _ ih => exact .list ih
  | tuple _ ih => exact .tuple ih
  | set _ ih => exact .set ih
  | mapping _ _ ihKeys ihValues => exact .mapping ihKeys ihValues

section

variable {P : Scalar → Prop}

theorem Value.every_list {id : Identity} {flavor : Flavor} {items : List Value} :
    (Value.list id flavor items).Every P ↔ ∀ x ∈ items, x.Every P :=
  ⟨fun h => by cases h; assumption, .list⟩

theorem Value.every_tuple {id : Identity} {items : List Value} :
    (Value.tuple id items).Every P ↔ ∀ x ∈ items, x.Every P :=
  ⟨fun h => by cases h; assumption, .tuple⟩

theorem Value.every_set {id : Identity} {frozen : Bool} {items : List Value} :
    (Value.set id frozen items).Every P ↔ ∀ x ∈ items, x.Every P :=
  ⟨fun h => by cases h; assumption, .set⟩

theorem Value.every_mapping {id : Identity} {kind : MappingKind}
    {entries : List (Value × Value)} :
    (Value.mapping id kind entries).Every P ↔ ∀ e ∈ entries, e.1.Every P ∧ e.2.Every P := by
  constructor
  · intro h
    cases h with
    | mapping hkeys hvalues => exact fun e he => ⟨hkeys e he, hvalues e he⟩
  · exact fun h => .mapping (fun e he => (h e he).1) fun e he => (h e he).2

theorem Value.every_scalar {id : Identity} {s : Scalar} : (Value.scalar id s).Every P ↔ P s :=
  ⟨fun h => by cases h; assumption, .scalar⟩

end

theorem Value.every_of_forall {P : Scalar → Prop} (h : ∀ s, P s) (v : Value) : v.Every P := by
  induction v using Value.itemInduction with
  | scalar id s => exact .scalar (h s)
  | list id flavor items ih => exact .list ih
  | tuple id items ih => exact .tuple ih
  | set id frozen items ih => exact .set ih
  | mapping id kind entries ih => exact .mapping (fun e he => (ih e he).1) fun e he => (ih e he).2

/-! ### Texts -/

/-- The value has a quoted text. -/
def Value.Legible (v : Value) : Prop := ∃ t, v.quoted = .ok t

/-- The scalar is no integer with more digits than a text may have. -/
def Scalar.IsShort : Scalar → Prop
  | .int _ n => n.natAbs < tenPow digitLimit
  | .member m =>
    match m.value with
    | .int n => n.natAbs < tenPow digitLimit
    | _ => True
  | _ => True

/-- Something that can be shown exactly if `p` holds, and else has too many digits. -/
def ShownIf {α : Type} (p : Prop) (r : Except Fault α) : Prop :=
  (p ∧ ∃ a, r = .ok a) ∨ (¬p ∧ r = .error .digitLimit)

section

variable {α β : Type} {p q : Prop} {r : Except Fault α}

theorem shownIf_ok (a : α) (h : p) : ShownIf p (.ok a : Except Fault α) := .inl ⟨h, a, rfl⟩

theorem ShownIf.congr (h : ShownIf p r) (hpq : p ↔ q) : ShownIf q r := by rwa [← hpq]

theorem ShownIf.bind {f : α → Except Fault β} (hr : ShownIf p r) (hf : ∀ a, ShownIf q (f a)) :
    ShownIf (p ∧ q) (r >>= f) := by
  rcases hr with ⟨hp, a, rfl⟩ | ⟨hp, rfl⟩
  · rcases hf a with ⟨hq, hb⟩ | ⟨hq, hb⟩
    · exact .inl ⟨⟨hp, hq⟩, hb⟩
    · exact .inr ⟨fun h => hq h.2, hb⟩
  · exact .inr ⟨fun h => hp h.1, rfl⟩

theorem ShownIf.map {f : α → β} (hr : ShownIf p r) : ShownIf p (r >>= fun a => .ok (f a)) :=
  (hr.bind (q := True) fun a => shownIf_ok (f a) trivial).congr (and_iff_left trivial)

end

theorem integerText_shown (n : Int) : ShownIf (n.natAbs < tenPow digitLimit) (integerText n) := by
  unfold integerText Number.intText?
  by_cases h : n.natAbs < tenPow digitLimit
  · rw [if_pos h]
    exact shownIf_ok _ h
  · rw [if_neg h]
    exact .inr ⟨h, rfl⟩

theorem Scalar.quoted_shown (s : Scalar) : ShownIf s.IsShort s.quoted := by
  cases s with
  | int flavor n => exact integerText_shown n
  | member m =>
    rcases m with ⟨e, name, value⟩
    cases value with
    | int n =>
      rcases integerText_shown n with ⟨hn, t, ht⟩ | ⟨hn, hf⟩
      · refine .inl ⟨hn, ?_⟩
        simp only [quoted, EnumValue.quoted, ht]
        exact ⟨_, rfl⟩
      · refine .inr ⟨hn, ?_⟩
        simp only [quoted, EnumValue.quoted, hf]
    | _ => exact shownIf_ok _ trivial
  | _ => exact shownIf_ok _ trivial

namespace Value

theorem quotedItems_shown {xs : List Value}
    (h : ∀ x ∈ xs, ShownIf (x.Every Scalar.IsShort) x.quoted) :
    ShownIf (∀ x ∈ xs, x.Every Scalar.IsShort) (quotedItems xs) := by
  induction xs with
  | nil => exact shownIf_ok _ fun _ hx => by cases hx
  | cons x rest ih =>
    rw [List.forall_mem_cons] at h
    exact (h.1.bind fun _ => (ih h.2).map).congr List.forall_mem_cons.symm

theorem quotedEntries_shown {es : List (Value × Value)}
    (h : ∀ e ∈ es, ShownIf (e.1.Every Scalar.IsShort) e.1.quoted ∧
      ShownIf (e.2.Every Scalar.IsShort) e.2.quoted) :
    ShownIf (∀ e ∈ es, e.1.Every Scalar.IsShort ∧ e.2.Every Scalar.IsShort)
      (quotedEntries es) := by
  induction es with
  | nil => exact shownIf_ok _ fun _ he => by cases he
  | cons e rest ih =>
    rw [List.forall_mem_cons] at h
    refine (h.1.1.bind fun _ => h.1.2.bind fun _ => (ih h.2).map).congr ?_
    rw [List.forall_mem_cons, and_assoc]

theorem quoted_shown (v : Value) : ShownIf (v.Every Scalar.IsShort) v.quoted := by
  induction v using itemInduction with
  | scalar id s => exact (Scalar.quoted_shown s).congr every_scalar.symm
  | list id flavor items ih => exact (quotedItems_shown ih).map.congr every_list.symm
  | tuple id items ih => exact (quotedItems_shown ih).map.congr every_tuple.symm
  | set id frozen items ih => exact (quotedItems_shown ih).map.congr every_set.symm
  | mapping id kind entries ih => exact (quotedEntries_shown ih).map.congr every_mapping.symm

/-- A value has a quoted text exactly when none of its integers has too many digits. -/
theorem legible_iff (v : Value) : v.Legible ↔ v.Every Scalar.IsShort := by
  rcases quoted_shown v with ⟨hshort, ht⟩ | ⟨hshort, hf⟩
  · exact iff_of_true ht hshort
  · refine iff_of_false ?_ hshort
    rintro ⟨t, ht⟩
    cases hf.symm.trans ht

/-- An object, which is asked for its text. -/
def isObject : Value → Bool
  | .scalar _ (.object _) => true
  | _ => false

/-- Of a value that is no object there is a plain text wherever there is a quoted one. -/
theorem text_cases {v : Value} (hobject : v.isObject = false) :
    (∃ t, v.text = .ok t) ∨ (v.text = .error .digitLimit ∧ v.quoted = .error .digitLimit) := by
  have same {w : Value} (h : w.text = w.quoted) :
      (∃ t, w.text = .ok t) ∨ (w.text = .error .digitLimit ∧ w.quoted = .error .digitLimit) := by
    rw [h, and_self]
    exact (quoted_shown w).imp (·.2) (·.2)
  cases v with
  | scalar id s =>
    cases s with
    | object c => cases hobject
    | member m =>
      rcases hvalue : m.value.quoted with f | t
      · by_cases hnumeric : m.enumeration.numeric = true
        · cases hkind : m.value with
          | int n =>
            rw [hkind] at hvalue
            rcases integerText_shown n with ⟨-, t, ht⟩ | ⟨-, hf⟩
            · cases ht.symm.trans hvalue
            · refine .inr ⟨?_, ?_⟩ <;>
                simp only [text, quoted, Scalar.text, Scalar.quoted, hnumeric, hkind,
                  EnumValue.quoted, hf, if_true]
          | _ =>
            rw [hkind] at hvalue
            cases hvalue
        · simp only [text, Scalar.text, hnumeric]
          exact .inl ⟨_, rfl⟩
      · simp only [text, Scalar.text, hvalue]
        split <;> exact .inl ⟨_, rfl⟩
    | int flavor n => exact same rfl
    | _ => exact .inl ⟨_, rfl⟩
  | mapping id kind entries =>
    cases kind with
    | view =>
      unfold text quoted
      have hentries := quotedEntries_shown fun e (_ : e ∈ entries) =>
        ⟨quoted_shown e.1, quoted_shown e.2⟩
      rcases hentries with
        ⟨-, parts, hparts⟩ | ⟨-, hf⟩
      · simp only [hparts]
        exact .inl ⟨_, rfl⟩
      · simp only [hf]
        exact .inr ⟨rfl, rfl⟩
    | _ => exact same rfl
  | _ => exact same rfl

theorem exists_text {v : Value} (hlegible : v.Legible) (hobject : v.isObject = false) :
    ∃ t, v.text = .ok t := by
  obtain ⟨q, hq⟩ := hlegible
  rcases text_cases hobject with ht | ⟨-, hf⟩
  · exact ht
  · cases hf.symm.trans hq

theorem fault_of_text {v : Value} (hobject : v.isObject = false) {f : Fault}
    (h : v.text = .error f) : f = .digitLimit := by
  rcases text_cases hobject with ⟨t, ht⟩ | ⟨hf, -⟩
  · cases ht.symm.trans h
  · cases hf.symm.trans h
    rfl

end Value

/-! ### Comparisons -/

/-- The scalar counts as a number in comparisons for equality. -/
def Scalar.isNumeric : Scalar → Bool
  | .complex .. => true
  | s => s.quantity?.isSome

/-- Neither of two scalars refuses to be compared for equality with the other. -/
def Scalar.Level (a b : Scalar) : Prop :=
  (a.isSignaling = true → b.isNumeric = false) ∧ (b.isSignaling = true → a.isNumeric = false)

/-- Neither of two scalars refuses to be ordered with the other: a decimal refuses to be ordered
with what is not a number, and so does what is not a number with a decimal. -/
def Scalar.Clear (a b : Scalar) : Prop :=
  ∀ p q, a.quantity? = some p → b.quantity? = some q → p.compare? q = none →
    a.isDecimal = false ∧ b.isDecimal = false

theorem Scalar.exists_eq {a b : Scalar} (h : a.Level b) : ∃ r, a.eq b = .ok r := by
  obtain ⟨hleft, hright⟩ := h
  unfold eq
  split
  all_goals try exact ⟨_, rfl⟩
  · split
    · split
      · exact ⟨_, rfl⟩
      · split
        · next hs => cases (hright hs)
        · exact ⟨_, rfl⟩
    · exact ⟨_, rfl⟩
  · split
    · split
      · exact ⟨_, rfl⟩
      · split
        · next hs => cases (hleft hs)
        · exact ⟨_, rfl⟩
    · exact ⟨_, rfl⟩
  · split
    · next p q hp hq =>
      have hnumeric {s : Scalar} {q : Quantity} (hs : s.quantity? = some q) :
          s.isNumeric = true := by
        cases s <;> first | rfl | exact Option.isSome_iff_exists.mpr ⟨_, hs⟩
      split
      · next hs =>
        rcases Bool.or_eq_true_iff.mp hs with hs | hs
        · cases (hnumeric hq).symm.trans (hleft hs)
        · cases (hnumeric hp).symm.trans (hright hs)
      · exact ⟨_, rfl⟩
    all_goals exact ⟨_, rfl⟩

theorem Scalar.fault_of_eq {a b : Scalar} {f : Fault} (hf : a.eq b = .error f) : f = .decimal := by
  unfold Scalar.eq at hf
  repeat' split at hf
  all_goals cases hf
  all_goals rfl

theorem Scalar.fault_of_relate {r : Relation} {a b : Scalar} (h : a.Clear b) {f : Fault}
    (hf : a.relate r b = .error f) : f.kind = .type := by
  unfold relate at hf
  split at hf
  · next p q hp hq =>
    split at hf
    · cases hf
    · next hnone =>
      obtain ⟨ha, hb⟩ := h p q hp hq hnone
      rw [ha, hb] at hf
      cases hf
  · split at hf
    · cases hf
    · split at hf
      · cases hf
      · cases hf
      · split at hf
        · cases hf
        · cases hf
          rfl
      · split at hf
        · cases hf
        · cases hf
          rfl
      · cases hf
      · cases hf
        rfl

namespace Value

theorem exists_eqItems {xs ys : List Value} (h : ∀ x ∈ xs, ∀ y ∈ ys, ∃ r, x.eq y = .ok r) :
    ∃ r, eqItems xs ys = .ok r := by
  induction xs generalizing ys with
  | nil => exact ⟨_, rfl⟩
  | cons x rest ih =>
    cases ys with
    | nil => exact ⟨_, rfl⟩
    | cons y ys =>
      have hrest : ∃ r, eqItems rest ys = .ok r :=
        ih fun a ha b hb => h a (List.mem_cons_of_mem x ha) b (List.mem_cons_of_mem y hb)
      obtain ⟨r, hr⟩ := h x List.mem_cons_self y List.mem_cons_self
      unfold eqItems
      dsimp only
      split
      · exact hrest
      · rw [hr]
        cases r with
        | true => exact hrest
        | false => exact ⟨_, rfl⟩

theorem exists_eqEntries {xs ys : List (Value × Value)}
    (h : ∀ e ∈ xs, ∀ f ∈ ys, ∃ r, e.2.eq f.2 = .ok r) : ∃ r, eqEntries xs ys = .ok r := by
  induction xs with
  | nil => exact ⟨_, rfl⟩
  | cons e rest ih =>
    have hrest := ih fun a ha => h a (List.mem_cons_of_mem e ha)
    unfold eqEntries
    split
    · exact ⟨_, rfl⟩
    · next k w hfound =>
      obtain ⟨r, hr⟩ := h e List.mem_cons_self _ (List.mem_of_find?_eq_some hfound)
      split
      · exact hrest
      · rw [hr]
        cases r with
        | true => exact hrest
        | false => exact ⟨_, rfl⟩

/-- No scalar of one value refuses to be compared with a scalar of the other. -/
def Level (x y : Value) : Prop := x.Every fun a => y.Every fun b => a.Level b

theorem exists_eq {x y : Value} (h : x.Level y) : ∃ r, x.eq y = .ok r := by
  have parts {Q : Value → Prop} {x : Value} (hx : x.Every fun a => ∀ z, Q z → z.Every (a.Level ·))
      {z : Value} (hz : Q z) : x.Level z := hx.mono fun a ha => ha z hz
  induction x using itemInduction generalizing y with
  | scalar id a =>
    rw [Level, every_scalar] at h
    cases y with
    | scalar id' b =>
      rw [every_scalar] at h
      cases a with
      | object c => exact ⟨_, rfl⟩
      | _ => exact Scalar.exists_eq h
    | _ => exact ⟨_, rfl⟩
  | list id flavor items ih =>
    rw [Level, every_list] at h
    cases y with
    | list id' flavor' ys =>
      unfold eq
      dsimp only
      split
      · refine exists_eqItems fun x hx z hz => ih x hx (parts (Q := (· ∈ ys)) ?_ hz)
        exact (h x hx).mono fun a ha => every_list.mp ha
      · exact ⟨_, rfl⟩
    | _ => exact ⟨_, rfl⟩
  | tuple id items ih =>
    rw [Level, every_tuple] at h
    cases y with
    | tuple id' ys =>
      refine exists_eqItems fun x hx z hz => ih x hx (parts (Q := (· ∈ ys)) ?_ hz)
      exact (h x hx).mono fun a ha => every_tuple.mp ha
    | _ => exact ⟨_, rfl⟩
  | set id frozen items ih => cases y <;> exact ⟨_, rfl⟩
  | mapping id kind entries ih =>
    rw [Level, every_mapping] at h
    cases y with
    | mapping id' kind' ys =>
      unfold eq
      dsimp only
      split
      · exact ⟨_, rfl⟩
      · obtain ⟨r, hr⟩ : ∃ r, eqEntries entries ys = .ok r := by
          refine exists_eqEntries fun e he f hf => (ih e he).2 ?_
          exact (h e he).2.mono fun a ha => (every_mapping.mp ha f hf).2
        rw [hr]
        cases r <;> exact ⟨_, rfl⟩
    | _ => exact ⟨_, rfl⟩

theorem fault_of_eqItems {xs ys : List Value} {f : Fault}
    (h : ∀ x ∈ xs, ∀ {y}, x.eq y = .error f → f = .decimal)
    (hf : eqItems xs ys = .error f) : f = .decimal := by
  induction xs generalizing ys with
  | nil => cases hf
  | cons x rest ih =>
    rw [List.forall_mem_cons] at h
    cases ys with
    | nil => cases hf
    | cons y ys =>
      unfold eqItems at hf
      dsimp only at hf
      split at hf
      · exact ih h.2 hf
      · split at hf
        · exact ih h.2 hf
        · exact h.1 hf

theorem fault_of_eqEntries {xs ys : List (Value × Value)} {f : Fault}
    (h : ∀ e ∈ xs, ∀ {y}, e.2.eq y = .error f → f = .decimal)
    (hf : eqEntries xs ys = .error f) : f = .decimal := by
  induction xs with
  | nil => cases hf
  | cons e rest ih =>
    rw [List.forall_mem_cons] at h
    unfold eqEntries at hf
    split at hf
    · cases hf
    · split at hf
      · exact ih h.2 hf
      · split at hf
        · exact ih h.2 hf
        · exact h.1 hf

/-- A comparison fails only because of a decimal that refuses to be compared. -/
theorem fault_of_eq {x y : Value} {f : Fault} (hf : x.eq y = .error f) : f = .decimal := by
  induction x using itemInduction generalizing y with
  | scalar id s =>
    cases y with
    | scalar id' t =>
      cases s with
      | object c => cases hf
      | _ => exact Scalar.fault_of_eq hf
    | _ => cases hf
  | list id flavor xs ih =>
    cases y with
    | list id' flavor' ys =>
      unfold eq at hf
      dsimp only at hf
      split at hf
      · exact fault_of_eqItems ih hf
      · cases hf
    | _ => cases hf
  | tuple id xs ih =>
    cases y with
    | tuple id' ys => exact fault_of_eqItems ih hf
    | _ => cases hf
  | set id frozen xs ih => cases y <;> cases hf
  | mapping id kind xs ih =>
    cases y with
    | mapping id' kind' ys =>
      unfold eq at hf
      dsimp only at hf
      split at hf
      · cases hf
      · split at hf
        · cases hf
        · exact fault_of_eqEntries (fun e he => (ih e he).2) hf
    | _ => cases hf

theorem isHashable_of_allHashable {xs : List Value} (h : allHashable xs = true) {x : Value}
    (hx : x ∈ xs) : x.isHashable = true := by
  induction xs with
  | nil => cases hx
  | cons y rest ih =>
    rw [allHashable, Bool.and_eq_true] at h
    rcases List.mem_cons.mp hx with rfl | hx
    · exact h.1
    · exact ih h.2 hx

theorem allHashable_of {xs : List Value} (h : ∀ x ∈ xs, x.isHashable = true) :
    allHashable xs = true := by
  induction xs with
  | nil => rfl
  | cons y rest ih =>
    rw [List.forall_mem_cons] at h
    rw [allHashable, h.1, ih h.2]
    rfl

/-- What can be a key can be compared with what can be a key. -/
theorem exists_eq_of_isHashable {x y : Value} (hx : x.isHashable = true)
    (hy : y.isHashable = true) : ∃ r, x.eq y = .ok r := by
  induction x using itemInduction generalizing y with
  | scalar id a =>
    cases y with
    | scalar id' b =>
      have quiet {id : Identity} {s : Scalar} (hs : (scalar id s).isHashable = true) :
          s.isSignaling = false := by
        cases s with
        | decimal d => exact Bool.not_eq_true' _ ▸ hs
        | _ => rfl
      cases a with
      | object c => exact ⟨_, rfl⟩
      | _ =>
        refine Scalar.exists_eq ⟨fun hs => ?_, fun hs => ?_⟩
        · cases (quiet hx).symm.trans hs
        · cases (quiet hy).symm.trans hs
    | _ => exact ⟨_, rfl⟩
  | tuple id items ih =>
    cases y with
    | tuple id' ys =>
      exact exists_eqItems fun a ha b hb =>
        ih a ha (isHashable_of_allHashable hx ha) (isHashable_of_allHashable hy hb)
    | _ => exact ⟨_, rfl⟩
  | set id frozen items ih => cases y <;> exact ⟨_, rfl⟩
  | list => cases hx
  | mapping => cases hx

/-- No scalar of one value refuses to be ordered or compared with a scalar of the other; two scalars
are only ordered. -/
def Clear : Value → Value → Prop
  | .scalar _ a, .scalar _ b => a.Clear b
  | x, y => x.Every fun a => y.Every fun b => a.Clear b ∧ a.Level b

theorem clear_of_every {x y : Value}
    (h : x.Every fun a => y.Every fun b => a.Clear b ∧ a.Level b) : x.Clear y := by
  cases x with
  | scalar id a =>
    cases y with
    | scalar id' b => exact (every_scalar.mp (every_scalar.mp h)).1
    | _ => exact h
  | _ => exact h

theorem fault_of_relateItems {r : Relation} {xs ys : List Value} {f : Fault}
    (hmatch : ∀ x ∈ xs, ∀ y ∈ ys, ∃ b, x.eq y = .ok b)
    (hrelate : ∀ x ∈ xs, ∀ y ∈ ys, x.relate r y = .error f → f.kind = .type)
    (hf : relateItems r xs ys = .error f) : f.kind = .type := by
  induction xs generalizing ys with
  | nil => cases hf
  | cons x rest ih =>
    cases ys with
    | nil => cases hf
    | cons y ys =>
      obtain ⟨b, hb⟩ : ∃ b, x.matches? y = .ok b := by
        unfold matches?
        split
        · exact ⟨_, rfl⟩
        · exact hmatch x List.mem_cons_self y List.mem_cons_self
      unfold relateItems at hf
      simp only [hb] at hf
      cases b with
      | true =>
        exact ih (fun a ha b hb => hmatch a (List.mem_cons_of_mem x ha) b (List.mem_cons_of_mem y hb))
          (fun a ha b hb => hrelate a (List.mem_cons_of_mem x ha) b (List.mem_cons_of_mem y hb)) hf
      | false => exact hrelate x List.mem_cons_self y List.mem_cons_self hf

/-- Ordering two values of which no scalars refuse it fails at most because they have no order. -/
theorem fault_of_relate {r : Relation} {x y : Value} (h : x.Clear y) {f : Fault}
    (hf : x.relate r y = .error f) : f.kind = .type := by
  have items {xs ys : List Value}
      (ih : ∀ x ∈ xs, ∀ {y}, x.Clear y → x.relate r y = .error f → f.kind = .type)
      (hclear : ∀ x ∈ xs, x.Every fun a => ∀ y ∈ ys, y.Every fun b => a.Clear b ∧ a.Level b)
      (hf : relateItems r xs ys = .error f) : f.kind = .type := by
    refine fault_of_relateItems (fun x hx y hy => exists_eq ?_) (fun x hx y hy => ih x hx ?_) hf
    · exact (hclear x hx).mono fun a ha => (ha y hy).mono fun b hb => hb.2
    · exact clear_of_every ((hclear x hx).mono fun a ha => ha y hy)
  induction x using itemInduction generalizing y with
  | scalar id a =>
    cases y with
    | scalar id' b => exact Scalar.fault_of_relate h hf
    | _ =>
      cases hf
      rfl
  | list id flavor xs ih =>
    cases y with
    | list id' flavor' ys =>
      exact items ih (fun x hx => (every_list.mp h x hx).mono fun a ha => every_list.mp ha) hf
    | _ =>
      cases hf
      rfl
  | tuple id xs ih =>
    cases y with
    | tuple id' ys =>
      exact items ih (fun x hx => (every_tuple.mp h x hx).mono fun a ha => every_tuple.mp ha) hf
    | _ =>
      cases hf
      rfl
  | set id frozen xs ih =>
    cases y <;> cases hf
    all_goals rfl
  | mapping id kind entries ih =>
    cases hf
    rfl

/-- A comparison counts as one that does not hold when there is no order. -/
theorem exists_ifComparable {r : Relation} {x y : Value} (h : x.Clear y) :
    ∃ b, ifComparable (x.relate r y) = .ok b := by
  rcases hresult : x.relate r y with f | b
  · exact ⟨false, by rw [ifComparable, fault_of_relate h hresult]; rfl⟩
  · exact ⟨b, rfl⟩

/-- Strict equality compares numbers, which never refuse it, and values of one type. -/
theorem exists_strictEq {x y : Value} (h : x.typeOf = y.typeOf → x.Level y) :
    ∃ r, x.strictEq y = .ok r := by
  unfold strictEq
  split
  · exact ⟨_, rfl⟩
  · split
    · next hnumbers =>
      rw [Bool.and_eq_true] at hnumbers
      have quiet {x : Value} (hx : x.isNumber = true) : x.Every fun a => a.isSignaling = false := by
        cases x with
        | scalar id a =>
          cases a with
          | decimal d => cases hx
          | _ => exact .scalar rfl
        | _ => cases hx
      refine exists_eq ((quiet hnumbers.1).mono fun a ha => (quiet hnumbers.2).mono fun b hb => ?_)
      exact ⟨fun hs => (by cases ha.symm.trans hs), fun hs => (by cases hb.symm.trans hs)⟩
    · split
      · next htype => exact exists_eq (h (eq_of_beq htype))
      · exact ⟨_, rfl⟩

end Value

/-! ### Conversions -/

/-- No format for moments is a malformed pattern. -/
def Target.ReadsFormats : Target → Prop
  | .date formats => ∀ format ∈ formats, ∀ text reason position,
      Calendar.parseFormat text format.toList ≠ .error (.malformed reason position)
  | _ => True

section

open Value

variable {f : Fault}

theorem fault_of_map {α β : Type} {r : Except Fault α} {g : α → β} (h : r.map g = .error f) :
    r = .error f := by
  cases r with
  | error e =>
    cases h
    rfl
  | ok a => cases h

theorem fault_of_readInt {s : List Char} (h : readInt s = .error f) : f = .badValue := by
  unfold readInt at h
  split at h
  · cases h
  · cases h
    rfl

theorem fault_of_readFloat {s : List Char} (h : readFloat s = .error f) : f = .badValue := by
  unfold readFloat at h
  split at h
  · cases h
  · cases h
    rfl

theorem fault_of_momentAfterEpoch {n : Int} (h : momentAfterEpoch n = .error f) :
    f = .outOfRange := by
  unfold momentAfterEpoch at h
  split at h
  · cases h
  · cases h
    rfl

theorem fault_of_readFormats {formats : List String} (hformats : (Target.date formats).ReadsFormats)
    {s : List Char} (h : readFormats s formats = .error f) : f = .outOfRange := by
  induction formats with
  | nil => cases h
  | cons format rest ih =>
    rw [Target.ReadsFormats, List.forall_mem_cons] at hformats
    unfold readFormats at h
    split at h
    · cases h
    · exact ih hformats.2 h
    · exact ih hformats.2 h
    · next reason position hparse => exact (hformats.1 _ _ _ hparse).elim
    · cases h
      rfl

theorem fault_of_readMoment {formats : List String} (hformats : (Target.date formats).ReadsFormats)
    {s : String} (h : readMoment formats s = .error f) : f.isConversion = true := by
  unfold readMoment at h
  rcases hread : readFormats (Text.trim s.toList) formats with e | (_ | d)
  · simp only [hread] at h
    cases h
    rw [fault_of_readFormats hformats hread]
    rfl
  · simp only [hread] at h
    cases hmoment : Calendar.parseDateTime? (withOffset (Text.trim s.toList)) with
    | some d =>
      rw [hmoment] at h
      cases h
    | none =>
      rw [hmoment] at h
      cases h
      rfl
  · simp only [hread] at h
    cases h

theorem isConversion_of_text {v : Value} (hobject : v.isObject = false)
    (h : v.text = .error f) : f.isConversion = true := by
  rw [fault_of_text hobject h]
  rfl

theorem fault_of_toText {v : Value} (hobject : v.isObject = false)
    (h : Target.toText v = .error f) : f.isConversion = true := by
  have decoded {b : List UInt8} (h : (decodeText b).map Value.str = .error f) :
      f.isConversion = true := by
    have h := fault_of_map h
    unfold decodeText at h
    split at h
    · cases h
    · cases h
      rfl
  unfold Target.toText at h
  split at h
  · next id s =>
    split at h
    · cases h
      rfl
    · exact decoded h
    · exact decoded h
    · exact isConversion_of_text hobject (fault_of_map h)
  · exact isConversion_of_text hobject (fault_of_map h)

theorem fault_of_toFloat {v : Value} (hobject : v.isObject = false)
    (h : toFloat v = .error f) : f.isConversion = true := by
  unfold toFloat at h
  split at h
  · unfold floatOfInt at h
    split at h
    · cases h
    · cases h
      rfl
  · split at h
    · split at h
      · cases h
      · cases h
      · split at h
        · cases h
          rfl
        · cases h
      · rw [fault_of_readFloat h]
        rfl
      · rw [fault_of_readFloat h]
        rfl
      · rw [fault_of_readFloat h]
        rfl
      · cases hobject
      · cases h
        rfl
    · cases h
      rfl

theorem fault_of_toNumber {v : Value} (hobject : v.isObject = false)
    (h : Target.toNumber v = .error f) : f.isConversion = true := by
  unfold Target.toNumber at h
  split at h
  · next id s =>
    split at h
    · cases h
    · cases h
    · unfold Target.readNumber at h
      split at h
      · cases h
      · split at h
        · cases h
        · rw [fault_of_readFloat (fault_of_map h)]
          rfl
    · cases h
      rfl
    · have hfresh : (Value.scalar .fresh s).isObject = (Value.scalar id s).isObject := by
        cases s <;> rfl
      exact fault_of_toFloat (hfresh.trans hobject) (fault_of_map h)
  · cases h
    rfl

theorem fault_of_isTrue {v : Value} (hobject : v.isObject = false) : v.isTrue ≠ .error f := by
  intro h
  cases v with
  | scalar id s =>
    cases s with
    | object c => cases hobject
    | _ => cases h
  | _ => cases h

theorem fault_of_toInteger {v : Value} (hobject : v.isObject = false)
    (h : Target.toInteger v = .error f) : f.isConversion = true := by
  have read {v : Value} (hobject : v.isObject = false)
      (h : (v.text.bind fun t => (readInt t.toList).map Value.int) = .error f) :
      f.isConversion = true := by
    rcases htext : v.text with e | t
    · rw [htext] at h
      cases h
      exact isConversion_of_text hobject htext
    · rw [htext] at h
      rw [fault_of_readInt (fault_of_map h)]
      rfl
  unfold Target.toInteger at h
  split at h
  · next id s =>
    split at h
    · cases h
    · cases h
      rfl
    · cases h
      rfl
    · have h := fault_of_map h
      unfold wholeFloat at h
      split at h
      · cases h
      · cases h
        rfl
    · unfold Target.readInteger at h
      split at h
      · cases h
      · rw [fault_of_readInt (fault_of_map h)]
        rfl
    · exact read hobject h
  · exact read hobject h

theorem fault_of_toMoment {formats : List String} (hformats : (Target.date formats).ReadsFormats)
    {v : Value} (hobject : v.isObject = false) (h : Target.toMoment formats v = .error f) :
    f.isConversion = true := by
  have after {n : Int} (h : (momentAfterEpoch n).map Value.dateTime = .error f) :
      f.isConversion = true := by
    rw [fault_of_momentAfterEpoch (fault_of_map h)]
    rfl
  have read {v : Value} (hobject : v.isObject = false)
      (h : (v.text.bind fun t => (readMoment formats t).map Value.dateTime) = .error f) :
      f.isConversion = true := by
    rcases htext : v.text with e | t
    · rw [htext] at h
      cases h
      exact isConversion_of_text hobject htext
    · rw [htext] at h
      exact fault_of_readMoment hformats (fault_of_map h)
  unfold Target.toMoment at h
  split at h
  · exact after h
  · split at h
    · split at h
      · cases h
        rfl
      · cases h
        rfl
      · exact after h
      · have h := fault_of_map h
        unfold momentOfFloat at h
        split at h
        · cases h
          rfl
        · split at h
          · rw [fault_of_momentAfterEpoch h]
            rfl
          · cases h
            rfl
      · cases h
      · exact fault_of_readMoment hformats (fault_of_map h)
      · exact read hobject h
    · exact read hobject h

/-- A conversion that fails says no more than that the value cannot be converted. -/
theorem exists_coerce? {t : Target} (ht : t.ReadsFormats) {v : Value}
    (hobject : v.isObject = false) : ∃ r, t.coerce? v = .ok r := by
  unfold Target.coerce?
  split
  · exact ⟨_, rfl⟩
  · rcases hconvert : t.convert v with f | w
    · have hconversion : f.isConversion = true := by
        cases t with
        | string => exact fault_of_toText hobject hconvert
        | number => exact fault_of_toNumber hobject hconvert
        | boolean => exact (fault_of_isTrue hobject (fault_of_map hconvert)).elim
        | bigInt => exact fault_of_toInteger hobject hconvert
        | date formats => exact fault_of_toMoment ht hobject hconvert
      simp only [hconversion, if_true]
      exact ⟨_, rfl⟩
    · exact ⟨_, rfl⟩

end

/-! ### Data -/

namespace Value

/-- Values that can be the keys of one mapping or the members of one set, and can be shown. -/
structure Keys (xs : List Value) : Prop where
  apart : xs.Pairwise fun a b => a.keyEq b = false ∧ b.keyEq a = false
  same {x : Value} : x ∈ xs → x.keyEq x = true
  hashable {x : Value} : x ∈ xs → x.isHashable = true
  legible {x : Value} : x ∈ xs → x.Legible

/-- Values of scalars of some kinds, with keys that can be told apart and shown, and with no more
items than the text of an integer can number. -/
inductive Data (P : Scalar → Prop) : Value → Prop where
  | scalar {id : Identity} {s : Scalar} : P s → Data P (.scalar id s)
  | list {id : Identity} {flavor : Flavor} {items : List Value} :
      items.length ≤ tenPow digitLimit → (∀ x ∈ items, Data P x) → Data P (.list id flavor items)
  | tuple {id : Identity} {items : List Value} :
      items.length ≤ tenPow digitLimit → (∀ x ∈ items, Data P x) → Data P (.tuple id items)
  | set {id : Identity} {frozen : Bool} {items : List Value} :
      Keys items → (∀ x ∈ items, Data P x) → Data P (.set id frozen items)
  | mapping {id : Identity} {kind : MappingKind} {entries : List (Value × Value)} :
      Keys (entries.map (·.1)) → (∀ e ∈ entries, Data P e.1) → (∀ e ∈ entries, Data P e.2) →
      Data P (.mapping id kind entries)

theorem Data.every {P : Scalar → Prop} {v : Value} (h : v.Data P) : v.Every P := by
  induction h with
  | scalar hs => exact .scalar hs
  | list _ _ ih => exact .list ih
  | tuple _ _ ih => exact .tuple ih
  | set _ _ ih => exact .set ih
  | mapping _ _ _ ihKeys ihValues => exact .mapping ihKeys ihValues

theorem Data.entries {P : Scalar → Prop} {v : Value} (h : v.Data P) {entries : Entries}
    (hv : v.entries? = some entries) :
    Keys (entries.map (·.1)) ∧ (∀ e ∈ entries, e.1.Data P) ∧ ∀ e ∈ entries, e.2.Data P := by
  cases h with
  | mapping hkeys hfirst hsecond =>
    cases hv
    exact ⟨hkeys, hfirst, hsecond⟩
  | _ => cases hv

end Value

/-- A scalar that is no object, and not the absence of a value. -/
def Scalar.IsData : Scalar → Bool
  | .undefined | .object _ => false
  | _ => true

end Conform
