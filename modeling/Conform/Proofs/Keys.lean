/-
  Conform/Proofs/Keys.lean
  ========================
  **Equality of keys.**  Mappings and sets look for a key by comparing keys
  pairwise, so it matters that this comparison is symmetric and transitive
  (`Value.keyEq_symm`, `Value.keyEq_trans`).  It is, among values that can be
  keys: scalars are equal when they mean the same (`Scalar.exists_means`), tuples
  when their items are, and sets of distinct members when all members of one are
  among those of the other.

  It is not reflexive, since what is not a number equals nothing.
-/
import Conform.Proofs.Data
import Conform.Proofs.Location
import Mathlib.Data.Fintype.EquivFin

namespace Conform

/-! ### Scalars -/

namespace Scalar

/-- What a scalar stands for in comparisons. -/
inductive Meaning where
  | number (q : Quantity)
  | complex (re im : Quantity)
  | bytes (data : List UInt8)
  | text (s : String)
  | instant (n : Int)
  | time (aware : Bool) (key : Int)
  | sentinel (key : String)
  | itself (s : Scalar)

/-- The scalar is equal to itself alone. -/
def isPlain : Scalar → Bool
  | .null | .undefined | .date _ | .duration _ | .regex _ | .callable _ | .type _ => true
  | .member m => (quantity? (.member m)).isNone
  | _ => false

/-- A scalar that is equal to itself stands for something. -/
inductive Means : Scalar → Meaning → Prop where
  | real {s : Scalar} {q : Quantity} : s.quantity? = some q → q ≠ .nan → Means s (.number q)
  | imaginaryZero {re im : Binary64} {q : Quantity} : im.isZero = true → re.quantity = q →
      q ≠ .nan → Means (.complex re im) (.number q)
  | complex {re im : Binary64} {p q : Quantity} : im.isZero = false → re.quantity = p →
      im.quantity = q → p ≠ .nan → q ≠ .nan → Means (.complex re im) (.complex p q)
  | bytes {data : List UInt8} : Means (.bytes data) (.bytes data)
  | byteArray {data : List UInt8} : Means (.byteArray data) (.bytes data)
  | text {flavor : Flavor} {s : String} : Means (.str flavor s) (.text s)
  | aware {d : Calendar.DateTime} {n : Int} : d.instant? = some n →
      Means (.dateTime d) (.instant n)
  | naive {d : Calendar.DateTime} : d.instant? = none →
      Means (.dateTime d) (.itself (.dateTime d))
  | time {t : Calendar.Time} {aware : Bool} {key : Int} : t.offset.isSome = aware → t.key = key →
      Means (.time t) (.time aware key)
  | sentinel {key name : String} : Means (.sentinel key name) (.sentinel key)
  | plain {s : Scalar} : s.isPlain = true → Means s (.itself s)

theorem isZero_iff (x : Binary64) : x.isZero = true ↔ x.quantity = .finite 0 := by
  have hpos (e : Int) : Binary64.twoPow e ≠ 0 := Nat.pos_iff_ne_zero.mp (Nat.pow_pos (by decide))
  cases x with
  | nan => simp [Binary64.isZero, Binary64.quantity]
  | infinity => simp [Binary64.isZero, Binary64.quantity]
  | finite negative m e =>
    have hzero : (Binary64.finite negative m e).isZero = true ↔ m = 0 := by
      cases m <;> simp [Binary64.isZero]
    have hquantity : (Binary64.finite negative m e).quantity = .finite 0 ↔
        (if negative then -((m * Binary64.twoPow e : Nat) : Int) else (m * Binary64.twoPow e : Nat)) =
          0 := by
      simp only [Binary64.quantity, Binary64.toRat?, Binary64.quotient, Option.getD_some,
        Quantity.finite.injEq, Rat.mkRat_eq_zero (hpos (-e))]
    rw [hzero, hquantity]
    have hproduct : m * Binary64.twoPow e = 0 ↔ m = 0 := by
      rw [Nat.mul_eq_zero]
      exact or_iff_left (hpos e)
    cases negative with
    | false => rw [if_neg Bool.false_ne_true, Int.natCast_eq_zero, hproduct]
    | true => rw [if_pos rfl, Int.neg_eq_zero, Int.natCast_eq_zero, hproduct]

theorem quantity_eq_iff {p q : Quantity} : p.eq q = true ↔ p ≠ .nan ∧ p = q := by
  simp [Quantity.eq]

/-- Real numbers are compared by what they amount to. -/
theorem eq_of_quantity {a b : Scalar} {p q : Quantity} (hp : a.quantity? = some p)
    (hq : b.quantity? = some q) :
    a.eq b = if a.isSignaling || b.isSignaling then .error .decimal else .ok (p.eq q) := by
  unfold Scalar.eq
  split
  case h_13 => simp only [hp, hq]
  all_goals first | cases hp | cases hq

theorem isSignaling_of_quantity {s : Scalar} {q : Quantity} (hs : s.quantity? = some q)
    (hq : q ≠ .nan) : s.isSignaling = false := by
  cases s with
  | decimal d =>
    cases d with
    | nan => exact absurd (Option.some.inj hs).symm hq
    | _ => rfl
  | _ => rfl

theorem eq_complex {re im : Binary64} {s : Scalar} {q : Quantity} (hs : s.quantity? = some q)
    (him : im.isZero = true) (hsignaling : s.isSignaling = false) :
    (Scalar.complex re im).eq s = .ok (re.quantity.eq q) ∧
      s.eq (.complex re im) = .ok (re.quantity.eq q) := by
  have hcomplex : ∀ re im, s ≠ .complex re im := by
    rintro re im rfl
    cases hs
  constructor
  · unfold Scalar.eq
    split <;> simp_all
  · unfold Scalar.eq
    split <;> simp_all

theorem eq_complex_complex (re im re' im' : Binary64) :
    (Scalar.complex re im).eq (.complex re' im') =
      .ok (re.quantity.eq re'.quantity && im.quantity.eq im'.quantity) := rfl

theorem eq_self_of_isPlain {s : Scalar} (h : s.isPlain = true) : s.eq s = .ok true := by
  cases s with
  | member m =>
    have hnone : (Scalar.member m).quantity? = none := Option.isNone_iff_eq_none.mp h
    simp [Scalar.eq, hnone]
  | _ => first | (cases h; done) | simp [Scalar.eq, quantity?]

theorem eq_of_means {a b : Scalar} {m : Meaning} (ha : a.Means m) (hb : b.Means m) :
    a.eq b = .ok true := by
  have known {p q : Quantity} (hpq : p = q) (hq : q ≠ .nan) : p.eq q = true := by
    rw [hpq]
    exact quantity_eq_iff.mpr ⟨hq, rfl⟩
  cases ha with
  | @real _ q hp hne =>
    cases hb with
    | real hq _ =>
      rw [eq_of_quantity hp hq, isSignaling_of_quantity hp hne, isSignaling_of_quantity hq hne,
        known rfl hne]
      rfl
    | imaginaryZero him hre _ =>
      rw [(eq_complex hp him (isSignaling_of_quantity hp hne)).2, known hre hne]
  | imaginaryZero him hre hne =>
    cases hb with
    | real hq _ => rw [(eq_complex hq him (isSignaling_of_quantity hq hne)).1, known hre hne]
    | imaginaryZero him' hre' _ =>
      have hzero := ((isZero_iff _).mp him).trans ((isZero_iff _).mp him').symm
      have hzero' : Quantity.finite 0 ≠ .nan := by simp
      rw [eq_complex_complex, known (hre.trans hre'.symm) (hre' ▸ hne),
        known hzero ((isZero_iff _).mp him' ▸ hzero')]
      rfl
  | complex him hp hq hnep hneq =>
    cases hb with
    | complex _ hp' hq' _ _ =>
      rw [eq_complex_complex, known (hp.trans hp'.symm) (hp' ▸ hnep),
        known (hq.trans hq'.symm) (hq' ▸ hneq)]
      rfl
  | @bytes data => cases hb <;> simp [Scalar.eq]
  | byteArray => cases hb <;> simp [Scalar.eq]
  | text => cases hb; simp [Scalar.eq]
  | aware hn =>
    cases hb with
    | aware hn' => simp [Scalar.eq, Calendar.DateTime.eq, hn, hn']
  | naive hn =>
    cases hb with
    | naive => simp [Scalar.eq, Calendar.DateTime.eq, hn]
    | plain h => cases h
  | time ha hk =>
    cases hb with
    | time ha' hk' => simp [Scalar.eq, Calendar.Time.eq, ha, hk, ha', hk']
  | sentinel => cases hb; simp [Scalar.eq]
  | plain h =>
    cases hb with
    | naive => cases h
    | plain => exact eq_self_of_isPlain h

/-- A complex number and a real one that are equal mean the same. -/
theorem means_of_eq_complex {re im : Binary64} {s : Scalar}
    (h : (match s.quantity? with
      | some q =>
        if !im.isZero then .ok false
        else if s.isSignaling then .error .decimal
        else .ok (re.quantity.eq q)
      | none => .ok false : Except Fault Bool) = .ok true) :
    ∃ m, (Scalar.complex re im).Means m ∧ s.Means m := by
  split at h
  · next q hq =>
    split at h
    · cases h
    · next him =>
      split at h
      · cases h
      · obtain ⟨hne, heq⟩ := quantity_eq_iff.mp (Except.ok.inj h)
        exact ⟨_, .imaginaryZero (by simpa using him) heq (heq ▸ hne), .real hq (heq ▸ hne)⟩
  · cases h

theorem exists_means {a b : Scalar} (h : a.eq b = .ok true) : ∃ m, a.Means m ∧ b.Means m := by
  unfold Scalar.eq at h
  split at h
  case h_1 re im re' im' =>
    obtain ⟨hre, him⟩ := Bool.and_eq_true_iff.mp (Except.ok.inj h)
    obtain ⟨hne, hre⟩ := quantity_eq_iff.mp hre
    obtain ⟨hne', him⟩ := quantity_eq_iff.mp him
    have hzero : im'.isZero = im.isZero := by
      rw [Bool.eq_iff_iff, isZero_iff, isZero_iff, him]
    cases hisZero : im.isZero with
    | true => exact ⟨_, .imaginaryZero hisZero rfl hne, .imaginaryZero (hzero.trans hisZero) hre.symm hne⟩
    | false =>
      exact ⟨_, .complex hisZero rfl rfl hne hne',
        .complex (hzero.trans hisZero) hre.symm him.symm hne hne'⟩
  case h_2 => exact means_of_eq_complex h
  case h_3 =>
    obtain ⟨m, hm, hs⟩ := means_of_eq_complex h
    exact ⟨m, hs, hm⟩
  case h_4 =>
    obtain rfl := eq_of_beq (Except.ok.inj h)
    exact ⟨_, .bytes, .byteArray⟩
  case h_5 =>
    obtain rfl := eq_of_beq (Except.ok.inj h)
    exact ⟨_, .byteArray, .bytes⟩
  case h_6 =>
    obtain rfl := eq_of_beq (Except.ok.inj h)
    exact ⟨_, .bytes, .bytes⟩
  case h_7 =>
    obtain rfl := eq_of_beq (Except.ok.inj h)
    exact ⟨_, .byteArray, .byteArray⟩
  case h_8 =>
    obtain rfl := eq_of_beq (Except.ok.inj h)
    exact ⟨_, .text, .text⟩
  case h_9 x y =>
    have heq := Except.ok.inj h
    unfold Calendar.DateTime.eq at heq
    split at heq
    · next hi hj =>
      obtain rfl := eq_of_beq heq
      exact ⟨_, .aware hi, .aware hj⟩
    · next hi _ =>
      obtain rfl := eq_of_beq heq
      exact ⟨_, .naive hi, .naive hi⟩
    · cases heq
  case h_10 =>
    obtain ⟨hoffset, hkey⟩ := Bool.and_eq_true_iff.mp (Except.ok.inj h)
    exact ⟨_, .time rfl rfl, .time (eq_of_beq hoffset).symm (eq_of_beq hkey).symm⟩
  case h_11 =>
    obtain rfl := eq_of_beq (Except.ok.inj h)
    exact ⟨_, .sentinel, .sentinel⟩
  case h_12 => cases h
  case h_13 _ _ _ _ _ _ _ _ _ hstr _ _ hsentinel _ =>
    split at h
    · next p q hp hq =>
      split at h
      · cases h
      · obtain ⟨hne, rfl⟩ := quantity_eq_iff.mp (Except.ok.inj h)
        exact ⟨_, .real hp hne, .real hq hne⟩
    · cases h
    · cases h
    · next hp _ =>
      obtain rfl := eq_of_beq (Except.ok.inj h)
      have hplain : a.isPlain = true := by
        cases a with
        | str flavor s => exact (hstr _ _ _ _ rfl rfl).elim
        | sentinel key name => exact (hsentinel _ _ _ _ rfl rfl).elim
        | _ => simp_all [isPlain, quantity?]
      exact ⟨_, .plain hplain, .plain hplain⟩

theorem Means.unique {s : Scalar} {m m' : Meaning} (h : s.Means m) (h' : s.Means m') : m = m' := by
  have hreal {s : Scalar} {q : Quantity} (hs : s.quantity? = some q) : s.isPlain = false := by
    cases s with
    | member => simp [isPlain, hs]
    | _ => first | rfl | cases hs
  cases h with
  | real hq _ =>
    cases h' with
    | real hq' _ => rw [Option.some.inj (hq.symm.trans hq')]
    | plain hplain => cases (hreal hq).symm.trans hplain
    | _ => cases hq
  | plain hplain =>
    cases h' with
    | real hq _ => cases (hreal hq).symm.trans hplain
    | plain => rfl
    | _ => cases hplain
  | imaginaryZero him hre _ =>
    cases h' with
    | real hq => cases hq
    | imaginaryZero _ hre' _ => rw [← hre, ← hre']
    | complex him' => cases him.symm.trans him'
    | plain hplain => cases hplain
  | complex him hp hq _ _ =>
    cases h' with
    | real hq => cases hq
    | imaginaryZero him' => cases him.symm.trans him'
    | complex _ hp' hq' _ _ => rw [← hp, ← hq, ← hp', ← hq']
    | plain hplain => cases hplain
  | aware hn =>
    cases h' with
    | real hq => cases hq
    | aware hn' => rw [Option.some.inj (hn.symm.trans hn')]
    | naive hn' => cases hn.symm.trans hn'
    | plain hplain => cases hplain
  | naive hn =>
    cases h' with
    | real hq => cases hq
    | aware hn' => cases hn.symm.trans hn'
    | naive => rfl
    | plain hplain => cases hplain
  | time ha hk =>
    cases h' with
    | real hq => cases hq
    | time ha' hk' => rw [← ha, ← hk, ← ha', ← hk']
    | plain hplain => cases hplain
  | _ =>
    cases h' with
    | real hq => cases hq
    | plain hplain => cases hplain
    | _ => rfl

theorem eq_symm {a b : Scalar} (h : a.eq b = .ok true) : b.eq a = .ok true := by
  obtain ⟨m, ha, hb⟩ := exists_means h
  exact eq_of_means hb ha

theorem eq_trans {a b c : Scalar} (hab : a.eq b = .ok true) (hbc : b.eq c = .ok true) :
    a.eq c = .ok true := by
  obtain ⟨m, ha, hb⟩ := exists_means hab
  obtain ⟨m', hb', hc⟩ := exists_means hbc
  rw [hb.unique hb'] at ha
  exact eq_of_means ha hc

end Scalar

/-! ### Values -/

namespace Value

/-- A numbered object is the one of its number. -/
def Held (objects : Nat → Value) (v : Value) : Prop :=
  ∀ i, v.identity = .given i → objects i = v

/-- There is one object for nothing, and one for no value at all. -/
def Single (v : Value) : Prop :=
  (v.isNull = true → v = .null) ∧ (v.isUndefined = true → v = .undefined)

/-- Values that can be keys, with the objects that they are. -/
inductive Keyable (objects : Nat → Value) : Value → Prop where
  | scalar {id : Identity} {s : Scalar} : Held objects (.scalar id s) → Single (.scalar id s) →
      (Value.scalar id s).isHashable = true → Keyable objects (.scalar id s)
  | tuple {id : Identity} {items : List Value} : Held objects (.tuple id items) →
      (∀ x ∈ items, Keyable objects x) → Keyable objects (.tuple id items)
  | set {id : Identity} {items : List Value} : Held objects (.set id true items) →
      (items.Pairwise fun a b => a.keyEq b = false) → (∀ x ∈ items, Keyable objects x) →
      Keyable objects (.set id true items)

variable {objects : Nat → Value}

theorem Keyable.held {v : Value} (h : v.Keyable objects) : v.Held objects := by
  cases h <;> assumption

theorem Keyable.isHashable {v : Value} (h : v.Keyable objects) : v.isHashable = true := by
  induction h with
  | scalar _ _ h => exact h
  | tuple _ _ ih => exact allHashable_of ih
  | set => rfl

/-- Values that are one object are one value. -/
theorem eq_of_same {a b : Value} (ha : a.Held objects) (hb : b.Held objects)
    (h : a.same b = true) : a = b := by
  unfold same at h
  split at h
  · next i j hi hj =>
    obtain rfl := eq_of_beq h
    exact (ha _ hi).symm.trans (hb _ hj)
  · next hi hj =>
    unfold sharedWith at h
    split at h
    · obtain rfl := eq_of_beq h
      cases hi
      cases hj
      rfl
    · cases hi
      cases hj
      rfl
    · cases hi
      cases hj
      rfl
    · cases h
  · cases h

theorem keyEq_iff {a b : Value} : a.keyEq b = true ↔ a.same b = true ∨ a.eq b = .ok true := by
  have hsucceeds (r : Except Fault Bool) : succeeds r = true ↔ r = .ok true := by
    rcases r with f | (_ | _) <;> simp [succeeds]
  rw [keyEq, Bool.or_eq_true, hsucceeds]

theorem eqItems_iff {xs ys : List Value} :
    eqItems xs ys = .ok true ↔ List.Forall₂ (fun x y => x.keyEq y = true) xs ys := by
  induction xs generalizing ys with
  | nil => cases ys <;> simp [eqItems]
  | cons x xs ih =>
    cases ys with
    | nil => simp [eqItems]
    | cons y ys =>
      rw [List.forall₂_cons, ← ih, keyEq_iff, eqItems]
      cases hsame : x.same y with
      | true => simp
      | false => rcases x.eq y with f | (_ | _) <;> simp

theorem subset_iff {xs ys : List Value} :
    subset xs ys = true ↔ ∀ x ∈ xs, ∃ y ∈ ys, x.keyEq y = true := by
  induction xs with
  | nil => simp [subset]
  | cons x xs ih =>
    rw [subset, Bool.and_eq_true, ih, List.forall_mem_cons, List.any_eq_true]
    rfl

theorem eq_scalar_iff {id id' : Identity} {s t : Scalar} :
    (scalar id s).eq (.scalar id' t) = .ok true ↔
      (∃ c, s = .object c ∧ (scalar id s).same (.scalar id' t) = true) ∨ s.eq t = .ok true := by
  cases s with
  | object c =>
    have hne : (Scalar.object c).eq t ≠ .ok true := by
      intro h
      obtain ⟨m, hm, -⟩ := Scalar.exists_means h
      cases hm with
      | real hq => cases hq
      | plain hplain => cases hplain
    simp [eq, hne]
  | _ => simp [eq]

theorem eq_tuple_iff {id id' : Identity} {xs ys : List Value} :
    (tuple id xs).eq (.tuple id' ys) = .ok true ↔
      List.Forall₂ (fun x y => x.keyEq y = true) xs ys :=
  eqItems_iff

theorem eq_set_iff {id id' : Identity} {frozen frozen' : Bool} {xs ys : List Value} :
    (set id frozen xs).eq (.set id' frozen' ys) = .ok true ↔
      xs.length = ys.length ∧ ∀ x ∈ xs, ∃ y ∈ ys, x.keyEq y = true := by
  rw [eq, Except.ok.injEq, Bool.and_eq_true, beq_iff_eq, subset_iff]

/-! ### The equivalence -/

/-- Among values that can be keys, equality carries over. -/
theorem keyEq_trans {a b c : Value} (ha : a.Keyable objects) (hb : b.Keyable objects)
    (hc : c.Keyable objects) (hab : a.keyEq b = true) (hbc : b.keyEq c = true) :
    a.keyEq c = true := by
  induction ha generalizing b c with
  | @scalar id s hheld hsingle hhashable =>
    rcases keyEq_iff.mp hab with hsame | hab
    · rwa [eq_of_same hheld hb.held hsame]
    rcases keyEq_iff.mp hbc with hsame | hbc
    · rw [← eq_of_same hb.held hc.held hsame]
      exact keyEq_iff.mpr (.inr hab)
    cases hb with
    | scalar hheld' =>
      rcases eq_scalar_iff.mp hab with ⟨c, rfl, hsame⟩ | hst
      · rw [eq_of_same hheld hheld' hsame]
        exact keyEq_iff.mpr (.inr hbc)
      · cases hc with
        | scalar hheld'' =>
          rcases eq_scalar_iff.mp hbc with ⟨c, rfl, hsame⟩ | htu
          · rw [← eq_of_same hheld' hheld'' hsame]
            exact keyEq_iff.mpr (.inr hab)
          · exact keyEq_iff.mpr (.inr (eq_scalar_iff.mpr (.inr (Scalar.eq_trans hst htu))))
        | _ => cases hbc
    | _ => cases hab
  | @tuple id xs hheld hxs ih =>
    rcases keyEq_iff.mp hab with hsame | hab
    · rwa [eq_of_same hheld hb.held hsame]
    rcases keyEq_iff.mp hbc with hsame | hbc
    · rw [← eq_of_same hb.held hc.held hsame]
      exact keyEq_iff.mpr (.inr hab)
    cases hb with
    | @tuple id' ys _ hys =>
      cases hc with
      | @tuple id'' zs _ hzs =>
        refine keyEq_iff.mpr (.inr (eq_tuple_iff.mpr ?_))
        rw [eq_tuple_iff] at hab hbc
        rw [List.forall₂_iff_get] at hab hbc ⊢
        refine ⟨hab.1.trans hbc.1, fun i hx hz => ?_⟩
        have hy : i < ys.length := hab.1 ▸ hx
        exact ih _ (List.get_mem ..) (hys _ (List.get_mem ..)) (hzs _ (List.get_mem ..))
          (hab.2 i hx hy) (hbc.2 i hy hz)
      | _ => cases hbc
    | _ => cases hab
  | @set id xs hheld hapart hxs ih =>
    rcases keyEq_iff.mp hab with hsame | hab
    · rwa [eq_of_same hheld hb.held hsame]
    rcases keyEq_iff.mp hbc with hsame | hbc
    · rw [← eq_of_same hb.held hc.held hsame]
      exact keyEq_iff.mpr (.inr hab)
    cases hb with
    | @set id' ys _ _ hys =>
      cases hc with
      | @set id'' zs _ _ hzs =>
        refine keyEq_iff.mpr (.inr (eq_set_iff.mpr ?_))
        rw [eq_set_iff] at hab hbc
        refine ⟨hab.1.trans hbc.1, fun x hx => ?_⟩
        obtain ⟨y, hy, hxy⟩ := hab.2 x hx
        obtain ⟨z, hz, hyz⟩ := hbc.2 y hy
        exact ⟨z, hz, ih x hx (hys y hy) (hzs z hz) hxy hyz⟩
      | _ => cases hbc
    | _ => cases hab

/-- As many as there are and no two matched with one: the others can be reordered to match one by
one. -/
theorem exists_perm_forall₂ {α β : Type} {r : α → β → Prop} {xs : List α} {ys : List β}
    (hlength : xs.length = ys.length) (h : ∀ x ∈ xs, ∃ y ∈ ys, r x y)
    (hapart : xs.Pairwise fun a b => ∀ y ∈ ys, r a y → ¬r b y) :
    ∃ zs, zs.Perm ys ∧ List.Forall₂ r xs zs := by
  induction xs generalizing ys with
  | nil =>
    obtain rfl := List.length_eq_zero_iff.mp hlength.symm
    exact ⟨[], .refl _, .nil⟩
  | cons x xs ih =>
    rw [List.forall_mem_cons] at h
    rw [List.pairwise_cons] at hapart
    obtain ⟨y, hy, hxy⟩ := h.1
    obtain ⟨front, back, rfl⟩ := List.append_of_mem hy
    have hmiddle : (front ++ y :: back).Perm (y :: (front ++ back)) := List.perm_middle
    -- the match of another item is not the one that is taken
    have hothers : ∀ x' ∈ xs, ∃ y' ∈ front ++ back, r x' y' := by
      intro x' hx'
      obtain ⟨y', hy', hxy'⟩ := h.2 x' hx'
      rcases List.mem_cons.mp (hmiddle.mem_iff.mp hy') with rfl | hmem
      · exact absurd hxy' (hapart.1 x' hx' y' hy hxy)
      · exact ⟨y', hmem, hxy'⟩
    have hrest : xs.length = (front ++ back).length :=
      Nat.succ.inj (hlength.trans hmiddle.length_eq)
    obtain ⟨zs, hperm, hzs⟩ := ih hrest hothers (hapart.2.imp fun {a b} hab y' hy' =>
      hab y' (hmiddle.mem_iff.mpr (List.mem_cons_of_mem _ hy')))
    exact ⟨y :: zs, (hperm.cons y).trans hmiddle.symm, .cons hxy hzs⟩

/-- As many as there are, matched and no two with one: none is left over. -/
theorem exists_of_apart {α : Type} {r : α → α → Prop} {xs ys : List α}
    (hlength : xs.length = ys.length) (h : ∀ x ∈ xs, ∃ y ∈ ys, r x y)
    (hapart : xs.Pairwise fun a b => ∀ y ∈ ys, r a y → ¬r b y) : ∀ y ∈ ys, ∃ x ∈ xs, r x y := by
  obtain ⟨zs, hperm, hzs⟩ := exists_perm_forall₂ hlength h hapart
  intro y hy
  obtain ⟨i, hi, rfl⟩ := List.getElem_of_mem (hperm.mem_iff.mpr hy)
  have hi' : i < xs.length := hzs.length_eq ▸ hi
  exact ⟨xs[i], List.getElem_mem hi', (List.forall₂_iff_get.mp hzs).2 i hi' hi⟩

theorem keyEq_symm {a b : Value} (ha : a.Keyable objects) (hb : b.Keyable objects)
    (hab : a.keyEq b = true) : b.keyEq a = true := by
  induction ha generalizing b with
  | @scalar id s hheld hsingle hhashable =>
    rcases keyEq_iff.mp hab with hsame | heq
    · rwa [eq_of_same hheld hb.held hsame] at hab ⊢
    cases hb with
    | scalar hheld' =>
      rcases eq_scalar_iff.mp heq with ⟨c, rfl, hsame⟩ | hst
      · rwa [eq_of_same hheld hheld' hsame] at hab ⊢
      · exact keyEq_iff.mpr (.inr (eq_scalar_iff.mpr (.inr (Scalar.eq_symm hst))))
    | _ => cases heq
  | @tuple id xs hheld hxs ih =>
    rcases keyEq_iff.mp hab with hsame | heq
    · rwa [eq_of_same hheld hb.held hsame] at hab ⊢
    cases hb with
    | @tuple id' ys _ hys =>
      rw [eq_tuple_iff, List.forall₂_iff_get] at heq
      refine keyEq_iff.mpr (.inr (eq_tuple_iff.mpr (List.forall₂_iff_get.mpr ?_)))
      refine ⟨heq.1.symm, fun i hy hx => ?_⟩
      exact ih _ (List.get_mem ..) (hys _ (List.get_mem ..)) (heq.2 i hx hy)
    | _ => cases heq
  | @set id xs hheld hapart hxs ih =>
    rcases keyEq_iff.mp hab with hsame | heq
    · rwa [eq_of_same hheld hb.held hsame] at hab ⊢
    cases hb with
    | @set id' ys _ _ hys =>
      rw [eq_set_iff] at heq
      refine keyEq_iff.mpr (.inr (eq_set_iff.mpr ⟨heq.1.symm, fun y hy => ?_⟩))
      -- as many members, so the match between them is one for one
      have hdistinct : xs.Pairwise fun a b => ∀ y ∈ ys, a.keyEq y = true → ¬b.keyEq y = true := by
        refine List.Pairwise.imp_of_mem (fun {a b} ha hb hne y hy hay hby => ?_) hapart
        have hab := keyEq_trans (hxs a ha) (hys y hy) (hxs b hb) hay (ih b hb (hys y hy) hby)
        rw [hne] at hab
        cases hab
      obtain ⟨x, hx, hxy⟩ := exists_of_apart heq.1 heq.2 hdistinct y hy
      exact ⟨x, hx, ih x hx (hys y hy) hxy⟩
    | _ => cases heq

/-! ### Sound values -/

/-- No two entries are under one key. -/
def Entries.Apart (entries : Entries) : Prop :=
  entries.keys.Pairwise fun k l => k.keyEq l = false

/-- Values as they come from outside: an object is the one of its number, and the keys of mappings
and the members of sets are told apart. -/
inductive Sound (objects : Nat → Value) : Value → Prop where
  | scalar {id : Identity} {s : Scalar} : Held objects (.scalar id s) → Single (.scalar id s) →
      Sound objects (.scalar id s)
  | list {id : Identity} {flavor : Flavor} {items : List Value} :
      (∀ x ∈ items, Sound objects x) → Sound objects (.list id flavor items)
  | tuple {id : Identity} {items : List Value} : Held objects (.tuple id items) →
      (∀ x ∈ items, Sound objects x) → Sound objects (.tuple id items)
  | set {id : Identity} {frozen : Bool} {items : List Value} :
      Held objects (.set id frozen items) → (items.Pairwise fun a b => a.keyEq b = false) →
      (∀ x ∈ items, Keyable objects x) → Sound objects (.set id frozen items)
  | mapping {id : Identity} {kind : MappingKind} {entries : Entries} : entries.Apart →
      (∀ e ∈ entries, Keyable objects e.1) → (∀ e ∈ entries, Sound objects e.2) →
      Sound objects (.mapping id kind entries)

/-- Every key of a mapping, at any depth, is equal to itself. -/
inductive Whole : Value → Prop where
  | scalar {id : Identity} {s : Scalar} : Whole (.scalar id s)
  | list {id : Identity} {flavor : Flavor} {items : List Value} :
      (∀ x ∈ items, Whole x) → Whole (.list id flavor items)
  | tuple {id : Identity} {items : List Value} :
      (∀ x ∈ items, Whole x) → Whole (.tuple id items)
  | set {id : Identity} {frozen : Bool} {items : List Value} :
      (∀ x ∈ items, Whole x) → Whole (.set id frozen items)
  | mapping {id : Identity} {kind : MappingKind} {entries : Entries} :
      (∀ e ∈ entries, e.1.eq e.1 = .ok true) → (∀ e ∈ entries, Whole e.1) →
      (∀ e ∈ entries, Whole e.2) → Whole (.mapping id kind entries)

theorem Keyable.sound {v : Value} (h : v.Keyable objects) : v.Sound objects := by
  induction h with
  | scalar hheld hsingle _ => exact .scalar hheld hsingle
  | tuple hheld _ ih => exact .tuple hheld ih
  | set hheld hapart hitems _ => exact .set hheld hapart hitems

theorem Sound.keyable {v : Value} (h : v.Sound objects) (hv : v.isHashable = true) :
    v.Keyable objects := by
  induction h with
  | scalar hheld hsingle => exact .scalar hheld hsingle hv
  | list => cases hv
  | tuple hheld _ ih => exact .tuple hheld fun x hx => ih x hx (isHashable_of_allHashable hv hx)
  | @set id frozen items hheld hapart hitems =>
    cases frozen with
    | true => exact .set hheld hapart hitems
    | false => cases hv
  | mapping => cases hv

theorem Sound.entries {v : Value} (h : v.Sound objects) {entries : Entries}
    (hv : v.entries? = some entries) : entries.Apart ∧ (∀ e ∈ entries, e.1.Keyable objects) ∧
      ∀ e ∈ entries, e.2.Sound objects := by
  cases h with
  | mapping hapart hkeys hvalues =>
    cases hv
    exact ⟨hapart, hkeys, hvalues⟩
  | _ => cases hv

/-- The value that is there where there is none is one object. -/
theorem Sound.eq_undefined {v : Value} (h : v.Sound objects) (hv : v.isUndefined = true) :
    v = .undefined := by
  cases h with
  | scalar _ hsingle => exact hsingle.2 hv
  | _ => cases hv

end Value

end Conform
