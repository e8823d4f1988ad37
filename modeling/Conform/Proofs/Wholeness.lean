/-
  Conform/Proofs/Wholeness.lean
  =============================
  **What stays whole.**  When the keys of all mappings in a value are equal to
  themselves, and so is whatever defaults supply, then the keys of all mappings in
  what schemas come to are equal to themselves.

  That a key is equal to itself depends on what is inside: a tuple is, when each of
  its items counts as itself, because it is equal to itself or an object of its own
  (`Value.Firm`).  So this is carried along, while the items themselves need not be
  equal to themselves.
-/
import Conform.Proofs.LastingObjects

namespace Conform

open Validator

/-! ### Firm values -/

namespace Value

/-- Every scalar counts as itself, and every key of a mapping is equal to itself. -/
inductive Firm : Value → Prop where
  | scalar {id : Identity} {s : Scalar} : (Value.scalar id s).keyEq (.scalar id s) = true →
      Firm (.scalar id s)
  | list {id : Identity} {flavor : Flavor} {items : List Value} :
      (∀ x ∈ items, Firm x) → Firm (.list id flavor items)
  | tuple {id : Identity} {items : List Value} :
      (∀ x ∈ items, Firm x) → Firm (.tuple id items)
  | set {id : Identity} {frozen : Bool} {items : List Value} :
      (∀ x ∈ items, x.isHashable = true) → (∀ x ∈ items, Firm x) → Firm (.set id frozen items)
  | mapping {id : Identity} {kind : MappingKind} {entries : Entries} :
      (∀ e ∈ entries, e.1.eq e.1 = .ok true) → (∀ e ∈ entries, Firm e.1) →
      (∀ e ∈ entries, Firm e.2) → Firm (.mapping id kind entries)

/-- If the value can be a key, it is equal to itself. -/
def Reflexive (v : Value) : Prop :=
  v.isHashable = true → v.eq v = .ok true

theorem Firm.whole {v : Value} (h : v.Firm) : v.Whole := by
  induction h with
  | scalar => exact .scalar
  | list _ ih => exact .list ih
  | tuple _ ih => exact .tuple ih
  | set _ _ ih => exact .set ih
  | mapping hself _ _ ihKeys ihValues => exact .mapping hself ihKeys ihValues

theorem Firm.contents {v : Value} (h : v.Firm) : ∀ x ∈ v.contents, x.Firm := by
  cases h with
  | list hitems | tuple hitems | set _ hitems => exact hitems
  | _ => exact fun x hx => by cases hx

/-- What an entry of a mapping has to be for the mapping to be firm. -/
def FirmEntry (e : Value × Value) : Prop :=
  e.1.eq e.1 = .ok true ∧ e.1.Firm ∧ e.2.Firm

theorem Firm.entries {v : Value} (h : v.Firm) {entries : Entries} (hv : v.entries? = some entries) :
    ∀ e ∈ entries, FirmEntry e := by
  cases h with
  | mapping hself hkeys hvalues =>
    cases hv
    exact fun e he => ⟨hself e he, hkeys e he, hvalues e he⟩
  | _ => cases hv

end Value

/-- What comes of a firm value is firm, and if the value is equal to itself, so is that. -/
structure Value.FirmAs (x y : Value) : Prop where
  firm : y.Firm
  reflexive : x.Reflexive → y.Reflexive

theorem Value.Firm.asIs {x : Value} (h : x.Firm) : x.FirmAs x := ⟨h, fun hx => hx⟩

/-- What defaults supply is firm and equal to itself, and so are the keys that objects declare. -/
structure Context.Firm (ctx : Context) (U : Schema → Prop) : Prop where
  supplies {m given : Value} {inner : Schema} : U (.wrapper m (.default given) inner) →
    ∀ y, Gives (fun _ => True) (supply ctx given) y → y.Firm ∧ y.Reflexive
  declares {m : Value} {id : Nat} {kind : ObjectKind} {extra : Extra} {absent : Absent}
    {entries : List (Value × Schema)} : U (.object m id kind extra absent entries) →
    ∀ e ∈ entries, e.1.Firm ∧ e.1.eq e.1 = .ok true

section

variable {ctx : Context} {objects : Nat → Value} {U : Schema → Prop} (h : ctx.Repeats objects U)
  (hfirm : ctx.Firm U)

include h

include hfirm

end

end Conform
