/-
  Conform/Proofs/Structure.lean
  =============================
  **Schemas as trees.**  The immediate parts of a schema (`Schema.children`),
  its parts at any depth (`Schema.Part`), and the induction principle that
  follows the constructors, with the parts of a list of parts given one by one.

  The functions that run through lists of parts are maps, which is how the
  proofs see them.
-/
import Conform.Run

namespace Conform.Schema

/-- Induction over schemas: what holds of a schema when it holds of all its immediate parts. -/
@[induction_eliminator]
theorem treeInduction {P : Schema → Prop}
    (primitive : ∀ m p, P (.primitive m p))
    (anything : ∀ m unknown, P (.anything m unknown))
    (never : ∀ m, P (.never m))
    (coerce : ∀ m t, P (.coerce m t))
    (literal : ∀ m v expects, P (.literal m v expects))
    (enum : ∀ m keys values expects, P (.enum m keys values expects))
    (nativeEnum : ∀ m e, P (.nativeEnum m e))
    (constraint : ∀ m check name abort inner, P inner → P (.constraint m check name abort inner))
    (wrapper : ∀ m w inner, P inner → P (.wrapper m w inner))
    (overwrite : ∀ m transform inner, P inner → P (.overwrite m transform inner))
    (lazy : ∀ m id getter, P (.lazy m id getter))
    (object : ∀ m id kind extra absent entries,
      (∀ e ∈ entries, P e.2) → P (.object m id kind extra absent entries))
    (array : ∀ m limits item, P item → P (.array m limits item))
    (set : ∀ m limits item, P item → P (.set m limits item))
    (tuple : ∀ m items rest,
      (∀ s ∈ items, P s) → (∀ r ∈ rest, P r) → P (.tuple m items rest))
    (map : ∀ m limits key value, P key → P value → P (.map m limits key value))
    (record : ∀ m key value, P key → P value → P (.record m key value))
    (union : ∀ m members, (∀ s ∈ members, P s) → P (.union m members))
    (intersection : ∀ m members, (∀ s ∈ members, P s) → P (.intersection m members)) :
    ∀ s, P s := by
  intro s
  refine @Schema.rec P (fun es => ∀ e ∈ es, P e.2) (fun ss => ∀ s ∈ ss, P s)
    (fun r => ∀ s ∈ r, P s) (fun e => P e.2) primitive anything never coerce literal enum
    nativeEnum constraint wrapper overwrite lazy object array set tuple map record union
    intersection ?_ ?_ ?_ ?_ ?_ ?_ ?_ s
  · exact fun _ he => nomatch he
  · exact fun _ _ hhead htail => List.forall_mem_cons.mpr ⟨hhead, htail⟩
  · exact fun _ hs => nomatch hs
  · exact fun _ _ hhead htail => List.forall_mem_cons.mpr ⟨hhead, htail⟩
  · exact fun _ hs => nomatch hs
  · intro t ht s hs
    rwa [← Option.some.inj hs]
  · exact fun _ _ h => h

/-! ### Parts -/

/-- The immediate parts of a schema. -/
def children : Schema → List Schema
  | .constraint _ _ _ _ inner | .wrapper _ _ inner | .overwrite _ _ inner => [inner]
  | .object _ _ _ _ _ entries => entries.map (·.2)
  | .array _ _ item | .set _ _ item => [item]
  | .tuple _ items rest => items ++ rest.toList
  | .map _ _ key value | .record _ key value => [key, value]
  | .union _ members | .intersection _ members => members
  | _ => []

/-- Induction over schemas when all parts are treated alike. -/
theorem childInduction {P : Schema → Prop} (step : ∀ s, (∀ c ∈ s.children, P c) → P s) :
    ∀ s, P s := by
  intro s
  induction s with
  | object m id kind extra absent entries ih =>
    refine step _ fun c hc => ?_
    obtain ⟨e, he, rfl⟩ := List.mem_map.mp hc
    exact ih e he
  | tuple m items rest ihItems ihRest =>
    refine step _ fun c hc => ?_
    rcases List.mem_append.mp hc with hc | hc
    · exact ihItems c hc
    · exact ihRest c (Option.mem_toList.mp hc)
  | union m members ih => exact step _ ih
  | intersection m members ih => exact step _ ih
  | map m limits key value ihKey ihValue =>
    exact step _ (List.forall_mem_cons.mpr ⟨ihKey, List.forall_mem_singleton.mpr ihValue⟩)
  | record m key value ihKey ihValue =>
    exact step _ (List.forall_mem_cons.mpr ⟨ihKey, List.forall_mem_singleton.mpr ihValue⟩)
  | constraint m check name abort inner ih => exact step _ (List.forall_mem_singleton.mpr ih)
  | wrapper m w inner ih => exact step _ (List.forall_mem_singleton.mpr ih)
  | overwrite m transform inner ih => exact step _ (List.forall_mem_singleton.mpr ih)
  | array m limits item ih => exact step _ (List.forall_mem_singleton.mpr ih)
  | set m limits item ih => exact step _ (List.forall_mem_singleton.mpr ih)
  | _ => exact step _ fun _ hc => nomatch hc

/-- A schema is a part of another, at any depth; every schema is a part of itself. -/
inductive Part (t : Schema) : Schema → Prop where
  | self : Part t t
  | child {c s : Schema} : c ∈ s.children → Part t c → Part t s

theorem Part.trans {s t u : Schema} (hst : s.Part t) (htu : t.Part u) : s.Part u := by
  induction htu with
  | self => exact hst
  | child hc _ ih => exact .child hc ih

theorem Part.closed {s t : Schema} (h : t.Part s) {Q : Schema → Prop} (hs : Q s)
    (hpart : ∀ t c, Q t → c ∈ t.children → Q c) : Q t := by
  induction h with
  | self => exact hs
  | child hc _ ih => exact ih (hpart _ _ hs hc)

/-- What holds of all parts of a schema holds of the schema and of the parts of its parts. -/
theorem forall_part_iff {Q : Schema → Prop} {s : Schema} :
    (∀ t : Schema, t.Part s → Q t) ↔ Q s ∧ ∀ c ∈ s.children, ∀ t : Schema, t.Part c → Q t := by
  constructor
  · exact fun h => ⟨h s .self, fun c hc t ht => h t (.child hc ht)⟩
  · rintro ⟨hself, hchildren⟩ t ht
    cases ht with
    | self => exact hself
    | child hc hpart => exact hchildren _ hc t hpart

/-- The number of an object. -/
def number? : Schema → Option Nat
  | .object _ id _ _ _ _ => some id
  | _ => none

/-! ### Lists of parts -/

theorem validators_eq_map (resolve : Schema → Validator) (ss : List Schema) :
    validators resolve ss = ss.map (validator resolve) := by
  induction ss with
  | nil => rfl
  | cons s rest ih => rw [validators, ih, List.map_cons]

theorem entryValidators_eq_map (resolve : Schema → Validator) (es : List (Value × Schema)) :
    entryValidators resolve es =
      es.map fun e => ⟨e.1, e.2.expects, e.2.validator resolve⟩ := by
  induction es with
  | nil => rfl
  | cons e rest ih => rw [entryValidators, ih, List.map_cons]

theorem validator_tuple (resolve : Schema → Validator) (m : Value) (items : List Schema)
    (rest : Option Schema) :
    (tuple m items rest).validator resolve =
      .tuple (label (tuple m items rest)) (items.map (validator resolve))
        (rest.map (validator resolve)) := by
  cases rest <;> simp only [validator, validators_eq_map, Option.map]

end Conform.Schema
