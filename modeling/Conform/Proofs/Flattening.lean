/-
  Conform/Proofs/Flattening.lean
  ==============================
  **Flattening.**  The constructor of an operator takes in the members of operators
  of its kind that have no message of their own, so that nested operators become one
  over all the leaves.  This does not change what they come to (`nested_operators`).

  There is one exception.  A union that is taken in does not fail any more, so the
  message of the configuration is called less often; a callable that counts its calls
  can tell (`nested_operators_counted`).
-/
import Conform.Proofs.NestedIntersection
import Conform.Proofs.NestedUnion
import Conform.Stock.Callable

namespace Conform

open Validator

/-- **Nested operators.**  Building a tree of unions, or of intersections, makes one operator of the
leaves.

The union comes to the value of the first leaf that succeeds, depth first, or to a failure whose reasons
are the issues of all leaves, in order.  If what is called overlooks the message of the configuration
then unions at every node come to the same status and value.

The intersection comes to the same status and value as intersections at every node, if strict equality is
symmetric and transitive on the outputs of the leaves; and to a typed dataset comes either both of them,
in the same world, or none. -/
theorem nested_operators (ctx : Context) (members : List Nest) (x : Value) (w : World) :
    let t := Nest.node members
    ((t.Proper fun s => ∀ m ss, s = .union m ss → m.isNull = false) →
      let nested := t.schema (.union .null)
      let flat := t.flat (.union .null)
      let n := ctx.bound flat x
      t.build (Schema.buildUnion .null) = .ok flat ∧
      (∀ y u, t.firstSuccess ctx x n w = (.ok (.inl y), u) →
        flat.run ctx (.fresh x) w = (.ok (.valid y), u)) ∧
      (∀ d u, flat.run ctx (.fresh x) w = (.ok d, u) →
        (∃ y, t.firstSuccess ctx x n w = (.ok (.inl y), u) ∧ d = .valid y) ∨
        ∃ ds i v, (Nest.leafValidators n members).mapM (fun m => m.apply ctx x) w = (.ok ds, v) ∧
          (∀ e ∈ ds, e.status ≠ .success) ∧
          t.firstSuccess ctx x n w = (.ok (.inr (ds.flatMap (·.issues))), v) ∧
          d = .invalid x i [] ∧ i.reasons = some (ds.flatMap (·.issues))) ∧
      (ctx.Overlooking (ctx.Reaches w.resolved nested) →
        (∀ d u, nested.run ctx (.fresh x) w = (.ok d, u) → d.status = .success →
          ∃ v, flat.run ctx (.fresh x) w = (.ok d, v)) ∧
        ∀ d u e v, nested.run ctx (.fresh x) w = (.ok d, u) →
          flat.run ctx (.fresh x) w = (.ok e, v) → d.status = e.status ∧ d.value = e.value)) ∧
    ((t.Proper fun s => ∀ m ss, s = .intersection m ss → m.isNull = false) →
      let nested := t.schema (.intersection .null)
      let flat := t.flat (.intersection .null)
      let n := ctx.bound nested x
      t.build (Schema.buildIntersection .null) = .ok flat ∧
      ∀ objects : Nat → Value, x.Sound objects → x.Held objects →
        ctx.Orderly objects (ctx.Reaches w.resolved nested) →
        ctx.OutputsConsistent x (Nest.leafValidators n members) w →
        (∀ d u, d.isTyped = true → (nested.run ctx (.fresh x) w = (.ok d, u) ↔
          flat.run ctx (.fresh x) w = (.ok d, u))) ∧
        ∀ d u e v, nested.run ctx (.fresh x) w = (.ok d, u) →
          flat.run ctx (.fresh x) w = (.ok e, v) → d.status = e.status ∧ d.value = e.value) := by
  intro t
  refine ⟨fun hproper => ?_, fun hproper => ?_⟩
  · obtain ⟨hfirst, hflat⟩ := Nest.union_first_success ctx members x w
    exact ⟨Nest.build_union hproper, hfirst, hflat, Nest.unions_agree⟩
  · refine ⟨Nest.build_intersection hproper, fun objects hx hheld horderly hconsistent => ?_⟩
    exact Nest.intersections_agree hproper hx hheld horderly hconsistent

/-- A number is the second of three leaves of nested unions, and all that nested intersections of numbers
and anything come to. -/
theorem nested_operators_number :
    let ctx : Context := ⟨.default, [], [], [], Stock.host⟩
    let x : Value := .int 5
    let objects : Nat → Value := fun _ => .null
    let number : Schema := .primitive .null .number
    let text : Schema := .primitive .null .string
    let any : Schema := .anything .null false
    let union : List Nest := [.node [.leaf text, .leaf number], .leaf any]
    let intersection : List Nest := [.node [.leaf number, .leaf any], .leaf number]
    let nestedUnion := (Nest.node union).schema (.union .null)
    let nestedIntersection := (Nest.node intersection).schema (.intersection .null)
    ((Nest.node union).Proper fun s => ∀ m ss, s = .union m ss → m.isNull = false) ∧
    ctx.Overlooking (ctx.Reaches [] nestedUnion) ∧
    ((Nest.node intersection).Proper fun s => ∀ m ss, s = .intersection m ss → m.isNull = false) ∧
    x.Sound objects ∧ x.Held objects ∧ ctx.Orderly objects (ctx.Reaches [] nestedIntersection) ∧
    ctx.OutputsConsistent x
      (Nest.leafValidators (ctx.bound nestedIntersection x) intersection) .empty ∧
    (∃ d u v, nestedUnion.run ctx (.fresh x) .empty = (.ok d, u) ∧
      (Schema.union .null [text, number, any]).run ctx (.fresh x) .empty = (.ok d, v)) ∧
    ∃ d u, nestedIntersection.run ctx (.fresh x) .empty = (.ok d, u) ∧
      (Schema.intersection .null [number, any, number]).run ctx (.fresh x) .empty = (.ok d, u) := by
  intro ctx x objects number text any union intersection nestedUnion nestedIntersection
  have pair {P : Schema → Prop} {a b : Nest} (ha : a.Proper P) (hb : b.Proper P) :
      (Nest.node [a, b]).Proper P :=
    .node (Nat.le_refl 2) (List.forall_mem_cons.mpr ⟨ha, List.forall_mem_singleton.mpr hb⟩)
  have hunion : (Nest.node union).Proper fun s => ∀ m ss, s = .union m ss → m.isNull = false :=
    pair (pair (.leaf nofun) (.leaf nofun)) (.leaf nofun)
  have hintersection :
      (Nest.node intersection).Proper fun s => ∀ m ss, s = .intersection m ss → m.isNull = false :=
    pair (pair (.leaf nofun) (.leaf nofun)) (.leaf nofun)
  have hoverlooking : ctx.Overlooking (ctx.Reaches [] nestedUnion) := by
    have hnull : ctx.Overlooks .null := fun _ _ _ _ => rfl
    have hbare : ∀ s ∈ [text, number, any], s.children = [] ∧ s.isLazy = false := by
      simp [text, number, any, Schema.children, Schema.isLazy]
    have hparts {s : Schema} (hs : ctx.Reaches [] nestedUnion s) :
        s ∈ [text, number, any] ∨ ∃ ss, s = .union .null ss :=
      Nest.cases_of_reaches (t := .node union) (fun _ => rfl) (fun _ => rfl) hbare hs
    refine ⟨fun {s} hs callee hcallee => ?_, fun hs => ?_, hnull⟩
    · have hcallees : s.callees = [.null] := by
        rcases hparts hs with hs | ⟨ss, rfl⟩
        · simp only [List.mem_cons, List.not_mem_nil, or_false] at hs
          rcases hs with rfl | rfl | rfl <;> rfl
        · rfl
      rw [hcallees, List.mem_singleton] at hcallee
      rw [hcallee]
      exact hnull
    · simpa [text, number, any] using hparts hs
  have hx : x.Sound objects :=
    (Target.keyable_of_accepts (t := .number) rfl fun _ h => by cases h).sound
  have hheld : x.Held objects := fun i hi => by cases hi
  have horderly : ctx.Orderly objects (ctx.Reaches [] nestedIntersection) := by
    have hbare : ∀ s ∈ [number, any, number], s.children = [] ∧ s.isLazy = false := by
      simp [number, any, Schema.children, Schema.isLazy]
    have hparts {s : Schema} (hs : ctx.Reaches [] nestedIntersection s) :
        s ∈ [number, any, number] ∨ ∃ ss, s = .intersection .null ss :=
      Nest.cases_of_reaches (t := .node intersection) (fun _ => rfl) (fun _ => rfl) hbare hs
    refine ⟨⟨fun hs => ?_, fun hs => ?_⟩, fun hs => ?_, fun hs => ?_, fun hs => ?_⟩ <;>
      simpa [number, any] using hparts hs
  have hconsistent : ctx.OutputsConsistent x
      (Nest.leafValidators (ctx.bound nestedIntersection x) intersection) .empty := by
    intro front back ds u hsplit hds
    have happly : ∀ m ∈ front, ∀ w, m.apply ctx x w = (.ok (.valid x), w) := by
      intro m hm w
      have hm : m ∈ front ++ back := List.mem_append_left _ hm
      rw [← hsplit] at hm
      obtain ⟨s, hs, rfl⟩ := List.mem_map.mp hm
      change s ∈ [number, any, number] at hs
      simp only [List.mem_cons, List.not_mem_nil, or_false] at hs
      rcases hs with rfl | rfl | rfl <;> rfl
    have hgives := forall₂_of_mapM (I := fun _ => True) (fun _ _ _ _ _ => trivial) trivial hds
    have hsame : ∀ v ∈ (ds.filter (·.isTyped)).map (·.value), v = x := by
      intro v hv
      obtain ⟨d, hd, rfl⟩ := List.mem_map.mp hv
      obtain ⟨i, hi, rfl⟩ := List.getElem_of_mem (List.mem_of_mem_filter hd)
      have hi' : i < front.length := hgives.length_eq ▸ hi
      obtain ⟨w, u, -, hrun⟩ := (List.forall₂_iff_get.mp hgives).2 i hi' hi
      have hvalid := (happly _ (List.getElem_mem hi') w).symm.trans hrun
      exact (congrArg Dataset.value (Except.ok.inj (congrArg Prod.fst hvalid))).symm
    refine ⟨fun ha hb h => ?_, fun ha hb hc h h' => ?_⟩
    · rwa [hsame _ ha, hsame _ hb] at h ⊢
    · rwa [hsame _ ha, hsame _ hb, hsame _ hc] at *
  obtain ⟨-, -, -, hsame⟩ := (nested_operators ctx union x .empty).1 hunion
  obtain ⟨hsuccess, -⟩ := hsame hoverlooking
  obtain ⟨-, hsame'⟩ := (nested_operators ctx intersection x .empty).2 hintersection
  obtain ⟨htyped, -⟩ := hsame' objects hx hheld horderly hconsistent
  obtain ⟨d, u, hd, hstatus⟩ : ∃ d u, nestedUnion.run ctx (.fresh x) .empty = (.ok d, u) ∧
      d.status = .success := by
    dsimp only [nestedUnion, union, ctx, number, text, any, x]
    exact ⟨_, _, rfl, rfl⟩
  obtain ⟨e, v, he, hstatus'⟩ : ∃ e v, nestedIntersection.run ctx (.fresh x) .empty = (.ok e, v) ∧
      e.isTyped = true := by
    dsimp only [nestedIntersection, intersection, ctx, number, any, x]
    exact ⟨_, _, rfl, rfl⟩
  obtain ⟨w, hflat⟩ := hsuccess d u hd hstatus
  exact ⟨hunion, hoverlooking, hintersection, hx, hheld, horderly, hconsistent,
    ⟨d, u, w, hd, hflat⟩, e, v, he, (htyped e v hstatus').mp he⟩

/-- A callable that counts its calls, both the message of the configuration and a test: a union whose
first member is a union succeeds where one union of all the leaves fails. -/
theorem nested_operators_counted :
    let text (t : String) : Value := .scalar .shared (.str .base t)
    let counter : Value := .scalar .shared (.callable (Stock.function Stock.counterKey))
    let ctx : Context := ⟨{ Config.default with message := counter }, [], [], [], Stock.host⟩
    let tested : Schema :=
      .constraint (text "C") (.refine counter) "check()" false (.anything .null false)
    let t : Nest := .node [.node [.leaf (.never (text "A")), .leaf (.never (text "B"))], .leaf tested]
    let flat := t.flat (.union .null)
    (t.Proper fun s => ∀ m ss, s = .union m ss → m.isNull = false) ∧
    t.build (Schema.buildUnion .null) = .ok flat ∧
    ∃ d u e v, (t.schema (.union .null)).run ctx (.fresh .null) .empty = (.ok d, u) ∧
      flat.run ctx (.fresh .null) .empty = (.ok e, v) ∧
      d.status = .success ∧ e.status = .failure := by
  intro text counter ctx tested t flat
  refine ⟨.node (Nat.le_refl 2) (List.forall_mem_cons.mpr
    ⟨.node (Nat.le_refl 2) ?_, List.forall_mem_singleton.mpr (.leaf nofun)⟩), rfl, ?_⟩
  · exact List.forall_mem_cons.mpr ⟨.leaf nofun, List.forall_mem_singleton.mpr (.leaf nofun)⟩
  · dsimp only [ctx, tested, t, flat, text, counter]
    exact ⟨_, _, _, _, rfl, rfl, rfl, rfl⟩

end Conform
