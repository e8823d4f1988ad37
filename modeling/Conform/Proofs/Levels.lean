/-
  Conform/Proofs/Levels.lean
  ==========================
  **Recursive schemas end.**  How deep a run descends through schemas is counted
  in levels: `Schema.level` has only so many, and what is below them is
  arbitrary.  If no schema leads back to itself on one value, and no default back
  to itself at all, then a run needs no more levels than the depth of the value
  and the number of schemas allow (`Context.levels`), and no more references than
  `Context.bound` allows.

  Both limits are cases of one: a validator unrolls a schema as far as a budget
  goes (`Schema.Unrolled`), where running a schema costs one level, or nothing
  unless it is a reference.  On one value every schema is paid for at most once,
  for it is not met twice (`Trail`); a step into the value, or to a default, is
  what pays for the next round.
-/
import Conform.Proofs.FastPath
import Conform.Proofs.Node
import Conform.Proofs.Steady
import Mathlib.Algebra.Order.Group.Nat
import Mathlib.Data.List.Perm.Subperm
import Mathlib.Algebra.Order.BigOperators.Group.List
import Mathlib.Logic.Relation

namespace Conform

/-! ### All schemas of a schema -/

namespace Schema

mutual

/-- The schemas inside a schema, at any depth. -/
def inside : Schema → List Schema
  | .constraint _ _ _ _ inner | .wrapper _ _ inner | .overwrite _ _ inner => inner :: inside inner
  | .object _ _ _ _ _ entries => nodesOfEntries entries
  | .array _ _ item | .set _ _ item => item :: inside item
  | .tuple _ items rest =>
    nodes items ++ match rest with
      | some r => r :: inside r
      | none => []
  | .map _ _ key value | .record _ key value => key :: (inside key ++ value :: inside value)
  | .union _ members | .intersection _ members => nodes members
  | _ => []
termination_by structural s => s

/-- Schemas, and the schemas inside them. -/
def nodes : List Schema → List Schema
  | [] => []
  | s :: rest => s :: (inside s ++ nodes rest)
termination_by structural ss => ss

/-- The schemas of declared keys, and the schemas inside them. -/
def nodesOfEntries : List (Value × Schema) → List Schema
  | [] => []
  | (_, s) :: rest => s :: (inside s ++ nodesOfEntries rest)
termination_by structural es => es

end

theorem nodes_append (ss ts : List Schema) : nodes (ss ++ ts) = nodes ss ++ nodes ts := by
  induction ss with
  | nil => rfl
  | cons s rest ih => simp [nodes, ih]

theorem nodesOfEntries_eq (es : List (Value × Schema)) :
    nodesOfEntries es = nodes (es.map (·.2)) := by
  induction es with
  | nil => rfl
  | cons e rest ih => rw [nodesOfEntries, ih, List.map_cons, nodes]

theorem inside_eq (s : Schema) : s.inside = nodes s.children := by
  cases s with
  | object => simp [inside, children, nodesOfEntries_eq]
  | tuple m items rest => cases rest <;> simp [inside, children, nodes, nodes_append]
  | _ => simp [inside, children, nodes]

theorem mem_nodes {t : Schema} {ss : List Schema} :
    t ∈ nodes ss ↔ ∃ s ∈ ss, t = s ∨ t ∈ s.inside := by
  induction ss with
  | nil => simp [nodes]
  | cons s rest ih => simp [nodes, ih, or_assoc]

theorem mem_inside_of_child {s : Schema} :
    ∀ {t c : Schema}, t ∈ s.inside → c ∈ t.children → c ∈ s.inside := by
  induction s using childInduction with
  | step s ih =>
    intro t c ht hc
    rw [inside_eq, mem_nodes] at ht ⊢
    obtain ⟨r, hr, rfl | ht⟩ := ht
    · refine ⟨t, hr, .inr ?_⟩
      rw [inside_eq, mem_nodes]
      exact ⟨c, hc, .inl rfl⟩
    · exact ⟨r, hr, .inr (ih r hr ht hc)⟩

theorem mem_nodes_of_child {ss : List Schema} {t c : Schema} (ht : t ∈ nodes ss)
    (hc : c ∈ t.children) : c ∈ nodes ss := by
  rw [mem_nodes] at ht ⊢
  obtain ⟨s, hs, rfl | ht⟩ := ht
  · refine ⟨t, hs, .inr ?_⟩
    rw [inside_eq, mem_nodes]
    exact ⟨c, hc, .inl rfl⟩
  · exact ⟨s, hs, .inr (mem_inside_of_child ht hc)⟩

/-! ### Costs -/

/-- What schemas cost together. -/
def total (cost : Schema → Nat) : List Schema → Nat
  | [] => 0
  | s :: ss => cost s + total cost ss

@[simp] theorem total_nil (cost : Schema → Nat) : total cost [] = 0 := rfl

@[simp] theorem total_cons (cost : Schema → Nat) (s : Schema) (ss : List Schema) :
    total cost (s :: ss) = cost s + total cost ss := rfl

@[simp] theorem total_append (cost : Schema → Nat) (ss ts : List Schema) :
    total cost (ss ++ ts) = total cost ss + total cost ts := by
  induction ss with
  | nil => simp
  | cons s rest ih => simp only [List.cons_append, total_cons, ih, Nat.add_assoc]

theorem total_perm {cost : Schema → Nat} {ss ts : List Schema} (h : ss.Perm ts) :
    total cost ss = total cost ts := by
  induction h with
  | nil => rfl
  | cons s _ ih => rw [total_cons, ih, total_cons]
  | swap s t rest => simp only [total_cons, Nat.add_left_comm]
  | trans _ _ ih ih' => exact ih.trans ih'

theorem total_sublist {cost : Schema → Nat} {ss ts : List Schema} (h : ss.Sublist ts) :
    total cost ss ≤ total cost ts := by
  induction h with
  | slnil => exact Nat.le_refl _
  | cons s _ ih => exact ih.trans (Nat.le_add_left _ _)
  | cons_cons s _ ih => exact Nat.add_le_add_left ih _

/-- Different schemas among some others do not cost more than these. -/
theorem total_le {cost : Schema → Nat} {ss ts : List Schema} (hnodup : ss.Nodup) (h : ss ⊆ ts) :
    total cost ss ≤ total cost ts := by
  obtain ⟨us, hperm, hsub⟩ := hnodup.subperm h
  calc total cost ss = total cost us := total_perm hperm.symm
    _ ≤ total cost ts := total_sublist hsub

/-- A measure that adds up over the parts of schemas is the total over all schemas inside. -/
theorem total_nodes {cost measure : Schema → Nat}
    (h : ∀ s, measure s = cost s + total measure s.children) (ss : List Schema) :
    total cost (nodes ss) = total measure ss := by
  have hnode : ∀ s, cost s + total cost s.inside = measure s := by
    intro s
    induction s using childInduction with
    | step s ih =>
      have hparts : ∀ cs : List Schema, (∀ c ∈ cs, cost c + total cost c.inside = measure c) →
          total cost (nodes cs) = total measure cs := by
        intro cs hcs
        induction cs with
        | nil => rfl
        | cons c rest ihRest =>
          rw [List.forall_mem_cons] at hcs
          simp only [nodes, total_cons, total_append, ← Nat.add_assoc, hcs.1, ihRest hcs.2]
      rw [inside_eq, hparts _ ih, h]
  induction ss with
  | nil => rfl
  | cons s rest ih => simp only [nodes, total_cons, total_append, ← Nat.add_assoc, hnode, ih]

/-- A reference counts, and nothing else. -/
def lazyCost (s : Schema) : Nat := if s.isLazy then 1 else 0

/-- The room that a default makes. -/
def roomCost (callDepth : Nat) : Schema → Nat
  | .wrapper _ w _ => w.room callDepth
  | _ => 0

theorem total_lazyCount (ss : List Schema) : lazyCountAll ss = total lazyCount ss := by
  induction ss with
  | nil => rfl
  | cons s rest ih => rw [lazyCountAll, ih, total_cons]

theorem total_room (d : Nat) (ss : List Schema) : roomOfAll d ss = total (room d) ss := by
  induction ss with
  | nil => rfl
  | cons s rest ih => rw [roomOfAll, ih, total_cons]

theorem lazyCountEntries_eq (es : List (Value × Schema)) :
    lazyCountEntries es = total lazyCount (es.map (·.2)) := by
  induction es with
  | nil => rfl
  | cons e rest ih => rw [lazyCountEntries, ih, List.map_cons, total_cons]

theorem roomOfEntries_eq (d : Nat) (es : List (Value × Schema)) :
    roomOfEntries d es = total (room d) (es.map (·.2)) := by
  induction es with
  | nil => rfl
  | cons e rest ih => rw [roomOfEntries, ih, List.map_cons, total_cons]

theorem lazyCountAll_eq (ss : List Schema) : lazyCountAll ss = total lazyCost (nodes ss) := by
  rw [total_lazyCount, total_nodes]
  intro s
  cases s with
  | tuple m items rest =>
    cases rest <;> simp [lazyCount, lazyCost, isLazy, children, total_lazyCount]
  | _ => simp [lazyCount, lazyCost, isLazy, children, total_lazyCount, lazyCountEntries_eq]

theorem roomOfAll_eq (d : Nat) (ss : List Schema) :
    roomOfAll d ss = total (roomCost d) (nodes ss) := by
  rw [total_room, total_nodes]
  intro s
  cases s with
  | tuple m items rest => cases rest <;> simp [room, roomCost, children, total_room]
  | _ => simp [room, roomCost, children, total_room, roomOfEntries_eq]

/-! ### Levels -/

/-- The validator of a schema with so many levels: every run of a schema inside another, and of the
schema behind a reference, is one level down.  What is done at the bottom is arbitrary. -/
def level (bottom : Schema → Validator) : Nat → Schema → Validator
  | 0, s => bottom s
  | n + 1, s => s.node (level bottom n) (level bottom n)

/-- A validator unrolls a schema as far as a budget goes: nothing is known of it when the schema
costs more, and else it is a node whose parts unroll with the rest of the budget. -/
inductive Unrolled (cost : Schema → Nat) : Nat → Schema → Validator → Prop where
  | spent {n : Nat} {s : Schema} {v : Validator} : n < cost s → Unrolled cost n s v
  | node {n : Nat} {s : Schema} {part resolve : Schema → Validator} :
      (∀ c ∈ s.children, Unrolled cost (n - cost s) c (part c)) →
      (s.isLazy = true → ∀ t, Unrolled cost (n - cost s) t (resolve t)) →
      Unrolled cost n s (s.node part resolve)

/-- A validator that allows so many references on a path unrolls as far as they go. -/
theorem unrolled_validatorUpTo {m n : Nat} (hmn : m ≤ n) (s : Schema) :
    Unrolled lazyCost m s (s.validatorUpTo n) := by
  induction n using Nat.strongRecOn generalizing m s with
  | ind n ihBehind =>
    induction s using childInduction with
    | step s ih =>
      rw [validatorUpTo_eq]
      by_cases hspent : m < s.lazyCost
      · exact .spent hspent
      · rw [validator_eq_node]
        refine .node (fun c hc => ?_) fun hlazy t => ?_
        · -- a schema with parts is no reference, so they have the same budget
          have hcost : s.lazyCost = 0 := by cases s <;> first | rfl | cases hc
          rw [hcost, ← validatorUpTo_eq]
          exact ih c hc
        · have hcost : s.lazyCost = 1 := if_pos hlazy
          rw [hcost] at hspent ⊢
          obtain ⟨k, rfl⟩ : ∃ k, n = k + 1 := ⟨n - 1, by omega⟩
          exact ihBehind k (Nat.lt_succ_self k) (by omega) t

end Schema

/-! ### Where a run leads -/

/-- What a schema runs on the value that it is given, or on a default for it. -/
inductive Context.Stays (ctx : Context) (found : Found) : Schema → Schema → Prop where
  | inner {s c : Schema} : c ∈ s.inners → Stays ctx found s c
  | behind {message : Value} {id : Nat} {getter : Getter} {t : Schema} :
    ctx.behind? found id getter = some t → Stays ctx found (.lazy message id getter) t

/-- What a schema runs at all. -/
inductive Context.Enters (ctx : Context) (found : Found) : Schema → Schema → Prop where
  | stay {s t : Schema} : ctx.Stays found s t → Enters ctx found s t
  | element {s c : Schema} : c ∈ s.elements → Enters ctx found s c

/-- The schema is a default. -/
def Schema.IsDefault (s : Schema) : Prop :=
  ∃ m given inner, s = .wrapper m (.default given) inner

/-- References lead somewhere else before they lead back: no schema that can be reached runs itself
again on one value, and no default runs itself again at all. -/
structure Context.Descends (ctx : Context) (found : Found) (s : Schema) : Prop where
  stays {t : Schema} : ctx.Reaches found s t → ¬Relation.TransGen (ctx.Stays found) t t
  defaults {t : Schema} : ctx.Reaches found s t → t.IsDefault →
    ¬Relation.TransGen (ctx.Enters found) t t

/-- All schemas that a run of a schema can reach, and all that are inside them. -/
def Context.nodes (ctx : Context) (s : Schema) : List Schema :=
  Schema.nodes (ctx.schemas s)

/-- How many steps into values the defaults make room for. -/
def Context.room (ctx : Context) (s : Schema) : Nat :=
  Schema.roomOfAll ctx.host.depth (ctx.schemas s)

section

variable {ctx : Context} {found : Found} {s : Schema}

theorem Context.Reaches.mem_nodes (hfound : ∀ p ∈ found, p.2 ∈ ctx.definitions.schemas)
    {t : Schema} (h : ctx.Reaches found s t) : t ∈ ctx.nodes s := by
  refine h.closed (Q := (· ∈ ctx.nodes s)) (Schema.mem_nodes.mpr ⟨s, List.mem_cons_self, .inl rfl⟩)
    (fun _ _ hr hc => Schema.mem_nodes_of_child hr hc) fun m id getter r _ hbehind => ?_
  refine Schema.mem_nodes.mpr ⟨r, List.mem_cons_of_mem _ ?_, .inl rfl⟩
  unfold Context.behind? at hbehind
  cases hlookup : found.lookup id with
  | some t =>
    rw [hlookup] at hbehind
    cases hbehind
    obtain ⟨l₁, l₂, rfl, -⟩ := List.lookup_eq_some_iff.mp hlookup
    exact hfound (id, r) (by simp)
  | none =>
    rw [hlookup] at hbehind
    cases getter with
    | callable callee => cases hbehind
    | definition name =>
      dsimp only at hbehind
      cases hdefined : ctx.definitions.lookup name with
      | none => rw [hdefined] at hbehind; cases hbehind
      | some given =>
        rw [hdefined] at hbehind
        cases given with
        | value v => cases hbehind
        | schema t =>
          cases hbehind
          obtain ⟨l₁, l₂, heq, -⟩ := List.lookup_eq_some_iff.mp hdefined
          simp [Definitions.schemas, heq]

/-- The schemas that have led to a schema: on this value, and the defaults that have been taken on
the way to it.  None of them is met again. -/
structure Trail (ctx : Context) (found : Found) (s : Schema) (visited passed : List Schema)
    (t : Schema) : Prop where
  reaches : ctx.Reaches found s t
  visited_nodup : visited.Nodup
  visited_stays : ∀ r ∈ visited, ctx.Reaches found s r ∧ Relation.TransGen (ctx.Stays found) r t
  passed_nodup : passed.Nodup
  passed_enters : ∀ r ∈ passed, ctx.Reaches found s r ∧ Relation.TransGen (ctx.Enters found) r t

namespace Trail

variable {visited passed : List Schema} {t c : Schema}

theorem start : Trail ctx found s [] [] s :=
  ⟨.start, .nil, by simp, .nil, by simp⟩

theorem not_visited (h : Trail ctx found s visited passed t) (hdescends : ctx.Descends found s) :
    t ∉ visited :=
  fun ht => hdescends.stays h.reaches (h.visited_stays t ht).2

theorem not_passed (h : Trail ctx found s visited passed t) (hdescends : ctx.Descends found s)
    (hdefault : t.IsDefault) : t ∉ passed :=
  fun ht => hdescends.defaults h.reaches hdefault (h.passed_enters t ht).2

theorem stay (h : Trail ctx found s visited passed t) (hdescends : ctx.Descends found s)
    (hc : ctx.Reaches found s c) (hstays : ctx.Stays found t c) :
    Trail ctx found s (t :: visited) passed c where
  reaches := hc
  visited_nodup := List.nodup_cons.mpr ⟨h.not_visited hdescends, h.visited_nodup⟩
  visited_stays := by
    refine List.forall_mem_cons.mpr ⟨⟨h.reaches, .single hstays⟩, fun r hr => ?_⟩
    exact ⟨(h.visited_stays r hr).1, (h.visited_stays r hr).2.tail hstays⟩
  passed_nodup := h.passed_nodup
  passed_enters r hr := ⟨(h.passed_enters r hr).1, (h.passed_enters r hr).2.tail (.stay hstays)⟩

theorem supply (h : Trail ctx found s visited passed t) (hdescends : ctx.Descends found s)
    (hdefault : t.IsDefault) (hc : ctx.Reaches found s c) (hstays : ctx.Stays found t c) :
    Trail ctx found s (t :: visited) (t :: passed) c where
  reaches := hc
  visited_nodup := (h.stay hdescends hc hstays).visited_nodup
  visited_stays := (h.stay hdescends hc hstays).visited_stays
  passed_nodup := List.nodup_cons.mpr ⟨h.not_passed hdescends hdefault, h.passed_nodup⟩
  passed_enters := by
    refine List.forall_mem_cons.mpr ⟨⟨h.reaches, .single (.stay hstays)⟩, fun r hr => ?_⟩
    exact (h.stay hdescends hc hstays).passed_enters r hr

theorem enter (h : Trail ctx found s visited passed t) (hc : ctx.Reaches found s c)
    (helement : c ∈ t.elements) : Trail ctx found s [] passed c where
  reaches := hc
  visited_nodup := .nil
  visited_stays := by simp
  passed_nodup := h.passed_nodup
  passed_enters r hr :=
    ⟨(h.passed_enters r hr).1, (h.passed_enters r hr).2.tail (.element helement)⟩

end Trail

/-- What a run may still cost: all schemas not visited on this value, and all schemas again for
every step into the value, and for every step into the value of a default not passed. -/
def Context.need (ctx : Context) (s : Schema) (cost : Schema → Nat) (visited passed : List Schema)
    (x : Value) : Nat :=
  let all := Schema.total cost (ctx.nodes s)
  (all - Schema.total cost visited) +
    (x.depth + (ctx.room s - Schema.total (Schema.roomCost ctx.host.depth) passed)) * (all + 1)

namespace Trail

variable {visited passed : List Schema} {t : Schema} {x y : Value}
  (hfound : ∀ p ∈ found, p.2 ∈ ctx.definitions.schemas) (hdescends : ctx.Descends found s)
  (h : Trail ctx found s visited passed t) (cost : Schema → Nat)

include hfound hdescends h

/-- A schema and those that have been visited cost no more than all schemas. -/
theorem total_visited_le :
    cost t + Schema.total cost visited ≤ Schema.total cost (ctx.nodes s) := by
  rw [← Schema.total_cons]
  refine Schema.total_le (List.nodup_cons.mpr ⟨h.not_visited hdescends, h.visited_nodup⟩) ?_
  refine List.cons_subset.mpr ⟨h.reaches.mem_nodes hfound, fun r hr => ?_⟩
  exact (h.visited_stays r hr).1.mem_nodes hfound

/-- A default and those that have been passed make no more room than all defaults. -/
theorem total_passed_le (hdefault : t.IsDefault) :
    t.roomCost ctx.host.depth + Schema.total (Schema.roomCost ctx.host.depth) passed ≤
      ctx.room s := by
  rw [← Schema.total_cons, Context.room, Schema.roomOfAll_eq]
  refine Schema.total_le (List.nodup_cons.mpr ⟨h.not_passed hdescends hdefault, h.passed_nodup⟩) ?_
  refine List.cons_subset.mpr ⟨h.reaches.mem_nodes hfound, fun r hr => ?_⟩
  exact (h.passed_enters r hr).1.mem_nodes hfound

theorem cost_le_need : cost t ≤ ctx.need s cost visited passed x := by
  have hvisited := h.total_visited_le hfound hdescends cost
  simp only [Context.need]
  omega

theorem need_stay :
    ctx.need s cost (t :: visited) passed x ≤ ctx.need s cost visited passed x - cost t := by
  have hvisited := h.total_visited_le hfound hdescends cost
  simp only [Context.need, Schema.total_cons]
  omega

theorem need_supply (hdefault : t.IsDefault) (hy : y.depth + 1 ≤ t.roomCost ctx.host.depth) :
    ctx.need s cost (t :: visited) (t :: passed) y ≤ ctx.need s cost visited passed x - cost t := by
  have hvisited := h.total_visited_le hfound hdescends cost
  have hpassed := h.total_passed_le hfound hdescends hdefault
  simp only [Context.need, Schema.total_cons]
  have hmul := Nat.mul_le_mul_right (Schema.total cost (ctx.nodes s) + 1)
    (show y.depth + (ctx.room s - (t.roomCost ctx.host.depth +
        Schema.total (Schema.roomCost ctx.host.depth) passed)) ≤
      x.depth + (ctx.room s - Schema.total (Schema.roomCost ctx.host.depth) passed) by omega)
  omega

theorem need_enter (hy : y.depth < x.depth) :
    ctx.need s cost [] passed y ≤ ctx.need s cost visited passed x - cost t := by
  have hvisited := h.total_visited_le hfound hdescends cost
  simp only [Context.need, Schema.total_nil]
  have hmul := Nat.mul_le_mul_right (Schema.total cost (ctx.nodes s) + 1)
    (show y.depth + (ctx.room s - Schema.total (Schema.roomCost ctx.host.depth) passed) + 1 ≤
      x.depth + (ctx.room s - Schema.total (Schema.roomCost ctx.host.depth) passed) by omega)
  rw [Nat.add_mul] at hmul
  omega

end Trail

end

/-! ### Runs that unroll far enough -/

/-- Nothing in the runs differs. -/
def Pairing.exact : Pairing where
  issue := Eq
  reason := Eq
  lenient := False
  under key h := congrArg (Issue.under key) h
  signal {i j} h := by
    subst h
    cases Validator.Signal.ofMessage i.message <;> constructor
    rfl

section

variable {ctx : Context} {I : Found → Prop}

theorem eq_of_issues {is js : List Issue} (h : List.Forall₂ Eq is js) : is = js := by
  rwa [List.forall₂_eq_eq_eq] at h

theorem reports_exact (own : Value) :
    Pairing.exact.Reports ctx ctx.wording ctx.wording I own where
  same f := Pairing.effect_same (keeps_report ctx own f)
  nested f is js hij := by
    rw [eq_of_issues hij]
    exact Pairing.effect_same (keeps_report ctx own _)
  entry {f m n} _ hmn := by
    rw [show m = n from hmn]
    exact Pairing.effect_same (keeps_report ctx own _)

theorem eq_of_datasets {d e : Dataset} (h : Pairing.exact.Datasets d e) : d = e := by
  obtain ⟨status, value, issues⟩ := d
  obtain ⟨status', value', issues'⟩ := e
  obtain rfl : status = status' := h.status
  obtain rfl : value = value' := h.value
  obtain rfl : issues = issues' := eq_of_issues h.issues
  rfl

theorem eq_of_exact {v v' : Validator} {x : Value}
    (h : Pairing.exact.Validators ctx ctx.wording ctx.wording I x v v') {w : World}
    (hI : I w.resolved) : v ctx (.fresh x) w = v' ctx (.fresh x) w := by
  have hbeside := h w hI
  rw [ctx.worded_wording] at hbeside
  generalize v ctx (.fresh x) w = p at hbeside
  generalize v' ctx (.fresh x) w = q at hbeside
  cases hbeside with
  | done _ hde => rw [eq_of_datasets hde]
  | @faulted h k _ _ hhalt =>
    obtain ⟨fault, d⟩ := h
    obtain ⟨fault', e⟩ := k
    obtain rfl : d = e := eq_of_datasets hhalt.dataset
    obtain rfl : fault = fault' := hhalt.fault
    rfl
  | left hlenient => exact hlenient.elim
  | right hlenient => exact hlenient.elim

/-- What a default supplies is not nested deeper than the room that the default makes, if what its
callable returns is not nested deeper than the host says. -/
theorem depth_lt_room {given y : Value}
    (hhost : given.isCallable = true → ∀ r, Gives I (ctx.invoke given []) r →
      r.depth ≤ ctx.host.depth)
    (hy : Gives I (Validator.supply ctx given) y) :
    y.depth + 1 ≤ (Wrapping.default given).room ctx.host.depth := by
  unfold Validator.supply at hy
  unfold Wrapping.room
  dsimp only
  split at hy
  · next hcallable =>
    rw [if_pos hcallable]
    exact Nat.succ_le_succ (hhost hcallable y hy)
  · next hcallable =>
    rw [if_neg hcallable, gives_pure hy]

/-- The callables that defaults call return nothing that is nested deeper than the host says. -/
def Context.Bounds (ctx : Context) (U : Schema → Prop) : Prop :=
  ∀ m given inner, U (.wrapper m (.default given) inner) → given.isCallable = true →
    ∀ y, Gives (fun _ => True) (ctx.invoke given []) y → y.depth ≤ ctx.host.depth

variable {found : Found} {s : Schema}
  (hfound : ∀ p ∈ found, p.2 ∈ ctx.definitions.schemas)
  (hdescends : ctx.Descends found s) (hbounds : ctx.Bounds (ctx.Reaches found s))
  (hkeep : ∀ m id getter, ctx.Reaches found s (.lazy m id getter) → Keeps I (ctx.force id getter))
  (hforce : ∀ m id getter t, ctx.Reaches found s (.lazy m id getter) →
    Gives I (ctx.force id getter) t → ctx.behind? found id getter = some t)

include hfound hdescends hbounds hkeep hforce

/-- Two validators that unroll a schema as far as needed do the same. -/
theorem exact_of_unrolled {cost cost' : Schema → Nat} {t : Schema} {v v' : Validator} {n k : Nat}
    (hv : Schema.Unrolled cost n t v) (hv' : Schema.Unrolled cost' k t v')
    {visited passed : List Schema} (h : Trail ctx found s visited passed t) {x : Value}
    (hn : ctx.need s cost visited passed x ≤ n) (hk : ctx.need s cost' visited passed x ≤ k) :
    Pairing.exact.Validators ctx ctx.wording ctx.wording I x v v' := by
  -- on the unrolling of the one validator; the need pays for each of its steps
  induction hv generalizing v' k visited passed x with
  | spent hspent =>
    have hcost := (h.cost_le_need hfound hdescends cost).trans hn
    omega
  | @node n t part resolve hpart hresolve ihPart ihResolve =>
    cases hv' with
    | spent hspent =>
      have hcost := (h.cost_le_need hfound hdescends cost').trans hk
      omega
    | @node _ _ part' resolve' hpart' hresolve' =>
      have hchild : ∀ c ∈ t.children, ctx.Reaches found s c := fun c hc => .part h.reaches hc
      refine Pairing.node (reports_exact _) (fun c hc => ?_) (fun m w c given y ht hdefault hy => ?_)
        (fun c hc y hy => ?_) (fun m id getter ht => hkeep m id getter (ht ▸ h.reaches))
        (fun m id getter r ht hr => ?_)
      · -- an inner schema, on the same value
        have hmem := Schema.mem_children.mpr (.inl hc)
        have hstep := h.stay hdescends (hchild c hmem) (.inner hc)
        exact ihPart c hmem (hpart' c hmem) hstep
          ((h.need_stay hfound hdescends cost).trans (by omega))
          ((h.need_stay hfound hdescends cost').trans (by omega))
      · -- the value of a default, which may be deeper than the value at hand
        subst ht
        obtain rfl := Wrapping.eq_default_of_default? hdefault
        have hmem : c ∈ (Schema.wrapper m (.default given) c).children := by simp [Schema.children]
        have hroom := depth_lt_room (fun hcallable r hr =>
          hbounds m given c h.reaches hcallable r hr.free) hy
        have hstep := h.supply hdescends ⟨m, given, c, rfl⟩ (hchild c hmem)
          (.inner (by simp [Schema.inners]))
        exact ihPart c hmem (hpart' c hmem) hstep
          ((h.need_supply (x := x) hfound hdescends cost ⟨m, given, c, rfl⟩ hroom).trans (by omega))
          ((h.need_supply (x := x) hfound hdescends cost' ⟨m, given, c, rfl⟩ hroom).trans (by omega))
      · -- a part of the value
        have hmem := Schema.mem_children.mpr (.inr hc)
        have hstep := h.enter (hchild c hmem) hc
        exact ihPart c hmem (hpart' c hmem) hstep
          ((h.need_enter hfound hdescends cost hy).trans (by omega))
          ((h.need_enter hfound hdescends cost' hy).trans (by omega))
      · -- the schema behind a reference, on the same value
        subst ht
        have hbehind := hforce m id getter r h.reaches hr
        have hstep := h.stay hdescends (.reference h.reaches hbehind) (.behind hbehind)
        exact ihResolve rfl r (hresolve' rfl r) hstep
          ((h.need_stay hfound hdescends cost).trans (by omega))
          ((h.need_stay hfound hdescends cost').trans (by omega))

end

end Conform
