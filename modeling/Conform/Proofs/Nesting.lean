/-
  Conform/Proofs/Nesting.lean
  ===========================
  **Nested operators.**  Operators of one kind may be nested in a tree (`Nest`).  A
  tree can be read as a schema in two ways: with an operator at every node
  (`Nest.schema`), or with one operator over all the leaves from left to right.

  Building a tree from its leaves up gives the second (`Nest.build_union`,
  `Nest.build_intersection`).  The two allow as many references on one path
  (`Context.bound_nest`).
-/
import Conform.Proofs.Intersection
import Conform.Proofs.Levels
import Conform.Schema.Build

namespace Conform

/-- A tree of operators of one kind. -/
inductive Nest where
  | leaf (s : Schema)
  | node (members : List Nest)

namespace Nest

mutual

/-- The leaves from left to right. -/
def leaves : Nest → List Schema
  | .leaf s => [s]
  | .node members => leavesAll members
termination_by structural t => t

/-- The leaves of trees, one after another. -/
def leavesAll : List Nest → List Schema
  | [] => []
  | t :: rest => t.leaves ++ leavesAll rest
termination_by structural ts => ts

end

mutual

/-- The schema with an operator at every node. -/
def schema (op : List Schema → Schema) : Nest → Schema
  | .leaf s => s
  | .node members => op (schemas op members)
termination_by structural t => t

/-- The schemas with an operator at every node. -/
def schemas (op : List Schema → Schema) : List Nest → List Schema
  | [] => []
  | t :: rest => t.schema op :: schemas op rest
termination_by structural ts => ts

end

mutual

/-- Builds the leaves and then the nodes above them. -/
def build (construct : List Given → Except Fault Schema) : Nest → Except Fault Schema
  | .leaf s => .ok s
  | .node members => do
    let parts ← buildAll construct members
    construct (parts.map .schema)
termination_by structural t => t

/-- Builds trees, one after another. -/
def buildAll (construct : List Given → Except Fault Schema) : List Nest → Except Fault (List Schema)
  | [] => .ok []
  | t :: rest => do
    let s ← t.build construct
    let parts ← buildAll construct rest
    .ok (s :: parts)
termination_by structural ts => ts

end

/-- Every operator has two or more members, and the leaves are of some kind. -/
inductive Proper (P : Schema → Prop) : Nest → Prop where
  | leaf {s : Schema} : P s → Proper P (.leaf s)
  | node {members : List Nest} : 2 ≤ members.length → (∀ t ∈ members, Proper P t) →
      Proper P (.node members)

theorem leaves_ne_nil {P : Schema → Prop} {t : Nest} (h : t.Proper P) : t.leaves ≠ [] := by
  induction h with
  | leaf _ => exact List.cons_ne_nil _ _
  | @node members hlength _ ih =>
    obtain ⟨t, rest, rfl⟩ := List.exists_cons_of_length_pos (Nat.lt_of_lt_of_le Nat.two_pos hlength)
    exact List.append_ne_nil_of_left_ne_nil (ih t List.mem_cons_self) _

/-- Induction over trees, with the members of a node given one by one. -/
theorem nodeInduction {P : Nest → Prop} (leaf : ∀ s, P (.leaf s))
    (node : ∀ members, (∀ t ∈ members, P t) → P (.node members)) : ∀ t, P t := by
  intro t
  refine @Nest.rec P (fun ts => ∀ t ∈ ts, P t) leaf node ?_ ?_ t
  · exact List.forall_mem_nil _
  · exact fun _ _ hhead htail => List.forall_mem_cons.mpr ⟨hhead, htail⟩

theorem schemas_eq_map (op : List Schema → Schema) (ts : List Nest) :
    schemas op ts = ts.map (schema op) := by
  induction ts with
  | nil => rfl
  | cons t rest ih => rw [schemas, ih, List.map_cons]

theorem leavesAll_eq_flatMap (ts : List Nest) : leavesAll ts = ts.flatMap leaves := by
  induction ts with
  | nil => rfl
  | cons t rest ih => rw [leavesAll, ih, List.flatMap_cons]

theorem leavesAll_append (ts us : List Nest) : leavesAll (ts ++ us) = leavesAll ts ++ leavesAll us := by
  simp only [leavesAll_eq_flatMap, List.flatMap_append]

/-! ### Building trees -/

/-- What a tree comes to when every operator takes in the members of those under it. -/
def flat (op : List Schema → Schema) : Nest → Schema
  | .leaf s => s
  | .node members => op (leavesAll members)

section

variable {P : Schema → Prop} {op : List Schema → Schema}
  {construct : List Given → Except Fault Schema} (spread : Given → List Given)

/-- A constructor that spreads out the operators among its members makes one operator over all
leaves. -/
theorem build_of_spread (hleaf : ∀ s, P s → spread (.schema s) = [.schema s])
    (hop : ∀ ss, spread (.schema (op ss)) = ss.map .schema)
    (hconstruct : ∀ (parts : List Given) (ss : List Schema), 2 ≤ parts.length →
      parts.flatMap spread = ss.map .schema → construct parts = .ok (op ss))
    {t : Nest} (h : t.Proper P) : t.build construct = .ok (t.flat op) := by
  have hspread {t : Nest} (ht : t.Proper P) : spread (.schema (t.flat op)) = t.leaves.map .schema := by
    cases ht with
    | leaf hs => exact hleaf _ hs
    | node _ _ => exact hop _
  induction h with
  | leaf _ => rfl
  | @node members hlength hmembers ih =>
    -- the members are built one after another, and spread out into their leaves
    have hall : ∀ ts : List Nest, (∀ t ∈ ts, t.Proper P) →
        (∀ t ∈ ts, t.build construct = .ok (t.flat op)) →
        buildAll construct ts = .ok (ts.map (flat op)) ∧
          ((ts.map (flat op)).map Given.schema).flatMap spread = (leavesAll ts).map .schema := by
      intro ts hts hbuild
      induction ts with
      | nil => exact ⟨rfl, rfl⟩
      | cons t rest ihRest =>
        rw [List.forall_mem_cons] at hts hbuild
        obtain ⟨hbuilt, hflat⟩ := ihRest hts.2 hbuild.2
        constructor
        · rw [buildAll, hbuild.1, hbuilt]
          rfl
        · rw [List.map_cons, List.map_cons, List.flatMap_cons, hspread hts.1, hflat, leavesAll,
            List.map_append]
    obtain ⟨hbuilt, hflat⟩ := hall members hmembers ih
    rw [build, hbuilt]
    exact hconstruct _ _ (by simpa using hlength) hflat

theorem mapM_toSchema (role : String) (ss : List Schema) :
    (ss.map Given.schema).mapM (Given.toSchema role) = .ok ss := by
  induction ss with
  | nil => rfl
  | cons s rest ih =>
    rw [List.map_cons, List.mapM_cons, ih]
    rfl

end

/-- A tree of unions is built into one union of its leaves. -/
theorem build_union {t : Nest}
    (h : t.Proper fun s => ∀ m ss, s = .union m ss → m.isNull = false) :
    t.build (Schema.buildUnion .null) = .ok (t.flat (.union .null)) := by
  refine build_of_spread Schema.unionMembers (fun s hs => ?_) (fun ss => rfl)
    (fun parts ss hlength hparts => ?_) h
  · cases s with
    | union m ss =>
      rw [Schema.unionMembers, hs m ss rfl]
      rfl
    | _ => rfl
  · unfold Schema.buildUnion
    rw [if_neg (Nat.not_lt.mpr hlength), hparts, mapM_toSchema]
    rfl

/-- A tree of intersections is built into one intersection of its leaves. -/
theorem build_intersection {t : Nest}
    (h : t.Proper fun s => ∀ m ss, s = .intersection m ss → m.isNull = false) :
    t.build (Schema.buildIntersection .null) = .ok (t.flat (.intersection .null)) := by
  refine build_of_spread Schema.intersectionMembers (fun s hs => ?_) (fun ss => rfl)
    (fun parts ss hlength hparts => ?_) h
  · cases s with
    | intersection m ss =>
      rw [Schema.intersectionMembers, hs m ss rfl]
      rfl
    | _ => rfl
  · unfold Schema.buildIntersection
    rw [if_neg (Nat.not_lt.mpr hlength), hparts, mapM_toSchema]
    rfl

/-! ### How many references may lie on one path -/

/-- What a count adds up to over the leaves is what it comes to for the tree. -/
theorem total_leaves {op : List Schema → Schema} {cost : Schema → Nat}
    (hop : ∀ ss, cost (op ss) = Schema.total cost ss) (t : Nest) :
    Schema.total cost t.leaves = cost (t.schema op) := by
  induction t using nodeInduction with
  | leaf s => exact Nat.add_zero _
  | node members ih =>
    rw [leaves, schema, hop]
    induction members with
    | nil => rfl
    | cons t rest ihRest =>
      rw [List.forall_mem_cons] at ih
      rw [leavesAll, schemas, Schema.total_append, Schema.total_cons, ih.1, ihRest ih.2]

end Nest

/-- Nested operators allow as many references on one path as one over all leaves. -/
theorem Context.bound_nest (ctx : Context) {op : List Schema → Schema}
    (hop : op = .union .null ∨ op = .intersection .null) (members : List Nest) (x : Value) :
    ctx.bound (op (Nest.leavesAll members)) x = ctx.bound ((Nest.node members).schema op) x := by
  have hcount : (op (Nest.leavesAll members)).lazyCount =
      ((Nest.node members).schema op).lazyCount := by
    have hop (ss : List Schema) : (op ss).lazyCount = Schema.total Schema.lazyCount ss := by
      rcases hop with rfl | rfl <;> exact Schema.total_lazyCount ss
    rw [← Nest.total_leaves hop, hop, Nest.leaves]
  have hroom : (op (Nest.leavesAll members)).room ctx.host.depth =
      ((Nest.node members).schema op).room ctx.host.depth := by
    have hop (ss : List Schema) :
        (op ss).room ctx.host.depth = Schema.total (Schema.room ctx.host.depth) ss := by
      rcases hop with rfl | rfl <;> exact Schema.total_room ctx.host.depth ss
    rw [← Nest.total_leaves hop, hop, Nest.leaves]
  simp only [bound, schemas, Schema.roomOfAll, Schema.lazyCountAll, hcount, hroom]

/-! ### What a tree reaches -/

/-- What holds of what is found at first does so after a schema has run. -/
theorem resolved_of_apply {ctx : Context} {I : Found → Prop} {U : Schema → Prop}
    (hclosed : ctx.Closed I U) {n : Nat} {s : Schema} (hs : U s) {x : Value} {w u : World}
    (hI : I w.resolved) {d : Dataset} (h : (s.validatorUpTo n).apply ctx x w = (.ok d, u)) :
    I u.resolved := by
  have hkeep := Validator.keeps_apply (fun d => Schema.keeps_validatorUpTo hclosed n hs d) x w hI
  rwa [h] at hkeep

namespace Nest

section

variable {ctx : Context} {I : Found → Prop} {U : Schema → Prop} (hclosed : ctx.Closed I U)
  {op : List Schema → Schema} (hop : ∀ ss, (op ss).children = ss) {ts : List Nest}

include hclosed hop

/-- The members of a node are among the schemas that it reaches. -/
theorem mem_of_node (ht : U ((Nest.node ts).schema op)) : ∀ t ∈ ts, U (t.schema op) := by
  intro t hmem
  refine hclosed.part (s := op (schemas op ts)) ht ?_
  rw [hop, schemas_eq_map]
  exact List.mem_map_of_mem hmem

/-- The leaves of a tree are among the schemas that it reaches. -/
theorem mem_leaves {t : Nest} (ht : U (t.schema op)) : ∀ s ∈ t.leaves, U s := by
  induction t using nodeInduction with
  | leaf s => exact List.forall_mem_singleton.mpr ht
  | node members ih =>
    intro s hs
    rw [leaves, leavesAll_eq_flatMap] at hs
    obtain ⟨t, hmem, hs⟩ := List.mem_flatMap.mp hs
    exact ih t hmem (mem_of_node hclosed hop ht t hmem) s hs

theorem mem_leavesAll (hts : ∀ t ∈ ts, U (t.schema op)) : ∀ s ∈ leavesAll ts, U s := by
  intro s hs
  rw [leavesAll_eq_flatMap] at hs
  obtain ⟨t, hmem, hs⟩ := List.mem_flatMap.mp hs
  exact mem_leaves hclosed hop (hts t hmem) s hs

end

/-- A tree whose leaves have no parts reaches its leaves and the operators at its nodes. -/
theorem cases_of_reaches {ctx : Context} {found : Found} {op : List Schema → Schema}
    (hop : ∀ ss, (op ss).children = ss) (hlazy : ∀ ss, (op ss).isLazy = false) {t : Nest}
    (hleaves : ∀ s ∈ t.leaves, s.children = [] ∧ s.isLazy = false) {s : Schema}
    (h : ctx.Reaches found (t.schema op) s) : s ∈ t.leaves ∨ ∃ ss, s = op ss := by
  have htree : ∃ t' : Nest, t'.leaves ⊆ t.leaves ∧ s = t'.schema op := by
    refine h.closed (Q := fun s => ∃ t' : Nest, t'.leaves ⊆ t.leaves ∧ s = t'.schema op)
      ⟨t, fun _ hs => hs, rfl⟩ ?_ ?_
    · rintro _ c ⟨t', hsub, rfl⟩ hc
      cases t' with
      | leaf s =>
        have hnone := (hleaves s (hsub (List.mem_singleton_self s))).1
        rw [schema, hnone] at hc
        cases hc
      | node members =>
        rw [schema, hop, schemas_eq_map] at hc
        obtain ⟨u, hu, rfl⟩ := List.mem_map.mp hc
        refine ⟨u, fun s hs => hsub ?_, rfl⟩
        rw [leaves, leavesAll_eq_flatMap]
        exact List.mem_flatMap.mpr ⟨u, hu, hs⟩
    · rintro m id getter r ⟨t', hsub, heq⟩
      cases t' with
      | leaf s =>
        have hreference := (hleaves s (hsub (List.mem_singleton_self s))).2
        rw [schema] at heq
        rw [← heq] at hreference
        cases hreference
      | node members =>
        have hreference := hlazy (schemas op members)
        rw [schema] at heq
        rw [← heq] at hreference
        cases hreference
  obtain ⟨t', hsub, rfl⟩ := htree
  cases t' with
  | leaf s => exact .inl (hsub (List.mem_singleton_self s))
  | node members => exact .inr ⟨_, rfl⟩

/-! ### Validators -/

/-- The validators of the leaves of trees. -/
abbrev leafValidators (n : Nat) (ts : List Nest) : List Validator :=
  Schema.memberValidators (leavesAll ts) n

/-- The validators of trees with an operator at every node. -/
abbrev treeValidators (op : List Schema → Schema) (n : Nat) (ts : List Nest) : List Validator :=
  Schema.memberValidators (schemas op ts) n

theorem leafValidators_append (n : Nat) (ts us : List Nest) :
    leafValidators n (ts ++ us) = leafValidators n ts ++ leafValidators n us := by
  rw [leafValidators, leavesAll_append]
  exact List.map_append

theorem leafValidators_cons (n : Nat) (t : Nest) (ts : List Nest) :
    leafValidators n (t :: ts) = leafValidators n [t] ++ leafValidators n ts :=
  leafValidators_append n [t] ts

theorem leafValidators_node (n : Nat) (members : List Nest) :
    leafValidators n [.node members] = leafValidators n members := by
  rw [leafValidators, leavesAll, leaves, leavesAll, List.append_nil]

theorem treeValidators_cons (op : List Schema → Schema) (n : Nat) (t : Nest) (ts : List Nest) :
    treeValidators op n (t :: ts) = (t.schema op).validatorUpTo n :: treeValidators op n ts :=
  rfl

end Nest

end Conform
