/-
  Conform/Proofs/Node.lean
  ========================
  **One node of a schema.**  The validator of a schema is built from the
  validators of its parts by one step, `Schema.node`.  Two runs of a node stay
  paired when the validators of the parts do (`Pairing.node`).

  The parts of a schema are of two kinds.  Constraints, wrappers and operators
  run their parts on the value that they are given, or on a default for it
  (`Schema.inners`); containers run theirs on values that are nested less deep
  (`Schema.elements`).
-/
import Conform.Proofs.Abreast

namespace Conform

/-! ### Nodes -/

namespace Schema

/-- The parts that are run on the value of the schema itself, or on a default for it. -/
def inners : Schema → List Schema
  | .constraint _ _ _ _ inner | .wrapper _ _ inner | .overwrite _ _ inner => [inner]
  | .union _ members | .intersection _ members => members
  | _ => []

/-- The parts that are run on what the value contains. -/
def elements : Schema → List Schema
  | .object _ _ _ _ _ entries => entries.map (·.2)
  | .array _ _ item | .set _ _ item => [item]
  | .tuple _ items rest => items ++ rest.toList
  | .map _ _ key value | .record _ key value => [key, value]
  | _ => []

theorem mem_children {s c : Schema} : c ∈ s.children ↔ c ∈ s.inners ∨ c ∈ s.elements := by
  cases s <;> simp [children, inners, elements]

/-- The validator of a schema, given the validators of its parts and of the schemas behind
references. -/
def node (part resolve : Schema → Validator) : Schema → Validator
  | .constraint m check name abort inner => .constraint m check name abort (part inner)
  | .wrapper _ w inner => .wrapper w (part inner)
  | .overwrite _ transform inner => .overwrite transform (part inner)
  | .lazy _ id getter => .lazy resolve id getter
  | .object m id kind extra absent entries =>
    .object (label (.object m id kind extra absent entries)) kind extra absent
      (entries.map fun e => ⟨e.1, e.2.expects, part e.2⟩)
  | .array m limits item => .array (label (.array m limits item)) limits (part item)
  | .set m limits item => .set (label (.set m limits item)) limits (part item)
  | .tuple m items rest =>
    .tuple (label (.tuple m items rest)) (items.map part) (rest.map part)
  | .map m limits key value =>
    .map (label (.map m limits key value)) limits ⟨key.expects, part key⟩ ⟨value.expects, part value⟩
  | .record m key value =>
    .record (label (.record m key value)) ⟨key.expects, part key⟩ (part value)
  | .union m members => .union (label (.union m members)) (members.map part)
  | .intersection m members => .intersection (label (.intersection m members)) (members.map part)
  | s => s.validator resolve

/-- The validator of a schema is made of nodes. -/
theorem validator_eq_node (resolve : Schema → Validator) (s : Schema) :
    s.validator resolve = s.node (fun c => c.validator resolve) resolve := by
  cases s with
  | object => simp only [validator, node, entryValidators_eq_map]
  | tuple m items rest => rw [validator_tuple]; rfl
  | union => simp only [validator, node, validators_eq_map]
  | intersection => simp only [validator, node, validators_eq_map]
  | _ => rfl

end Schema

/-! ### Nesting -/

theorem depth_lt_of_mem {xs : List Value} {y : Value} (hy : y ∈ xs) :
    y.depth < depthOfItems xs + 1 := by
  induction xs with
  | nil => cases hy
  | cons x rest ih =>
    simp only [depthOfItems]
    rcases List.mem_cons.mp hy with rfl | hy
    · omega
    · have hrest := ih hy
      omega

theorem depth_lt_of_sequence {x : Value} {xs : List Value} (hx : Validator.sequence? x = some xs)
    {y : Value} (hy : y ∈ xs) : y.depth < x.depth := by
  cases x with
  | list | tuple =>
    cases hx
    exact depth_lt_of_mem hy
  | _ => cases hx

theorem depth_lt_of_entries {x : Value} {input : Value.Entries} (hx : x.entries? = some input)
    {e : Value × Value} (he : e ∈ input) : e.1.depth < x.depth ∧ e.2.depth < x.depth := by
  cases x with
  | mapping =>
    cases hx
    have hdepth := depth_le_of_mem he
    simp only [Value.depth]
    omega
  | _ => cases hx

/-- A mapping is nested, even if nothing is in it. -/
theorem depth_pos_of_entries {x : Value} {input : Value.Entries} (hx : x.entries? = some input) :
    Value.undefined.depth < x.depth := by
  cases x with
  | mapping =>
    simp only [Value.depth, Value.undefined]
    omega
  | _ => cases hx

namespace Pairing

variable {P : Pairing} {ctx : Context} {a b : Wording} {I : Found → Prop} {x : Value}

/-! ### Reports -/

theorem runs_reject {own : Value} {d e : Dataset} (hde : P.Datasets d e) {f g : Finding}
    (h : P.Effects I P.issue ((ctx.worded a).report own f) ((ctx.worded b).report own g)) :
    P.Runs I P.Datasets (Validator.reject (ctx.worded a) d own f)
      (Validator.reject (ctx.worded b) e own g) :=
  abreast_bind (run_within hde h) fun _ _ hij => abreast_pure (hde.failWith hij)

theorem runs_mismatch {l : Label} (hown : P.Reports ctx a b I l.message) {d e : Dataset}
    (hde : P.Datasets d e) :
    P.Runs I P.Datasets (Validator.mismatch l (ctx.worded a) d)
      (Validator.mismatch l (ctx.worded b) e) := by
  unfold Validator.mismatch
  rw [hde.value]
  exact runs_reject hde (hown.same _)

/-! ### Schemas without parts, and wrappers -/

theorem validators_judged {s : Schema} {j : Judgement} (hj : s.judgement? = some j)
    (hown : P.Reports ctx a b I s.message) (resolve resolve' : Schema → Validator) :
    P.Validators ctx a b I x (s.validator resolve) (s.validator resolve') := by
  rw [Schema.validator_eq_judge hj, Schema.validator_eq_judge hj]
  refine abreast_bind (run_withinExcept _ (.fresh x)) fun verdict verdict' heq => ?_
  subst heq
  cases verdict with
  | inl y => exact abreast_pure ((Datasets.fresh x).succeed y)
  | inr f => exact runs_reject (.fresh x) (hown.same f)

theorem validators_constraint {m : Value} (hown : P.Reports ctx a b I m) {v v' : Validator}
    (h : P.Validators ctx a b I x v v') (check : Check) (name : String) (abort : Bool) :
    P.Validators ctx a b I x (.constraint m check name abort v)
      (.constraint m check name abort v') := by
  refine abreast_bind h fun d e hde => ?_
  rw [hde.isTyped, hde.value]
  split
  · exact abreast_pure hde
  · have htest : P.Effects I Eq (check.test (ctx.worded a) e.value)
        (check.test (ctx.worded b) e.value) := effect_same (Validator.keeps_test check e.value)
    refine abreast_bind (run_within hde htest) fun passed passed' heq => ?_
    subst heq
    split
    · exact abreast_pure hde
    · refine abreast_bind (run_withinExcept _ hde) fun f f' heq => ?_
      subst heq
      refine abreast_bind (run_within hde (hown.same f)) fun i j hij => ?_
      have hviolate := fun stop => hde.violate stop hij
      rw [ctx.abortEarly_worded, ctx.abortEarly_worded]
      split
      · exact abreast_pure (hviolate true)
      · exact abreast_pure (hviolate false)

theorem validators_wrapper {v v' : Validator} {w : Wrapping}
    (h : P.Validators ctx a b I x v v')
    (hsupplied : ∀ given y, w.default? x = some given → Gives I (Validator.supply ctx given) y →
      P.Validators ctx a b I y v v') :
    P.Validators ctx a b I x (.wrapper w v) (.wrapper w v') := by
  unfold Validators
  rw [Validator.wrapper_fresh, Validator.wrapper_fresh]
  cases w.spared? x with
  | some y => exact abreast_pure ((Datasets.fresh x).succeed y)
  | none =>
    cases hdefault : w.default? x with
    | none => exact h
    | some given =>
      have hsupply : P.Effects I (fun r s => r = s ∧ Gives I (Validator.supply ctx given) r)
          (Validator.supply (ctx.worded a) given) (Validator.supply (ctx.worded b) given) :=
        effect_self (Validator.keeps_supply given)
      refine abreast_bind (run_within (.fresh x) hsupply) fun y y' hy => ?_
      obtain ⟨rfl, hgives⟩ := hy
      exact hsupplied given y hdefault hgives

theorem validators_overwrite {v v' : Validator} (h : P.Validators ctx a b I x v v')
    (transform : Value) :
    P.Validators ctx a b I x (.overwrite transform v) (.overwrite transform v') := by
  refine abreast_bind h fun d e hde => ?_
  rw [hde.status, hde.value]
  split
  · have hcall : P.Effects I Eq ((ctx.worded a).invoke transform [.value e.value])
        ((ctx.worded b).invoke transform [.value e.value]) :=
      effect_same (keeps_invoke ctx transform _)
    refine abreast_bind (run_within hde hcall) fun y y' heq => ?_
    subst heq
    exact abreast_pure ⟨rfl, rfl, hde.issues⟩
  · exact abreast_pure hde

theorem validators_lazy {resolve resolve' : Schema → Validator} {id : Nat} {getter : Getter}
    (hkeep : Keeps I (ctx.force id getter))
    (h : ∀ t, Gives I (ctx.force id getter) t → P.Validators ctx a b I x (resolve t) (resolve' t)) :
    P.Validators ctx a b I x (.lazy resolve id getter) (.lazy resolve' id getter) := by
  have hforce : P.Effects I (fun r s => r = s ∧ Gives I (ctx.force id getter) r)
      ((ctx.worded a).force id getter) ((ctx.worded b).force id getter) := effect_self hkeep
  refine abreast_bind (run_within (.fresh x) hforce) fun t t' ht => ?_
  obtain ⟨rfl, hgives⟩ := ht
  exact h t hgives

/-! ### Lists, tuples and sets -/

/-- Parts under one key, of one value, with validators that are abreast on it. -/
structure Parts (P : Pairing) (ctx : Context) (a b : Wording) (I : Found → Prop)
    (p q : Validator.Part) : Prop where
  key : p.key = q.key
  value : p.value = q.value
  validator : P.Validators ctx a b I p.value p.validator q.validator

theorem runs_partStep {p q : Validator.Part} (hpq : P.Parts ctx a b I p q)
    {g h : Gathering (List Value)} (hgh : P.Gatherings g h) :
    P.Runs I P.Progresses (Validator.partStep (ctx.worded a) p g)
      (Validator.partStep (ctx.worded b) q h) := by
  unfold Validator.partStep
  rw [← hpq.key, ← hpq.value]
  refine abreast_bind (run_within hgh.dataset hpq.validator.apply) fun d e hde => ?_
  exact abreast_pure (hgh.take hde _ _)

theorem runs_parts {ps qs : List Validator.Part} (h : List.Forall₂ (P.Parts ctx a b I) ps qs)
    (make : List Value → Except Fault Value) :
    P.Runs I P.Datasets (Validator.parts (ctx.worded a) (.fresh x) ps >>= fun p => p.finish make)
      (Validator.parts (ctx.worded b) (.fresh x) qs >>= fun p => p.finish make) := by
  refine abreast_bind (runs_steps ?_ (.start x [])) fun _ _ hpq => hpq.finish make
  exact h.imp fun _ _ hpq _ _ hgh => runs_partStep hpq hgh

theorem runs_ifSized {l : Label} (hown : P.Reports ctx a b I l.message) {next next' : Run Dataset}
    (h : P.Runs I P.Datasets next next') (limits : Limits) (size : Nat) :
    P.Runs I P.Datasets (Validator.ifSized l limits size (ctx.worded a) (.fresh x) next)
      (Validator.ifSized l limits size (ctx.worded b) (.fresh x) next') := by
  refine abreast_bind (run_withinExcept _ (.fresh x)) fun f? f?' heq => ?_
  subst heq
  cases f? with
  | some f => exact runs_reject (.fresh x) (hown.same f)
  | none => exact h

theorem parts_indexed {v v' : Validator} {items : List Value}
    (h : ∀ y ∈ items, P.Validators ctx a b I y v v') :
    List.Forall₂ (P.Parts ctx a b I) (Validator.indexed v items) (Validator.indexed v' items) := by
  rw [List.forall₂_iff_get]
  refine ⟨by simp [Validator.indexed], fun i hi hi' => ?_⟩
  simp only [Validator.indexed, List.get_eq_getElem, List.getElem_mapIdx]
  exact ⟨rfl, rfl, h _ (List.getElem_mem _)⟩

theorem validators_array {l : Label} (hown : P.Reports ctx a b I l.message) {v v' : Validator}
    (h : ∀ y, y.depth < x.depth → P.Validators ctx a b I y v v') (limits : Limits) :
    P.Validators ctx a b I x (.array l limits v) (.array l limits v') := by
  cases x with
  | list id kind items =>
    refine runs_ifSized hown (runs_parts (parts_indexed fun y hy => h y ?_) _) limits _
    exact depth_lt_of_sequence rfl hy
  | _ => exact runs_mismatch hown (.fresh _)

theorem validators_set {l : Label} (hown : P.Reports ctx a b I l.message) {v v' : Validator}
    (h : ∀ y, y.depth < x.depth → P.Validators ctx a b I y v v') (limits : Limits) :
    P.Validators ctx a b I x (.set l limits v) (.set l limits v') := by
  cases x with
  | set id frozen items =>
    refine runs_ifSized hown (runs_parts ?_ _) limits _
    rw [List.forall₂_map_left_iff, List.forall₂_map_right_iff, List.forall₂_same]
    exact fun y hy => ⟨rfl, rfl, h y (depth_lt_of_mem hy)⟩
  | _ => exact runs_mismatch hown (.fresh _)

theorem rel_imp {α β : Type} {R Q : α → β → Prop} (himp : ∀ r s, R r s → Q r s) {r? : Option α}
    {s? : Option β} (h : Option.Rel R r? s?) : Option.Rel Q r? s? := by
  cases h with
  | none => exact .none
  | some h => exact .some (himp _ _ h)

/-- The parts of a tuple are paired when its validators are, one by one. -/
theorem parts_positional {vs vs' : List Validator} {rest rest' : Option Validator}
    {values : List Value}
    (hitems : List.Forall₂ (fun v v' => ∀ y ∈ values, P.Validators ctx a b I y v v') vs vs')
    (hrest : Option.Rel (fun v v' => ∀ y ∈ values, P.Validators ctx a b I y v v') rest rest')
    (i : Nat) :
    List.Forall₂ (P.Parts ctx a b I) (Validator.positional vs rest i values)
      (Validator.positional vs' rest' i values) := by
  induction values generalizing vs vs' i with
  | nil => simp [Validator.positional]
  | cons y values ih =>
    have hrest' : Option.Rel (fun v v' => ∀ z ∈ values, P.Validators ctx a b I z v v') rest rest' :=
      rel_imp (fun _ _ h z hz => h z (List.mem_cons_of_mem _ hz)) hrest
    cases hitems with
    | cons hv hvs =>
      refine .cons ⟨rfl, rfl, hv y List.mem_cons_self⟩ (ih ?_ hrest' (i + 1))
      exact hvs.imp fun _ _ h z hz => h z (List.mem_cons_of_mem _ hz)
    | nil =>
      cases hrest with
      | none => exact .nil
      | some hr => exact .cons ⟨rfl, rfl, hr y List.mem_cons_self⟩ (ih .nil hrest' (i + 1))

theorem validators_tuple {l : Label} (hown : P.Reports ctx a b I l.message)
    {vs vs' : List Validator} {rest rest' : Option Validator}
    (hitems : List.Forall₂ (fun v v' => ∀ y, y.depth < x.depth → P.Validators ctx a b I y v v') vs vs')
    (hrest : Option.Rel (fun v v' => ∀ y, y.depth < x.depth → P.Validators ctx a b I y v v')
      rest rest') :
    P.Validators ctx a b I x (.tuple l vs rest) (.tuple l vs' rest') := by
  unfold Validators Validator.tuple
  dsimp only [Dataset.fresh]
  cases hvalues : Validator.sequence? x with
  | none => exact runs_mismatch hown (.fresh x)
  | some values =>
    have hsome : rest.isSome = rest'.isSome := by cases hrest <;> rfl
    have hnone : rest.isNone = rest'.isNone := by cases hrest <;> rfl
    dsimp only
    rw [hitems.length_eq, hsome, hnone]
    split
    · exact runs_reject (.fresh x) (hown.same _)
    · split
      · exact runs_reject (.fresh x) (hown.same _)
      · refine runs_parts (parts_positional ?_ ?_ 0) _
        · exact hitems.imp fun _ _ h y hy => h y (depth_lt_of_sequence hvalues hy)
        · exact rel_imp (fun _ _ h y hy => h y (depth_lt_of_sequence hvalues hy)) hrest

/-! ### Mappings -/

theorem effects_check {v v' : Validator} (h : P.Validators ctx a b I x v v') :
    P.Effects I (Signal.Paired P.reason) (v.check (ctx.worded a) x) (v'.check (ctx.worded b) x) := by
  refine abreast_bind h.apply fun d e hde => ?_
  obtain ⟨status, value, is⟩ := d
  obtain ⟨status', value', js⟩ := e
  obtain ⟨rfl, rfl, hissues⟩ : status = status' ∧ value = value' ∧ P.issues is js :=
    ⟨hde.status, hde.value, hde.issues⟩
  have hsuccess : P.Effects I (Signal.Paired P.reason)
      (return if value.same x then .asIs else .replaced value)
      (return if value.same x then .asIs else .replaced value) := by
    split
    · exact abreast_pure .asIs
    · exact abreast_pure .replaced
  -- A failure without an issue has no message to give: there both sides are faults.
  cases hissues with
  | nil =>
    cases status with
    | success => exact hsuccess
    | _ => exact abreast_throw rfl
  | cons hij _ =>
    cases status with
    | success => exact hsuccess
    | _ => exact abreast_pure (P.signal hij)

/-- What is made of a key or value of a mapping: paired issues, or one replacement. -/
inductive Verdicts (P : Pairing) : Issue ⊕ (Value × Bool) → Issue ⊕ (Value × Bool) → Prop where
  | refused {i j : Issue} : P.issue i j → Verdicts P (.inl i) (.inl j)
  | accepted {r : Value × Bool} : Verdicts P (.inr r) (.inr r)

theorem effects_entryCheck {l : Label} (hown : P.Reports ctx a b I l.message)
    (hl : l.type = "map" ∨ l.type = "record") {expects : String} {v v' : Validator}
    (h : P.Validators ctx a b I x v v') (messageKey : String) (key : Value) :
    P.Effects I P.Verdicts (Validator.entryCheck l (ctx.worded a) messageKey key x ⟨expects, v⟩)
      (Validator.entryCheck l (ctx.worded b) messageKey key x ⟨expects, v'⟩) := by
  refine abreast_bind (effects_check h) fun signal signal' hsignal => ?_
  cases hsignal with
  | asIs => exact abreast_pure .accepted
  | replaced => exact abreast_pure .accepted
  | @failed m n hreason =>
    -- the finding on the entry, but for its requirement
    let f : Finding := { l.finding ctx.typeNames x with expects, messageKey }
    have hentry : f.IsEntry := ⟨rfl, hl⟩
    have hissue : P.Effects I P.issue
        (Validator.entryIssue l (ctx.worded a) messageKey key x ⟨expects, v⟩ m)
        (Validator.entryIssue l (ctx.worded b) messageKey key x ⟨expects, v'⟩ n) := by
      have hreport := hown.entry hentry hreason
      unfold Validator.entryIssue
      exact abreast_bind hreport fun i j hij => abreast_pure (P.under key hij)
    exact abreast_bind hissue fun i j hij => abreast_pure (.refused hij)

theorem runs_mapStep {l : Label} (hown : P.Reports ctx a b I l.message)
    (hl : l.type = "map" ∨ l.type = "record") {expects expects' : String} {k k' v v' : Validator}
    {entry : Value × Value} (hkey : P.Validators ctx a b I entry.1 k k')
    (hvalue : P.Validators ctx a b I entry.2 v v') {g h : Gathering Borrowed}
    (hgh : P.Gatherings g h) :
    P.Runs I P.Progresses
      (Validator.mapStep l ⟨expects, k⟩ ⟨expects', v⟩ (ctx.worded a) entry g)
      (Validator.mapStep l ⟨expects, k'⟩ ⟨expects', v'⟩ (ctx.worded b) entry h) := by
  refine abreast_bind (run_within hgh.dataset (effects_entryCheck hown hl hkey _ _)) fun r r' hr => ?_
  cases hr with
  | refused hij => exact abreast_pure (hgh.addIssue hij)
  | accepted =>
    refine abreast_bind (run_within hgh.dataset (effects_entryCheck hown hl hvalue _ _))
      fun r r' hr => ?_
    cases hr with
    | refused hij => exact abreast_pure (hgh.addIssue hij)
    | accepted =>
      dsimp only
      rw [hgh.output]
      split
      · split
        · exact abreast_pure (.going ⟨hgh.dataset, rfl, hgh.typed⟩)
        · exact abreast_throw ⟨rfl, hgh.dataset⟩
      · exact abreast_pure (.going hgh)

theorem validators_map {l : Label} (hown : P.Reports ctx a b I l.message)
    (hl : l.type = "map" ∨ l.type = "record") {expects expects' : String} {k k' v v' : Validator}
    (hkey : ∀ y, y.depth < x.depth → P.Validators ctx a b I y k k')
    (hvalue : ∀ y, y.depth < x.depth → P.Validators ctx a b I y v v') (limits : Limits) :
    P.Validators ctx a b I x (.map l limits ⟨expects, k⟩ ⟨expects', v⟩)
      (.map l limits ⟨expects, k'⟩ ⟨expects', v'⟩) := by
  unfold Validators Validator.map
  dsimp only [Dataset.fresh]
  cases hentries : x.entries? with
  | none => exact runs_mismatch hown (.fresh x)
  | some entries =>
    refine runs_ifSized hown (abreast_bind (runs_steps ?_ (.start x _)) fun p q hpq => ?_) limits _
    · rw [List.forall₂_same]
      intro e he g h hgh
      have hdepth := depth_lt_of_entries hentries he
      exact runs_mapStep hown hl (hkey _ hdepth.1) (hvalue _ hdepth.2) hgh
    · cases hpq with
      | stopped hde => exact hde.giveUp
      | going hgh =>
        dsimp only
        rw [hgh.dataset.isEmpty, hgh.output]
        split
        · exact abreast_pure (hgh.dataset.succeed _)
        · exact hgh.dataset.giveUp

theorem runs_recordStep {l : Label} (hown : P.Reports ctx a b I l.message)
    (hl : l.type = "map" ∨ l.type = "record") {expects : String} {k k' v v' : Validator}
    {entry : Value × Value} (hkey : P.Validators ctx a b I entry.1 k k')
    (hvalue : P.Validators ctx a b I entry.2 v v') {g h : Gathering Value.Entries}
    (hgh : P.Gatherings g h) :
    P.Runs I P.Progresses (Validator.recordStep l ⟨expects, k⟩ v (ctx.worded a) entry g)
      (Validator.recordStep l ⟨expects, k'⟩ v' (ctx.worded b) entry h) := by
  refine abreast_bind (run_within hgh.dataset (effects_entryCheck hown hl hkey _ _)) fun r r' hr => ?_
  cases hr with
  | refused hij => exact abreast_pure (hgh.addIssue hij)
  | @accepted r =>
    refine abreast_bind (run_within hgh.dataset hvalue.apply) fun d e hde => ?_
    have htake : P.Progresses
        (g.take (ctx.worded a) entry.1 d fun v output => output.insert r.1 v)
        (h.take (ctx.worded b) entry.1 e fun v output => output.insert r.1 v) :=
      hgh.take hde entry.1 _
    dsimp only
    -- Both sides look at what they took.  With the pair as variables, one split serves both.
    revert htake
    generalize Gathering.take g _ _ _ _ = p
    generalize Gathering.take h _ _ _ _ = q
    intro hpq
    rw [hde.isTyped]
    cases hpq with
    | going hgh' =>
      dsimp only
      split
      · exact abreast_throw ⟨rfl, hgh'.dataset⟩
      · exact abreast_pure (.going hgh')
    | stopped hde' => exact abreast_pure (.stopped hde')

theorem validators_record {l : Label} (hown : P.Reports ctx a b I l.message)
    (hl : l.type = "map" ∨ l.type = "record") {expects : String} {k k' v v' : Validator}
    (hkey : ∀ y, y.depth < x.depth → P.Validators ctx a b I y k k')
    (hvalue : ∀ y, y.depth < x.depth → P.Validators ctx a b I y v v') :
    P.Validators ctx a b I x (.record l ⟨expects, k⟩ v) (.record l ⟨expects, k'⟩ v') := by
  unfold Validators Validator.record
  dsimp only [Dataset.fresh]
  cases hentries : x.entries? with
  | none => exact runs_mismatch hown (.fresh x)
  | some entries =>
    refine abreast_bind (runs_steps ?_ (.start x _)) fun p q hpq => hpq.finish _
    rw [List.forall₂_same]
    intro e he g h hgh
    have hdepth := depth_lt_of_entries hentries he
    exact runs_recordStep hown hl (hkey _ hdepth.1) (hvalue _ hdepth.2) hgh

/-! ### Objects -/

theorem runs_entryStep {l : Label} (hown : P.Reports ctx a b I l.message) {absent : Absent}
    {input : Value.Entries} {key : Value} {expects : String} {v v' : Validator}
    (hpresent : ∀ y, input.get? key = some y → P.Validators ctx a b I y v v')
    (habsent : P.Validators ctx a b I .undefined v v') {g h : Gathering Value.Entries}
    (hgh : P.Gatherings g h) :
    P.Runs I P.Progresses (Validator.entryStep l absent input (ctx.worded a) ⟨key, expects, v⟩ g)
      (Validator.entryStep l absent input (ctx.worded b) ⟨key, expects, v'⟩ h) := by
  have hvalidate : ∀ {y}, P.Validators ctx a b I y v v' → P.Runs I P.Progresses
      (within g.dataset (v.apply (ctx.worded a) y) >>= fun part =>
        return g.take (ctx.worded a) key part (Validator.putEntry key))
      (within h.dataset (v'.apply (ctx.worded b) y) >>= fun part =>
        return h.take (ctx.worded b) key part (Validator.putEntry key)) := by
    intro y hy
    refine abreast_bind (run_within hgh.dataset hy.apply) fun d e hde => ?_
    exact abreast_pure (hgh.take hde _ _)
  unfold Validator.entryStep
  dsimp only
  cases hget : input.get? key with
  | some y => exact hvalidate (hpresent y hget)
  | none =>
    cases absent with
    | validate => exact hvalidate habsent
    | skip => exact abreast_pure (.going hgh)
    | reject =>
      refine abreast_bind (run_within hgh.dataset (abreast_bind (hown.same _) fun i j hij =>
        abreast_pure (P.under key hij))) fun i j hij => ?_
      exact abreast_pure (hgh.addIssue hij)

theorem runs_extraStep {l : Label} (hown : P.Reports ctx a b I l.message) (kind : ObjectKind)
    (extra : Extra) (entry : Value × Value) {g h : Gathering Value.Entries}
    (hgh : P.Gatherings g h) :
    P.Runs I P.Progresses (Validator.extraStep l kind extra (ctx.worded a) entry g)
      (Validator.extraStep l kind extra (ctx.worded b) entry h) := by
  cases extra with
  | strip => exact abreast_pure (.going hgh)
  | loose => exact abreast_pure (.going ⟨hgh.dataset, congrArg (· ++ [entry]) hgh.output, hgh.typed⟩)
  | strict =>
    have hreport : ∀ f : Finding, P.Effects I P.issue
        ((ctx.worded a).report l.message f >>= fun i => return i.under entry.1)
        ((ctx.worded b).report l.message f >>= fun i => return i.under entry.1) :=
      fun f => abreast_bind (hown.same f) fun i j hij => abreast_pure (P.under entry.1 hij)
    have hissue : P.Effects I P.issue
        (Validator.extraIssue l kind (ctx.worded a) entry.1 entry.2)
        (Validator.extraIssue l kind (ctx.worded b) entry.1 entry.2) := by
      unfold Validator.extraIssue
      split
      · exact abreast_bind (abreast_throw (R := Eq) rfl) fun _ _ _ => hreport _
      · exact hreport _
    refine abreast_bind (run_within hgh.dataset hissue) fun i j hij => ?_
    exact abreast_pure (hgh.addIssue hij)

theorem undeclared_map (part : Schema → Validator) (entries : List (Value × Schema))
    (input : Value.Entries) :
    Validator.undeclared (entries.map fun e => ⟨e.1, e.2.expects, part e.2⟩) input =
      input.filter fun e => !(entries.any fun d => d.1.keyEq e.1) := by
  simp only [Validator.undeclared, List.any_map, Function.comp_def]

theorem validators_object {l : Label} (hown : P.Reports ctx a b I l.message)
    {entries : List (Value × Schema)} {part part' : Schema → Validator}
    (h : ∀ e ∈ entries, ∀ y, y.depth < x.depth →
      P.Validators ctx a b I y (part e.2) (part' e.2))
    (kind : ObjectKind) (extra : Extra) (absent : Absent) :
    P.Validators ctx a b I x
      (.object l kind extra absent (entries.map fun e => ⟨e.1, e.2.expects, part e.2⟩))
      (.object l kind extra absent (entries.map fun e => ⟨e.1, e.2.expects, part' e.2⟩)) := by
  unfold Validators Validator.object
  dsimp only [Dataset.fresh]
  cases hinput : x.entries? with
  | none => exact runs_mismatch hown (.fresh x)
  | some input =>
    dsimp only
    rw [undeclared_map, undeclared_map]
    refine abreast_bind (runs_steps ?_ (.start x _)) fun p q hpq => ?_
    · rw [List.forall₂_map_left_iff, List.forall₂_map_right_iff, List.forall₂_same]
      intro e he g h' hgh
      refine runs_entryStep hown (fun y hget => h e he y ?_)
        (h e he _ (depth_pos_of_entries hinput)) hgh
      obtain ⟨e', he', rfl⟩ := Option.map_eq_some_iff.mp hget
      exact (depth_lt_of_entries hinput (List.mem_of_find?_eq_some he')).2
    · cases hpq with
      | stopped hde => exact hde.giveUp
      | going hgh =>
        refine abreast_bind (runs_steps ?_ hgh) fun p q hpq => hpq.finish _
        rw [List.forall₂_same]
        exact fun e _ g h hgh => runs_extraStep hown kind extra e hgh

/-! ### Operators -/

theorem effects_firstSuccess {vs vs' : List Validator}
    (h : List.Forall₂ (P.Validators ctx a b I x) vs vs') {is js : List Issue}
    (hij : P.issues is js) :
    P.Effects I (fun r s => (∃ y, r = .inl y ∧ s = .inl y) ∨
        ∃ is js, r = .inr is ∧ s = .inr js ∧ P.issues is js)
      (Validator.firstSuccess (ctx.worded a) x vs is)
      (Validator.firstSuccess (ctx.worded b) x vs' js) := by
  induction h generalizing is js with
  | nil => exact abreast_pure (.inr ⟨is, js, rfl, rfl, hij⟩)
  | cons hv _ ih =>
    refine abreast_bind hv.apply fun d e hde => ?_
    rw [hde.status, hde.value]
    split
    · exact abreast_pure (.inl ⟨_, rfl, rfl⟩)
    · exact ih (issues_append hij hde.issues)

theorem validators_union {l : Label} (hown : P.Reports ctx a b I l.message)
    {vs vs' : List Validator} (h : List.Forall₂ (P.Validators ctx a b I x) vs vs') :
    P.Validators ctx a b I x (.union l vs) (.union l vs') := by
  refine abreast_bind (run_within (.fresh x) (effects_firstSuccess h .nil)) fun r s hrs => ?_
  rcases hrs with ⟨y, rfl, rfl⟩ | ⟨is, js, rfl, rfl, hij⟩
  · exact abreast_pure ((Datasets.fresh x).succeed y)
  · exact runs_reject (.fresh x) (hown.nested (l.finding ctx.typeNames x) hij)

theorem runs_memberStep {v v' : Validator} (hv : P.Validators ctx a b I x v v')
    {g h : Gathering (List Value)} (hgh : P.Gatherings g h) :
    P.Runs I P.Progresses (Validator.memberStep x (ctx.worded a) v g)
      (Validator.memberStep x (ctx.worded b) v' h) := by
  refine abreast_bind (run_within hgh.dataset hv.apply) fun d e hde => ?_
  have hadd := hgh.dataset.addAll hde.issues
  dsimp only
  rw [hde.isEmpty, hde.isTyped, hde.value, hgh.output, ctx.abortEarly_worded, ctx.abortEarly_worded]
  split
  · exact abreast_pure (.stopped hadd)
  · split
    · exact abreast_pure (.going ⟨hadd, rfl, hgh.typed⟩)
    · exact abreast_pure (.going ⟨hadd, rfl, rfl⟩)

theorem validators_intersection {l : Label} (hown : P.Reports ctx a b I l.message)
    {vs vs' : List Validator} (h : List.Forall₂ (P.Validators ctx a b I x) vs vs') :
    P.Validators ctx a b I x (.intersection l vs) (.intersection l vs') := by
  refine abreast_bind (runs_steps ?_ (.start x [])) fun p q hpq => ?_
  · exact h.imp fun _ _ hv _ _ hgh => runs_memberStep hv hgh
  · cases hpq with
    | stopped hde => exact hde.giveUp
    | going hgh =>
      dsimp only
      rw [hgh.typed, hgh.output]
      split
      · refine abreast_bind (run_withinExcept _ hgh.dataset) fun merged merged' heq => ?_
        subst heq
        cases merged with
        | none => exact runs_mismatch hown hgh.dataset
        | some output =>
          dsimp only
          rw [hgh.dataset.isEmpty]
          split
          · exact abreast_pure (hgh.dataset.succeed output)
          · exact abreast_pure (hgh.dataset.succeedPartly output)
      · exact hgh.dataset.giveUp

/-! ### Schemas -/

/-- A node keeps two runs paired when its reports are paired, its inner parts are run abreast on
the value and on what is supplied for it, and its elements on values that are nested less deep. -/
theorem node {s : Schema} {part part' resolve resolve' : Schema → Validator}
    (hown : P.Reports ctx a b I s.message)
    (hinner : ∀ c ∈ s.inners, P.Validators ctx a b I x (part c) (part' c))
    (hsupplied : ∀ m w c given y, s = .wrapper m w c → w.default? x = some given →
      Gives I (Validator.supply ctx given) y → P.Validators ctx a b I y (part c) (part' c))
    (helement : ∀ c ∈ s.elements, ∀ y, y.depth < x.depth →
      P.Validators ctx a b I y (part c) (part' c))
    (hkeep : ∀ m id getter, s = .lazy m id getter → Keeps I (ctx.force id getter))
    (hbehind : ∀ m id getter t, s = .lazy m id getter → Gives I (ctx.force id getter) t →
      P.Validators ctx a b I x (resolve t) (resolve' t)) :
    P.Validators ctx a b I x (s.node part resolve) (s.node part' resolve') := by
  cases s with
  | constraint m check name abort inner =>
    exact validators_constraint hown (hinner inner (by simp [Schema.inners])) check name abort
  | wrapper m w inner =>
    exact validators_wrapper (hinner inner (by simp [Schema.inners]))
      fun given y hdefault hy => hsupplied m w inner given y rfl hdefault hy
  | overwrite m transform inner =>
    exact validators_overwrite (hinner inner (by simp [Schema.inners])) transform
  | lazy m id getter =>
    exact validators_lazy (hkeep m id getter rfl) fun t ht => hbehind m id getter t rfl ht
  | object m id kind extra absent entries =>
    exact validators_object hown (fun e he => helement e.2 (List.mem_map_of_mem he)) kind extra absent
  | array m limits item =>
    exact validators_array hown (helement item (by simp [Schema.elements])) limits
  | set m limits item =>
    exact validators_set hown (helement item (by simp [Schema.elements])) limits
  | tuple m items rest =>
    refine validators_tuple hown ?_ ?_
    · rw [List.forall₂_map_left_iff, List.forall₂_map_right_iff, List.forall₂_same]
      exact fun c hc => helement c (by simp [Schema.elements, hc])
    · cases rest with
      | none => exact .none
      | some r => exact .some (helement r (by simp [Schema.elements]))
  | map m limits key value =>
    exact validators_map hown (.inl rfl) (helement key (by simp [Schema.elements]))
      (helement value (by simp [Schema.elements])) limits
  | record m key value =>
    exact validators_record hown (.inr rfl) (helement key (by simp [Schema.elements]))
      (helement value (by simp [Schema.elements]))
  | union m members =>
    refine validators_union hown ?_
    rw [List.forall₂_map_left_iff, List.forall₂_map_right_iff, List.forall₂_same]
    exact hinner
  | intersection m members =>
    refine validators_intersection hown ?_
    rw [List.forall₂_map_left_iff, List.forall₂_map_right_iff, List.forall₂_same]
    exact hinner
  | _ => exact validators_judged rfl hown resolve resolve'

/-- Two runs of a schema are paired when the reports of the schemas that can be reached are, however
many references may lie on one path: where one of them leads nowhere, it ends with a fault. -/
theorem validators_upTo {U : Schema → Prop} (hlenient : P.lenient) (hclosed : ctx.Closed I U)
    (hown : ∀ s, U s → P.Reports ctx a b I s.message) (n n' : Nat) {s : Schema} (hs : U s)
    (x : Value) :
    P.Validators ctx a b I x (s.validatorUpTo n) (s.validatorUpTo n') := by
  -- The outer induction is for the schemas behind references, which have fewer references to go; the
  -- inner one is for the parts of one schema, which have as many.
  induction n using Nat.strongRecOn generalizing n' s x with
  | ind n ih =>
    induction s using Schema.childInduction generalizing x with
    | step s ihParts =>
      have hpart : ∀ c ∈ s.children, ∀ y, P.Validators ctx a b I y
          (c.validator (Schema.resolveUpTo n)) (c.validator (Schema.resolveUpTo n')) := by
        intro c hc y
        rw [← Schema.validatorUpTo_eq, ← Schema.validatorUpTo_eq]
        exact ihParts c hc (hclosed.part hs hc) y
      rw [Schema.validatorUpTo_eq, Schema.validatorUpTo_eq, Schema.validator_eq_node,
        Schema.validator_eq_node]
      refine node (hown s hs) (fun c hc => ?_) (fun m w c given y hw _ _ => ?_) (fun c hc y _ => ?_)
        (fun m id getter hlazy => ?_) fun m id getter t hlazy ht => ?_
      · exact hpart c (Schema.mem_children.mpr (.inl hc)) x
      · exact hpart c (by simp [hw, Schema.children]) y
      · exact hpart c (Schema.mem_children.mpr (.inr hc)) y
      · exact hclosed.keeps (hlazy ▸ hs)
      · cases n with
        | zero => exact fun w hI => .left hlenient
        | succ k =>
          cases n' with
          | zero => exact fun w hI => .right hlenient
          | succ k' => exact ih k (Nat.lt_succ_self k) k' (hclosed.behind (hlazy ▸ hs) ht) x

end Pairing

end Conform
