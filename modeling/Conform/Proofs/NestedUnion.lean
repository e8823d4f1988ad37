/-
  Conform/Proofs/NestedUnion.lean
  ===============================
  **Nested unions.**  One union of all leaves of a tree tries them depth first
  (`Nest.firstSuccessAll_eq`): it takes the first that succeeds, or fails for the
  issues of all of them, in order.

  A union at every node of the tree takes the same leaf.  But an inner union that
  fails puts that into words, and the message of the configuration may be a callable
  that remembers it.  So the nested union runs later leaves in other worlds, which
  differ by calls of that message (`World.Aside`); where everything that is called
  overlooks these, it comes to the same (`Nest.unions_agree`).
-/
import Conform.Proofs.Manner
import Conform.Proofs.Nesting

namespace Conform

/-! ### Depth first -/

/-- The value of a dataset that is valid, or else its issues. -/
def Dataset.outcome (d : Dataset) : Value ⊕ List Issue :=
  if d.status == .success then .inl d.value else .inr d.issues

namespace Nest

mutual

/-- Tries the leaves of a tree, depth first: the value of the first that succeeds, or the issues of
all. -/
def firstSuccess (ctx : Context) (x : Value) (n : Nat) : Nest → Effect (Value ⊕ List Issue)
  | .leaf s => do
    let d ← (s.validatorUpTo n).apply ctx x
    return d.outcome
  | .node members => firstSuccessAll ctx x n members
termination_by structural t => t

/-- Tries trees, one after another. -/
def firstSuccessAll (ctx : Context) (x : Value) (n : Nat) : List Nest → Effect (Value ⊕ List Issue)
  | [] => return .inr []
  | t :: rest => do
    match ← t.firstSuccess ctx x n with
    | .inl y => return .inl y
    | .inr issues =>
      match ← firstSuccessAll ctx x n rest with
      | .inl y => return .inl y
      | .inr more => return .inr (issues ++ more)
termination_by structural ts => ts

end

end Nest

section

variable {ctx : Context} {x : Value} {vs us : List Validator} {issues : List Issue} {w u : World}

/-- Issues found before stand before those of all members. -/
theorem firstSuccess_after (ctx : Context) (x : Value) (vs : List Validator) (issues : List Issue) :
    Validator.firstSuccess ctx x vs issues = (do
      match ← Validator.firstSuccess ctx x vs [] with
      | .inl y => return .inl y
      | .inr more => return .inr (issues ++ more)) := by
  induction vs generalizing issues with
  | nil => simp [Validator.firstSuccess]
  | cons m rest ih =>
    simp only [Validator.firstSuccess, bind_assoc, List.nil_append]
    refine bind_congr fun d => ?_
    split
    · simp
    · rw [ih (issues ++ d.issues), ih d.issues, bind_assoc]
      refine bind_congr fun r => ?_
      cases r with
      | inl y => simp
      | inr more => simp

/-- Members are tried after those before them have failed. -/
theorem firstSuccess_append (ctx : Context) (x : Value) (vs us : List Validator)
    (issues : List Issue) :
    Validator.firstSuccess ctx x (vs ++ us) issues = (do
      match ← Validator.firstSuccess ctx x vs issues with
      | .inl y => return .inl y
      | .inr more => Validator.firstSuccess ctx x us more) := by
  induction vs generalizing issues with
  | nil => simp [Validator.firstSuccess]
  | cons m rest ih =>
    simp only [List.cons_append, Validator.firstSuccess, bind_assoc]
    refine bind_congr fun d => ?_
    split
    · simp
    · rw [ih]

/-- Members that all fail, and the issues of all of them. -/
theorem firstSuccess_inr_iff {more : List Issue} :
    Validator.firstSuccess ctx x vs issues w = (.ok (.inr more), u) ↔
      ∃ ds, vs.mapM (fun m => m.apply ctx x) w = (.ok ds, u) ∧ (∀ d ∈ ds, d.status ≠ .success) ∧
        more = issues ++ ds.flatMap (·.issues) := by
  induction vs generalizing issues w with
  | nil =>
    constructor
    · intro h
      cases h
      exact ⟨[], rfl, List.forall_mem_nil _, (List.append_nil _).symm⟩
    · rintro ⟨ds, hds, -, rfl⟩
      rw [List.mapM_nil] at hds
      obtain ⟨rfl, rfl⟩ := pure_eq_ok hds
      rw [List.flatMap_nil, List.append_nil]
      rfl
  | cons m rest ih =>
    rw [Validator.firstSuccess, List.mapM_cons]
    constructor
    · intro h
      obtain ⟨d, v, hd, h⟩ := bind_eq_ok h
      split at h
      · cases h
      · next hstatus =>
        obtain ⟨ds, hds, hall, rfl⟩ := ih.mp h
        refine ⟨d :: ds, ?_, List.forall_mem_cons.mpr ⟨?_, hall⟩, ?_⟩
        · rw [bind_of_eq_ok hd, bind_of_eq_ok hds]
          rfl
        · exact fun hsuccess => hstatus (beq_iff_eq.mpr hsuccess)
        · rw [List.flatMap_cons, List.append_assoc]
    · rintro ⟨ds, hds, hall, rfl⟩
      obtain ⟨d, v, hd, h⟩ := bind_eq_ok hds
      obtain ⟨ds', v', hds', h⟩ := bind_eq_ok h
      cases h
      rw [List.forall_mem_cons] at hall
      rw [bind_of_eq_ok hd, if_neg (mt beq_iff_eq.mp hall.1)]
      exact ih.mpr ⟨ds', hds', hall.2, by rw [List.flatMap_cons, List.append_assoc]⟩

/-! ### One union -/

theorem Schema.validatorUpTo_union (m : Value) (members : List Schema) (n : Nat) :
    (Schema.union m members).validatorUpTo n =
      Validator.union (label (.union m members)) (memberValidators members n) := by
  simp only [validatorUpTo_eq, validator, validators_eq_map, memberValidators]

theorem Schema.run_union (ctx : Context) (m : Value) (members : List Schema) (x : Value) :
    (Schema.union m members).run ctx (.fresh x) =
      Validator.union (label (.union m members))
        (memberValidators members (ctx.bound (.union m members) x)) ctx (.fresh x) := by
  rw [run, validatorUpTo_union]
  rfl

/-- A union succeeds with the value of the first member that does. -/
theorem union_of_success {l : Label} {y : Value}
    (h : Validator.firstSuccess ctx x vs [] w = (.ok (.inl y), u)) :
    Validator.union l vs ctx (.fresh x) w = (.ok (.valid y), u) := by
  refine (bind_of_eq_ok (within_of_eq_ok _ h)).trans ?_
  rfl

/-- A union whose members all fail does so for an issue whose reasons are theirs. -/
theorem cases_of_union {l : Label} {d : Dataset}
    (h : Validator.union l vs ctx (.fresh x) w = (.ok d, u)) :
    (∃ y, Validator.firstSuccess ctx x vs [] w = (.ok (.inl y), u) ∧ d = .valid y) ∨
      ∃ issues f i v, Validator.firstSuccess ctx x vs [] w = (.ok (.inr issues), v) ∧
        ctx.report l.message f v = (.ok i, u) ∧ i.reasons = some issues ∧ d = .invalid x i [] := by
  unfold Validator.union at h
  obtain ⟨r, v, hr, h⟩ := bind_eq_ok h
  have hr := within_eq_ok hr
  cases r with
  | inl y =>
    cases h
    exact .inl ⟨y, hr, rfl⟩
  | inr issues =>
    obtain ⟨i, v', hi, h⟩ := bind_eq_ok h
    cases h
    have hi := within_eq_ok hi
    obtain ⟨message, -, hissue⟩ := gives_report (I := fun _ => True) ⟨v, u, trivial, hi⟩
    refine .inr ⟨issues, _, i, v, hr, hi, ?_, rfl⟩
    rw [hissue]
    rfl

end

/-! ### Calls of the message of the configuration -/

/-- A call of a message. -/
def Call.IsOf (message : Value) : Call → Prop
  | .callable c _ => ∃ id, message = .scalar id (.callable c)
  | .getter _ => False

/-- Calls that are the same, except that a message may have been called more often. -/
inductive Call.Aside (message : Value) : List Call → List Call → Prop where
  | nil : Aside message [] []
  | both (c : Call) {cs cs' : List Call} : Aside message cs cs' → Aside message (c :: cs) (c :: cs')
  | left {c : Call} {cs cs' : List Call} : c.IsOf message → Aside message cs cs' →
      Aside message (c :: cs) cs'
  | right {c : Call} {cs cs' : List Call} : c.IsOf message → Aside message cs cs' →
      Aside message cs (c :: cs')

/-- Worlds in which the same has happened, except that a message may have been called more often. -/
structure World.Aside (message : Value) (w w' : World) : Prop where
  calls : Call.Aside message w.calls w'.calls
  resolved : w.resolved = w'.resolved

theorem World.Aside.refl (message : Value) (w : World) : w.Aside message w where
  calls := by
    induction w.calls with
    | nil => exact .nil
    | cons c cs ih => exact .both c ih
  resolved := rfl

/-- What is answered does not depend on how often the message of the configuration has been called. -/
def Context.Overlooks (ctx : Context) (callee : Value) : Prop :=
  ∀ arguments w w', w.Aside ctx.config.message w' →
    (ctx.invoke callee arguments w).1 = (ctx.invoke callee arguments w').1

/-- Whatever schemas among `U` call or follow overlooks calls of the message of the configuration, and
so does that message. -/
structure Context.Overlooking (ctx : Context) (U : Schema → Prop) : Prop where
  calls {s : Schema} : U s → ∀ callee ∈ s.callees, ctx.Overlooks callee
  getters {m : Value} {id : Nat} {callee : Value} : U (.lazy m id (.callable callee)) →
    ctx.Overlooks callee
  config : ctx.Overlooks ctx.config.message

/-- In worlds that differ by calls of a message a computation returns the same, and leaves worlds that
do so too. -/
structure Oblivious (I : Found → Prop) (message : Value) {ε α : Type}
    (x : ExceptT ε (StateM World) α) : Prop where
  keeps : Keeps I x
  same {w w' : World} : I w.resolved → w.Aside message w' →
    (x w).1 = (x w').1 ∧ (x w).2.Aside message (x w').2

section

variable {I : Found → Prop} {message : Value} {ε α β : Type}

theorem Oblivious.eq_ok {x : ExceptT ε (StateM World) α} (hx : Oblivious I message x) {w w' u : World}
    (hI : I w.resolved) (haside : w.Aside message w') {a : α} (h : x w = (.ok a, u)) :
    ∃ u', x w' = (.ok a, u') ∧ u.Aside message u' := by
  obtain ⟨hresult, hworlds⟩ := hx.same hI haside
  rw [h] at hresult hworlds
  exact ⟨(x w').2, Prod.ext hresult.symm rfl, hworlds⟩

theorem Oblivious.bind {x : ExceptT ε (StateM World) α} {f : α → ExceptT ε (StateM World) β}
    (hx : Oblivious I message x) (hf : ∀ a, Gives I x a → Oblivious I message (f a)) :
    Oblivious I message (x >>= f) := by
  refine ⟨keeps_bind hx.keeps fun a ha => (hf a ha).keeps, fun {w w'} hI haside => ?_⟩
  obtain ⟨hresult, hworlds⟩ := hx.same hI haside
  have hkeep := hx.keeps w hI
  rcases hleft : x w with ⟨r | a, v⟩ <;> rcases hright : x w' with ⟨r' | a', v'⟩ <;>
    rw [hleft, hright] at hresult hworlds <;> cases hresult
  · rw [bind_of_eq_error hleft, bind_of_eq_error hright]
    exact ⟨rfl, hworlds⟩
  · rw [hleft] at hkeep
    rw [bind_of_eq_ok hleft, bind_of_eq_ok hright]
    exact (hf a ⟨w, v, hI, hleft⟩).same hkeep hworlds

theorem oblivious_ofExcept (r : Except Fault α) : Oblivious I message (Effect.ofExcept r) :=
  ⟨keeps_ofExcept r, fun _ haside => ⟨rfl, haside⟩⟩

theorem Oblivious.within {e : Effect α} (he : Oblivious I message e) (d : Dataset) :
    Oblivious I message (within d e) := by
  refine ⟨keeps_within d he.keeps, fun hI haside => ?_⟩
  obtain ⟨hresult, hworlds⟩ := he.same hI haside
  rw [within_apply, within_apply, hresult]
  exact ⟨rfl, hworlds⟩

theorem Oblivious.toEffect {r : Run α} (hr : Oblivious I message r) :
    Oblivious I message r.toEffect := by
  refine ⟨keeps_toEffect hr.keeps, fun hI haside => ?_⟩
  obtain ⟨hresult, hworlds⟩ := hr.same hI haside
  rw [toEffect_apply, toEffect_apply, hresult]
  exact ⟨rfl, hworlds⟩

/-- The manner of not noticing calls of a message. -/
def Manner.oblivious (I : Found → Prop) (message : Value) : Manner I where
  effect := Oblivious I message
  run := Oblivious I message
  ofExcept {_ r} _ := oblivious_ofExcept r
  bind := Oblivious.bind
  bindRun := Oblivious.bind
  within d h := h.within d
  toEffect h := h.toEffect

end

section

variable {ctx : Context} {I : Found → Prop} {U : Schema → Prop}

theorem oblivious_invoke {callee : Value} (h : ctx.Overlooks callee) (arguments : List Argument) :
    Oblivious I ctx.config.message (ctx.invoke callee arguments) := by
  refine ⟨keeps_invoke ctx callee arguments, fun {w w'} _ haside => ⟨h arguments _ _ haside, ?_⟩⟩
  unfold Context.invoke
  split
  · exact ⟨.both _ haside.calls, haside.resolved⟩
  · exact haside
  · exact haside

theorem oblivious_force {id : Nat} {getter : Getter} (hkeep : Keeps I (ctx.force id getter))
    (h : ∀ callee, getter = .callable callee → ctx.Overlooks callee) :
    Oblivious I ctx.config.message (ctx.force id getter) := by
  refine ⟨hkeep, fun {w w'} hI haside => ?_⟩
  unfold Context.force
  rw [get_bind, get_bind, ← haside.resolved]
  cases w.resolved.lookup id with
  | some s => exact ⟨rfl, haside⟩
  | none =>
    cases getter with
    | definition name =>
      dsimp only
      rw [set_bind, set_bind]
      have hcalled := haside.calls.both (.getter name)
      cases ctx.definitions.lookup name with
      | none => exact ⟨rfl, hcalled, rfl⟩
      | some given => cases given <;> exact ⟨rfl, hcalled, rfl⟩
    | callable callee =>
      have hcall := (oblivious_invoke (I := I) (h callee rfl) []).bind fun v _ =>
        oblivious_ofExcept (.error (notGotten v) : Except Fault Schema)
      exact hcall.same hI haside

theorem Context.Overlooking.serves (hclosed : ctx.Closed I U) (h : ctx.Overlooking U) :
    (Manner.oblivious I ctx.config.message).Serves ctx U where
  calls hs callee hcallee := oblivious_invoke (h.calls hs callee hcallee)
  config := oblivious_invoke h.config
  force hs := oblivious_force (hclosed.keeps hs) fun _ hgetter => by
    rw [hgetter] at hs
    exact h.getters hs
  members _ := .inr oblivious_ofExcept

/-- A call of a message is set aside. -/
theorem aside_of_invoke {message : Value} {arguments : List Argument} {r : Except Fault Value}
    {w u v : World} (h : ctx.invoke message arguments w = (r, u)) (haside : w.Aside message v) :
    u.Aside message v := by
  obtain rfl : (ctx.invoke message arguments w).2 = u := congrArg Prod.snd h
  clear h
  unfold Context.invoke
  split
  · next id c => exact ⟨.left ⟨id, rfl⟩ haside.calls, haside.resolved⟩
  · exact haside
  · exact haside

/-- Putting a finding into words without a message of its own calls nothing but the message of the
configuration. -/
theorem aside_of_report {f : Finding} {i : Issue} {w u v : World}
    (h : ctx.report .null f w = (.ok i, u)) (haside : w.Aside ctx.config.message v) :
    u.Aside ctx.config.message v := by
  unfold Context.report at h
  obtain ⟨text, w₁, htext, h⟩ := bind_eq_ok h
  obtain rfl : w = w₁ := congrArg Prod.snd htext
  rw [show Value.null.isTrue = .ok false from rfl] at h
  obtain ⟨hasOwn, w₂, hown, h⟩ := bind_eq_ok h
  cases hown
  dsimp only at h
  rw [if_neg Bool.false_ne_true] at h
  split at h
  · cases h
    exact haside
  · split at h
    · obtain ⟨message, v', hmessage, h⟩ := bind_eq_ok h
      cases h
      exact aside_of_invoke hmessage haside
    · cases h
      exact haside

end

namespace Nest

variable {ctx : Context} {x : Value} {n : Nat}

/-- Trying the leaves of a tree depth first is trying them from left to right. -/
theorem firstSuccess_eq (t : Nest) :
    t.firstSuccess ctx x n = Validator.firstSuccess ctx x (leafValidators n [t]) [] := by
  induction t using nodeInduction with
  | leaf s =>
    change _ = Validator.firstSuccess ctx x [s.validatorUpTo n] []
    rw [firstSuccess, Validator.firstSuccess]
    refine bind_congr fun d => ?_
    rw [Dataset.outcome]
    split <;> rfl
  | node members ih =>
    rw [leafValidators_node, firstSuccess]
    induction members with
    | nil => rfl
    | cons t rest ihRest =>
      rw [List.forall_mem_cons] at ih
      rw [leafValidators_cons, firstSuccess_append, firstSuccessAll, ih.1, ihRest ih.2]
      refine bind_congr fun r => ?_
      cases r with
      | inl y => rfl
      | inr issues => exact (firstSuccess_after ctx x _ issues).symm

theorem firstSuccessAll_eq (ts : List Nest) :
    firstSuccessAll ctx x n ts = Validator.firstSuccess ctx x (leafValidators n ts) [] := by
  rw [← leafValidators_node, ← firstSuccess_eq, firstSuccess]

/-! ### A union at every node -/

/-- What a union at every node comes to, and what trying the leaves does: the same value, or issues
both. -/
inductive Agree : Value ⊕ List Issue → Value ⊕ List Issue → Prop where
  | value (y : Value) : Agree (.inl y) (.inl y)
  | issues (is js : List Issue) : Agree (.inr is) (.inr js)

theorem Agree.refl : ∀ r, Agree r r
  | .inl y => .value y
  | .inr is => .issues is is

/-- A union at every node of a tree comes to what trying its leaves does, in worlds aside. -/
def TriesLeaves (ctx : Context) (I : Found → Prop) (x : Value) (n : Nat) (t : Nest) : Prop :=
  ∀ w u v d, I w.resolved → w.Aside ctx.config.message v →
    ((t.schema (.union .null)).validatorUpTo n).apply ctx x w = (.ok d, u) →
    ∃ r v', t.firstSuccess ctx x n v = (.ok r, v') ∧ u.Aside ctx.config.message v' ∧
      Agree d.outcome r

section

variable {I : Found → Prop} {U : Schema → Prop} (hclosed : ctx.Closed I U) {ts : List Nest}
  {w u v : World}

include hclosed

/-- Trees come one after another to what trying their leaves does. -/
theorem agree_of_trees (hts : ∀ t ∈ ts, U (t.schema (.union .null)))
    (hall : ∀ t ∈ ts, t.TriesLeaves ctx I x n) (hI : I w.resolved)
    (haside : w.Aside ctx.config.message v) {issues : List Issue} {r : Value ⊕ List Issue}
    (h : Validator.firstSuccess ctx x (treeValidators (.union .null) n ts) issues w = (.ok r, u)) :
    ∃ r' v', firstSuccessAll ctx x n ts v = (.ok r', v') ∧ u.Aside ctx.config.message v' ∧
      Agree r r' := by
  induction ts generalizing issues w v with
  | nil =>
    cases h
    exact ⟨.inr [], v, rfl, haside, .issues _ _⟩
  | cons t rest ih =>
    rw [List.forall_mem_cons] at hts hall
    rw [treeValidators_cons, Validator.firstSuccess] at h
    obtain ⟨d, w₁, hd, h⟩ := bind_eq_ok h
    obtain ⟨r₁, v₁, hfirst, haside₁, hagree⟩ := hall.1 w w₁ v d hI haside hd
    rw [Dataset.outcome] at hagree
    rw [firstSuccessAll, bind_of_eq_ok hfirst]
    split at h
    · next hstatus =>
      cases h
      rw [if_pos hstatus] at hagree
      cases hagree
      exact ⟨_, v₁, rfl, haside₁, .value _⟩
    · next hstatus =>
      -- the tree has failed, and may have called the message for that: the worlds part here
      rw [if_neg hstatus] at hagree
      cases hagree
      obtain ⟨r₂, v₂, hrest, haside₂, hagree⟩ :=
        ih hts.2 hall.2 (resolved_of_apply hclosed hts.1 hI hd) haside₁ h
      dsimp only
      rw [bind_of_eq_ok hrest]
      cases hagree with
      | value y => exact ⟨_, v₂, rfl, haside₂, .value y⟩
      | issues is js => exact ⟨_, v₂, rfl, haside₂, .issues _ _⟩

/-- A union of trees comes to what trying their leaves does. -/
theorem agree_of_union (hts : ∀ t ∈ ts, U (t.schema (.union .null)))
    (hall : ∀ t ∈ ts, t.TriesLeaves ctx I x n) (hI : I w.resolved)
    (haside : w.Aside ctx.config.message v) {l : Label} (hl : l.message = .null) {d : Dataset}
    (h : Validator.union l (treeValidators (.union .null) n ts) ctx (.fresh x) w = (.ok d, u)) :
    ∃ r v', firstSuccessAll ctx x n ts v = (.ok r, v') ∧ u.Aside ctx.config.message v' ∧
      Agree d.outcome r := by
  rcases cases_of_union h with ⟨y, hfirst, rfl⟩ | ⟨issues, f, i, u', hfirst, hi, -, rfl⟩
  · exact agree_of_trees hclosed hts hall hI haside hfirst
  · obtain ⟨r, v', hr, haside', hagree⟩ := agree_of_trees hclosed hts hall hI haside hfirst
    rw [hl] at hi
    refine ⟨r, v', hr, aside_of_report hi haside', ?_⟩
    cases hagree
    exact .issues _ _

/-- Where what is called overlooks the message of the configuration, a union at every node comes to
what trying the leaves does. -/
theorem triesLeaves (hoverlooking : ctx.Overlooking U) {t : Nest} (ht : U (t.schema (.union .null))) :
    t.TriesLeaves ctx I x n := by
  induction t using nodeInduction with
  | leaf s =>
    intro w u v d hI haside h
    have hs : (Manner.oblivious I ctx.config.message).Has ctx (s.validatorUpTo n) :=
      Manner.has_validatorUpTo hclosed (hoverlooking.serves hclosed) n ht
    obtain ⟨v', hv', haside'⟩ := (hs.apply x).eq_ok hI haside h
    refine ⟨d.outcome, v', ?_, haside', .refl _⟩
    rw [firstSuccess, bind_of_eq_ok hv']
    rfl
  | node members ih =>
    intro w u v d hI haside h
    have hmembers := mem_of_node hclosed (fun _ => rfl) ht
    rw [schema, Schema.validatorUpTo_union] at h
    exact agree_of_union hclosed hmembers (fun t hmem => ih t hmem (hmembers t hmem)) hI haside rfl
      (toEffect_eq_ok h)

end

/-- One union of all leaves of a tree comes to what trying them depth first does. -/
theorem union_first_success (ctx : Context) (members : List Nest) (x : Value) (w : World) :
    let flat := (node members).flat (.union .null)
    let n := ctx.bound flat x
    (∀ y u, (node members).firstSuccess ctx x n w = (.ok (.inl y), u) →
      flat.run ctx (.fresh x) w = (.ok (.valid y), u)) ∧
    ∀ d u, flat.run ctx (.fresh x) w = (.ok d, u) →
      (∃ y, (node members).firstSuccess ctx x n w = (.ok (.inl y), u) ∧ d = .valid y) ∨
      ∃ ds i v, (leafValidators n members).mapM (fun m => m.apply ctx x) w = (.ok ds, v) ∧
        (∀ e ∈ ds, e.status ≠ .success) ∧
        (node members).firstSuccess ctx x n w = (.ok (.inr (ds.flatMap (·.issues))), v) ∧
        d = .invalid x i [] ∧ i.reasons = some (ds.flatMap (·.issues)) := by
  intro flat n
  have hrun : flat.run ctx (.fresh x) =
      Validator.union flat.label (leafValidators n members) ctx (.fresh x) :=
    Schema.run_union ctx .null _ x
  rw [firstSuccess, firstSuccessAll_eq]
  refine ⟨fun y u h => ?_, fun d u h => ?_⟩
  · rw [hrun]
    exact union_of_success h
  · rw [hrun] at h
    rcases cases_of_union h with ⟨y, hfirst, rfl⟩ | ⟨issues, f, i, v, hfirst, -, hreasons, rfl⟩
    · exact .inl ⟨y, hfirst, rfl⟩
    · obtain ⟨ds, hds, hall, hissues⟩ := firstSuccess_inr_iff.mp hfirst
      rw [List.nil_append] at hissues
      rw [hissues] at hfirst hreasons
      exact .inr ⟨ds, i, v, hds, hall, hfirst, rfl, hreasons⟩

/-- Where what is called overlooks the message of the configuration, nested unions come to what one
union of all their leaves does. -/
theorem unions_agree {members : List Nest} {w : World} (hoverlooking :
      ctx.Overlooking (ctx.Reaches w.resolved ((node members).schema (.union .null)))) :
    let nested := (node members).schema (.union .null)
    let flat := (node members).flat (.union .null)
    (∀ d u, nested.run ctx (.fresh x) w = (.ok d, u) → d.status = .success →
      ∃ v, flat.run ctx (.fresh x) w = (.ok d, v)) ∧
    ∀ d u e v, nested.run ctx (.fresh x) w = (.ok d, u) → flat.run ctx (.fresh x) w = (.ok e, v) →
      d.status = e.status ∧ d.value = e.value := by
  intro nested flat
  have hclosed := ctx.closed_reaches w.resolved nested
  have hI := ctx.leads_reaches w.resolved nested
  have hmembers := mem_of_node hclosed (fun _ => rfl) .start
  have hbound : ctx.bound flat x = ctx.bound nested x := ctx.bound_nest (.inl rfl) members x
  obtain ⟨hfirst, hflat⟩ := union_first_success ctx members x w
  rw [firstSuccess, hbound] at hfirst hflat
  have hnested {d : Dataset} {u : World} (h : nested.run ctx (.fresh x) w = (.ok d, u)) :
      (∃ y v, firstSuccessAll ctx x (ctx.bound nested x) members w = (.ok (.inl y), v) ∧
        d = .valid y) ∨
      ∃ is v i, firstSuccessAll ctx x (ctx.bound nested x) members w = (.ok (.inr is), v) ∧
        d = .invalid x i [] := by
    rw [show nested = .union .null (schemas (.union .null) members) from rfl,
      Schema.run_union] at h
    obtain ⟨r, v, hr, -, hagree⟩ := agree_of_union hclosed hmembers
      (fun t ht => triesLeaves hclosed hoverlooking (hmembers t ht)) hI (.refl _ w) rfl h
    rcases cases_of_union h with ⟨y, -, rfl⟩ | ⟨-, -, i, -, -, -, -, rfl⟩
    · cases hagree
      exact .inl ⟨y, v, hr, rfl⟩
    · cases hagree
      exact .inr ⟨_, v, i, hr, rfl⟩
  refine ⟨fun d u h hsuccess => ?_, fun d u e v h h' => ?_⟩
  · rcases hnested h with ⟨y, v, hr, rfl⟩ | ⟨is, v, i, -, rfl⟩
    · exact ⟨v, hfirst y v hr⟩
    · cases hsuccess
  · rcases hnested h with ⟨y, v₁, hr, rfl⟩ | ⟨is, v₁, i, hr, rfl⟩ <;>
      rcases hflat e v h' with ⟨y', hr', rfl⟩ | ⟨ds, j, v₂, -, -, hr', rfl, -⟩ <;>
      cases hr.symm.trans hr'
    · exact ⟨rfl, rfl⟩
    · exact ⟨rfl, rfl⟩

end Nest

end Conform
