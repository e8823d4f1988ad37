/-
  Conform/Proofs/Outcome.lean
  ===========================
  **What a run comes to.**  The rules by which the outcome of a schema on a
  value depends on the outcomes of its parts (`Schema.Outcome`), one for each
  way in which a validator can end without a fault.

  Every run that ends without a fault ends by these rules (`outcome_of_yields`),
  and what the rules preserve holds of every run (`yields_induction`).
-/
import Conform.Proofs.Reach
import Mathlib.Data.List.Forall2

namespace Conform

/-! ### Values as a whole -/

/-- What a schema without parts makes of a value: the value that it gives, or what is wrong. -/
abbrev Judgement := TypeNames → Value → Except Fault (Value ⊕ Finding)

/-- The validator of a judgement. -/
def Validator.judge (message : Value) (j : Judgement) : Validator := fun ctx d => do
  match ← withinExcept d (j ctx.typeNames d.value) with
  | .inl v => return d.succeed v
  | .inr f => reject ctx d message f

/-- The value itself, if a test of it is passed, and else a finding. -/
def acceptIf (test : Except Fault Bool) (x : Value) (f : Finding) :
    Except Fault (Value ⊕ Finding) := do
  if ← test then .ok (.inl x) else .ok (.inr f)

namespace Schema

/-- The judgement of a schema without parts. -/
def judgement? : Schema → Option Judgement
  | s@(.primitive _ p) => some fun names x =>
    acceptIf (.ok (p.accepts x)) x (s.label.finding names x)
  | .anything _ _ => some fun _ x => .ok (.inl x)
  | s@(.never _) => some fun names x => .ok (.inr (s.label.finding names x))
  | s@(.coerce _ t) => some fun names x => do
    match ← t.coerce? x with
    | some y => .ok (.inl y)
    | none => .ok (.inr { s.label.finding names x with messageKey := t.messageKey x })
  | s@(.literal _ v _) => some fun names x =>
    acceptIf (x.strictEq v) x { s.label.finding names x with requirement := v }
  | s@(.enum _ _ values _) => some fun names x =>
    acceptIf (Validator.amongStrictly x values) x
      { s.label.finding names x with requirement := .ofTuple values }
  | s@(.nativeEnum _ e) => some fun names x =>
    acceptIf (Validator.belongs e x) x
      { s.label.finding names x with requirement := .scalar .shared (.type (.enumeration e)) }
  | _ => none

theorem validator_eq_judge {s : Schema} {j : Judgement} (h : s.judgement? = some j)
    (resolve : Schema → Validator) : s.validator resolve = .judge s.message j := by
  funext ctx d
  cases s <;> simp only [judgement?, Option.some.injEq, reduceCtorEq] at h <;> subst h
  case primitive m p =>
    simp only [validator, Validator.primitive, Validator.judge, acceptIf]
    cases p.accepts d.value <;> rfl
  case anything => rfl
  case never => rfl
  case coerce m t =>
    simp only [validator, Validator.coerce, Validator.judge]
    rcases t.coerce? d.value with f | (_ | y) <;> rfl
  case literal m v expects =>
    simp only [validator, Validator.literal, Validator.judge, acceptIf]
    rcases d.value.strictEq v with f | (_ | _) <;> rfl
  case enum m keys values expects =>
    simp only [validator, Validator.enum, Validator.judge, acceptIf]
    rcases Validator.amongStrictly d.value values with f | (_ | _) <;> rfl
  case nativeEnum m e =>
    simp only [validator, Validator.nativeEnum, Validator.judge, acceptIf]
    rcases Validator.belongs e d.value with f | (_ | _) <;> rfl

/-- What a container has against a value before its parts are looked at. -/
def objection? (names : TypeNames) (x : Value) : Schema → Except Fault (Option Finding)
  | s@(.array _ limits _) =>
    match x with
    | .list _ _ items => Validator.sizeFinding? s.label limits x items.length
    | _ => .ok (some (s.label.finding names x))
  | s@(.set _ limits _) =>
    match x with
    | .set _ _ items => Validator.sizeFinding? s.label limits x items.length
    | _ => .ok (some (s.label.finding names x))
  | s@(.map _ limits _ _) =>
    match x.entries? with
    | some entries => Validator.sizeFinding? s.label limits x entries.length
    | none => .ok (some (s.label.finding names x))
  | s@(.object ..) | s@(.record ..) =>
    .ok (if x.isMapping then none else some (s.label.finding names x))
  | s@(.tuple _ items rest) =>
    match Validator.sequence? x with
    | none => .ok (some (s.label.finding names x))
    | some values =>
      let refusal (key : String) : Finding :=
        Validator.lengthFinding s.label names x items.length values.length key
      if rest.isNone && values.length != items.length then .ok (some (refusal "tuple_length"))
      else if rest.isSome && values.length < items.length then
        .ok (some (refusal "tuple_min_length"))
      else .ok none
  | _ => .ok none

end Schema

/-! ### Sizes -/

/-- The size is not below the least. -/
def Limits.AtLeast (limits : Limits) (size : Nat) : Prop :=
  ∀ limit ∈ limits.least, limit.count ≤ size

/-- The size is not above the greatest. -/
def Limits.AtMost (limits : Limits) (size : Nat) : Prop :=
  ∀ limit ∈ limits.most, size ≤ limit.count

/-- A size is not found wrong exactly when it is within the limits. -/
theorem Validator.sizeFinding?_eq_none_iff {l : Label} {limits : Limits} {x : Value} {size : Nat} :
    sizeFinding? l limits x size = .ok none ↔ limits.AtLeast size ∧ limits.AtMost size := by
  have hsome {r : Except Fault Finding} : r.map some ≠ .ok none := by
    cases r <;> intro hr <;> cases hr
  obtain ⟨least, most⟩ := limits
  unfold sizeFinding?
  cases least with
  | none =>
    cases most with
    | none => simp [Limits.AtLeast, Limits.AtMost]
    | some limit =>
      dsimp only
      split
      · next hlt => simp [Limits.AtLeast, Limits.AtMost, hsome, hlt]
      · next hle => simp [Limits.AtLeast, Limits.AtMost, Nat.le_of_not_lt hle]
  | some limit =>
    cases most with
    | none =>
      dsimp only
      split
      · next hlt => simp [Limits.AtLeast, Limits.AtMost, hsome, hlt]
      · next hle => simp [Limits.AtLeast, Limits.AtMost, Nat.le_of_not_lt hle]
    | some limit' =>
      dsimp only
      split
      · next hlt => simp [Limits.AtLeast, Limits.AtMost, hsome, Nat.not_le.mpr hlt]
      · next hle =>
        split
        · next hlt => simp [Limits.AtLeast, Limits.AtMost, hsome, hlt]
        · next hle' =>
          simp [Limits.AtLeast, Limits.AtMost, Nat.le_of_not_lt hle, Nat.le_of_not_lt hle']

/-! ### Contributions -/

/-- What is known of the runs of schemas on values. -/
abbrev Runs := Schema → Value → Dataset → Prop

/-- A part of a container: its key, its value, and its schema. -/
structure Position where
  key : Value
  value : Value
  schema : Schema

/-- A validated part, under its key. -/
def Dataset.contribution {α : Type} (part : Dataset) (key : Value) (put : Value → α → α) :
    Contribution α :=
  ⟨part.issues.map (·.under key), part.isTyped, put part.value⟩

/-- An issue and nothing else. -/
def Issue.contribution {α : Type} (i : Issue) : Contribution α := ⟨[i], false, id⟩

/-- Something that is written without being validated. -/
def Contribution.plain {α : Type} (put : α → α) : Contribution α := ⟨[], true, put⟩

/-- What a part of a list, a tuple or a set brings. -/
inductive PartBrings (R : Runs) : Position → Contribution (List Value) → Prop where
  | run {p : Position} {part : Dataset} : R p.schema p.value part →
      PartBrings R p (part.contribution p.key fun v output => output ++ [v])

/-- What a member of an intersection brings: its issues as they are. -/
inductive MemberBrings (R : Runs) (x : Value) : Schema → Contribution (List Value) → Prop where
  | run {s : Schema} {part : Dataset} : R s x part →
      MemberBrings R x s ⟨part.issues, part.isTyped, fun output => output ++ [part.value]⟩

/-- A declared key that is missing. -/
def Label.missing (l : Label) (names : TypeNames) (key : Value) (expects : String) : Finding :=
  { l.finding names .undefined with
    type := "required", expects, requirement := key, messageKey := "required" }

/-- A key that is not declared, with the value under it. -/
def Label.unexpected (l : Label) (names : TypeNames) (key v : Value) : Finding :=
  { l.finding names v with
    type := "strict_object", expects := "never", requirement := key,
    messageKey := "strict_object" }

/-- A key or value of a mapping that is not valid, for a reason. -/
def Label.invalidEntry (l : Label) (names : TypeNames) (messageKey : String) (x : Value)
    (expects : String) (reason : Value) : Finding :=
  { l.finding names x with expects, requirement := reason, messageKey }

section

variable (ctx : Context) (I : Found → Prop) (R : Runs)

/-- What a declared key brings, given the entries of the mapping. -/
inductive DeclaredBrings (l : Label) (absent : Absent) (input : Value.Entries) :
    Value × Schema → Contribution Value.Entries → Prop where
  | present {e : Value × Schema} {v : Value} {part : Dataset} :
      input.get? e.1 = some v → R e.2 v part →
      DeclaredBrings l absent input e (part.contribution e.1 (Validator.putEntry e.1))
  | validated {e : Value × Schema} {part : Dataset} :
      input.get? e.1 = none → absent = .validate → R e.2 .undefined part →
      DeclaredBrings l absent input e (part.contribution e.1 (Validator.putEntry e.1))
  | skipped {e : Value × Schema} :
      input.get? e.1 = none → absent = .skip → DeclaredBrings l absent input e (.plain id)
  | missing {e : Value × Schema} {i : Issue} :
      input.get? e.1 = none → absent = .reject →
      Gives I (ctx.report l.message (l.missing ctx.typeNames e.1 e.2.expects)) i →
      DeclaredBrings l absent input e (i.under e.1).contribution

/-- What a key that is not declared brings. -/
inductive ExtraBrings (l : Label) (kind : ObjectKind) (extra : Extra) :
    Value × Value → Contribution Value.Entries → Prop where
  | dropped {e : Value × Value} : extra = .strip → ExtraBrings l kind extra e (.plain id)
  | kept {e : Value × Value} :
      extra = .loose → ExtraBrings l kind extra e (.plain fun output => output ++ [e])
  | unexpected {e : Value × Value} {i : Issue} : extra = .strict →
      Gives I (ctx.report l.message (l.unexpected ctx.typeNames e.1 e.2)) i →
      kind ≠ .guarded → ExtraBrings l kind extra e (i.under e.1).contribution

/-- What a step of an object brings, on a declared key or on one that is not. -/
inductive ObjectBrings (l : Label) (kind : ObjectKind) (extra : Extra) (absent : Absent)
    (input : Value.Entries) :
    (Value × Schema) ⊕ (Value × Value) → Contribution Value.Entries → Prop where
  | declared {e : Value × Schema} {c : Contribution Value.Entries} :
      DeclaredBrings ctx I R l absent input e c → ObjectBrings l kind extra absent input (.inl e) c
  | extra {e : Value × Value} {c : Contribution Value.Entries} :
      ExtraBrings ctx I l kind extra e c → ObjectBrings l kind extra absent input (.inr e) c

/-- What becomes of a key or value of a mapping: the issue that it is not valid, or the accepted
value and whether it was replaced.  It is taken to be valid when the reason against it, which is a
message, is the signal of a valid value. -/
inductive Checked (l : Label) (messageKey : String) (key : Value) (s : Schema) (x : Value) :
    Issue ⊕ (Value × Bool) → Prop where
  | valid {d : Dataset} : R s x d → d.status = .success →
      Checked l messageKey key s x (.inr (if d.value.same x then (x, false) else (d.value, true)))
  | excused {d : Dataset} {i : Issue} {rest : List Issue} : R s x d → d.status ≠ .success →
      d.issues = i :: rest → i.message.same (.bool true) = true →
      Checked l messageKey key s x (.inr (x, false))
  | refused {d : Dataset} {i j : Issue} {rest : List Issue} : R s x d → d.status ≠ .success →
      d.issues = i :: rest → i.message.same (.bool true) = false →
      Gives I (ctx.report l.message
        (l.invalidEntry ctx.typeNames messageKey x s.expects i.message)) j →
      Checked l messageKey key s x (.inl (j.under key))

/-- What an entry of a map brings. -/
inductive MapBrings (l : Label) (key value : Schema) :
    Value × Value → Contribution Borrowed → Prop where
  | badKey {e : Value × Value} {i : Issue} :
      Checked ctx I R l "map_key" e.1 key e.1 (.inl i) →
      MapBrings l key value e i.contribution
  | badValue {e : Value × Value} {newKey : Value × Bool} {i : Issue} :
      Checked ctx I R l "map_key" e.1 key e.1 (.inr newKey) →
      Checked ctx I R l "map_value" e.1 value e.2 (.inl i) →
      MapBrings l key value e i.contribution
  | accepted {e : Value × Value} {newKey newValue : Value × Bool} :
      Checked ctx I R l "map_key" e.1 key e.1 (.inr newKey) →
      Checked ctx I R l "map_value" e.1 value e.2 (.inr newValue) →
      MapBrings l key value e (.plain fun output =>
        if newKey.2 || newValue.2 then (output.replace e.1 newKey.1 newValue.1).1 else output)

/-- What an entry of a record brings. -/
inductive RecordBrings (l : Label) (key value : Schema) :
    Value × Value → Contribution Value.Entries → Prop where
  | badKey {e : Value × Value} {i : Issue} :
      Checked ctx I R l "map_key" e.1 key e.1 (.inl i) →
      RecordBrings l key value e i.contribution
  | run {e : Value × Value} {newKey : Value × Bool} {part : Dataset} :
      Checked ctx I R l "map_key" e.1 key e.1 (.inr newKey) → R value e.2 part →
      (part.isTyped = true → part.issues = [] ∨ ctx.config.abortEarly = false →
        newKey.1.isHashable = true) →
      RecordBrings l key value e
        (part.contribution e.1 fun v (output : Value.Entries) => output.insert newKey.1 v)

/-! ### The end of a container -/

/-- The end of a map: whatever is wrong makes it fail. -/
inductive MapFinished : Progress Borrowed → Dataset → Prop where
  | stopped {d : Dataset} : d.issues ≠ [] → MapFinished (.stopped d) { d with status := .failure }
  | valid {g : Gathering Borrowed} : g.dataset.issues = [] →
      MapFinished (.going g) (g.dataset.succeed g.output.value)
  | failed {g : Gathering Borrowed} : g.dataset.issues ≠ [] →
      MapFinished (.going g) { g.dataset with status := .failure }

theorem issues_of_mapFinished {p : Progress Borrowed} {d : Dataset} (h : MapFinished p d) :
    d.issues = p.dataset.issues := by
  cases h <;> rfl

/-- The end of an intersection: the outputs of all members are merged, or something is wrong. -/
inductive Merged (l : Label) : Progress (List Value) → Dataset → Prop where
  | stopped {d : Dataset} : d.issues ≠ [] → Merged l (.stopped d) { d with status := .failure }
  | valid {g : Gathering (List Value)} {first output : Value} {rest : List Value} :
      g.typed = true → g.output = first :: rest →
      Validator.mergeAll? first rest = .ok (some output) → g.dataset.issues = [] →
      Merged l (.going g) (g.dataset.succeed output)
  | partly {g : Gathering (List Value)} {first output : Value} {rest : List Value} :
      g.typed = true → g.output = first :: rest →
      Validator.mergeAll? first rest = .ok (some output) → g.dataset.issues ≠ [] →
      Merged l (.going g) (g.dataset.succeedPartly output)
  | conflict {g : Gathering (List Value)} {first : Value} {rest : List Value} {i : Issue} :
      g.typed = true → g.output = first :: rest →
      Validator.mergeAll? first rest = .ok none →
      Gives I (ctx.report l.message (l.finding ctx.typeNames g.dataset.value)) i →
      Merged l (.going g) (g.dataset.failWith i)
  | failed {g : Gathering (List Value)} : g.typed = false ∨ g.output = [] →
      g.dataset.issues ≠ [] → Merged l (.going g) { g.dataset with status := .failure }

end

/-! ### Outcomes -/

namespace Schema

/-- The parts of a tuple: by position, and past the positions under the schema of the rest. -/
def positions : List Schema → Option Schema → Nat → List Value → List Position
  | _, _, _, [] => []
  | s :: ss, rest, i, x :: xs => ⟨.int i, x, s⟩ :: positions ss rest (i + 1) xs
  | [], some r, i, x :: xs => ⟨.int i, x, r⟩ :: positions [] (some r) (i + 1) xs
  | [], none, _, _ :: _ => []

section

variable {items : List Schema} {rest : Option Schema} {i : Nat} {xs : List Value}

/-- The parts are of the items in order, unless there are more items than schemas. -/
theorem values_of_positions (h : rest = none → xs.length ≤ items.length) :
    (positions items rest i xs).map (·.value) = xs := by
  fun_induction positions items rest i xs with
  | case1 => rfl
  | case2 rest i x xs s ss ih =>
    simp only [List.length_cons, Nat.add_le_add_iff_right] at h
    rw [List.map_cons, ih h]
  | case3 i x xs r ih => rw [List.map_cons, ih fun hnone => by cases hnone]
  | case4 i x xs => simp at h

theorem length_positions (h : rest = none → xs.length ≤ items.length) :
    (positions items rest i xs).length = xs.length := by
  rw [← List.length_map (·.value), values_of_positions h]

end

/-- The parts of a list, a tuple or a set, and what is made of their values. -/
def layout? : Schema → Value → Option (List Position × (List Value → Except Fault Value))
  | .array _ _ item, .list _ _ items =>
    some (items.mapIdx fun i v => ⟨.int i, v, item⟩, fun output => .ok (.ofList output))
  | .set _ _ item, .set _ frozen items =>
    some (items.map fun v => ⟨v, v, item⟩,
      fun output => (Value.toMembers output).map (.ofSet frozen))
  | .tuple _ items rest, x =>
    (Validator.sequence? x).map fun values =>
      (positions items rest 0 values, fun output => .ok (.ofTuple output))
  | _, _ => none

/-- The schema describes a list, a set or a tuple. -/
def isSequence : Schema → Bool
  | .array .. | .set .. | .tuple .. => true
  | _ => false

/-- The entries of a mapping whose keys are not declared. -/
def undeclared (entries : List (Value × Schema)) (input : Value.Entries) : Value.Entries :=
  input.filter fun e => !(entries.any fun d => d.1.keyEq e.1)

end Schema

/-- The value that a wrapper accepts without its schema. -/
def Wrapping.spared? (w : Wrapping) (x : Value) : Option Value :=
  match w with
  | .optional => if x.isUndefined then some x else none
  | .nullable => if x.isNull then some .null else none
  | .nullish => if x.isNull || x.isUndefined then some x else none
  | .readonly | .default _ => none

/-- The default that takes the place of a value. -/
def Wrapping.default? (w : Wrapping) (x : Value) : Option Value :=
  match w with
  | .default v => if x.isUndefined then some v else none
  | _ => none

theorem Wrapping.eq_default_of_default? {w : Wrapping} {x given : Value}
    (h : w.default? x = some given) : w = .default given := by
  cases w with
  | default v =>
    dsimp only [default?] at h
    split at h
    · exact congrArg default (Option.some.inj h)
    · cases h
  | _ => cases h

/-- A typed value has failed a test, for an issue. -/
def Dataset.violate (d : Dataset) (stop : Bool) (i : Issue) : Dataset :=
  if stop then d.failWith i else { d.add i with status := .partly }

@[simp] theorem Dataset.issues_violate (d : Dataset) (stop : Bool) (i : Issue) :
    (d.violate stop i).issues = d.issues ++ [i] := by
  cases stop <;> rfl

@[simp] theorem Dataset.value_violate (d : Dataset) (stop : Bool) (i : Issue) :
    (d.violate stop i).value = d.value := by
  cases stop <;> rfl

@[simp] theorem Dataset.status_violate (d : Dataset) (stop : Bool) (i : Issue) :
    (d.violate stop i).status = if stop then .failure else .partly := by
  cases stop <;> rfl

/-- The rules by which a schema on a value ends without a fault, given what is known of the runs
of its parts. -/
inductive Schema.Outcome (ctx : Context) (I : Found → Prop) (R : Runs) : Runs where
  | accepted {s : Schema} {j : Judgement} {x y : Value} : s.judgement? = some j →
      j ctx.typeNames x = .ok (.inl y) → Outcome ctx I R s x (.valid y)
  | rejected {s : Schema} {j : Judgement} {x : Value} {f : Finding} {i : Issue} :
      s.judgement? = some j → j ctx.typeNames x = .ok (.inr f) →
      Gives I (ctx.report s.message f) i → Outcome ctx I R s x (.invalid x i [])
  | objected {s : Schema} {x : Value} {f : Finding} {i : Issue} :
      s.objection? ctx.typeNames x = .ok (some f) → Gives I (ctx.report s.message f) i →
      Outcome ctx I R s x (.invalid x i [])
  | untyped {m : Value} {check : Check} {name : String} {abort : Bool} {inner : Schema}
      {x : Value} {d : Dataset} : R inner x d → d.isTyped = false →
      Outcome ctx I R (.constraint m check name abort inner) x d
  | passed {m : Value} {check : Check} {name : String} {abort : Bool} {inner : Schema}
      {x : Value} {d : Dataset} : R inner x d → d.isTyped = true →
      Gives I (check.test ctx d.value) true →
      Outcome ctx I R (.constraint m check name abort inner) x d
  | violated {m : Value} {check : Check} {name : String} {abort : Bool} {inner : Schema}
      {x : Value} {d : Dataset} {f : Finding} {i : Issue} : R inner x d → d.isTyped = true →
      Gives I (check.test ctx d.value) false →
      check.finding ctx.typeNames name d.value = .ok f → Gives I (ctx.report m f) i →
      Outcome ctx I R (.constraint m check name abort inner) x
        (d.violate (abort || ctx.config.abortEarly) i)
  | spared {m : Value} {w : Wrapping} {inner : Schema} {x y : Value} : w.spared? x = some y →
      Outcome ctx I R (.wrapper m w inner) x (.valid y)
  | wrapped {m : Value} {w : Wrapping} {inner : Schema} {x : Value} {d : Dataset} :
      w.spared? x = none → w.default? x = none → R inner x d →
      Outcome ctx I R (.wrapper m w inner) x d
  | supplied {m : Value} {w : Wrapping} {inner : Schema} {x v y : Value} {d : Dataset} :
      w.default? x = some v → Gives I (Validator.supply ctx v) y → R inner y d →
      Outcome ctx I R (.wrapper m w inner) x d
  | overwritten {m transform : Value} {inner : Schema} {x y : Value} {d : Dataset} :
      R inner x d → d.status = .success → Gives I (ctx.invoke transform [.value d.value]) y →
      Outcome ctx I R (.overwrite m transform inner) x { d with value := y }
  | untouched {m transform : Value} {inner : Schema} {x : Value} {d : Dataset} :
      R inner x d → d.status ≠ .success → Outcome ctx I R (.overwrite m transform inner) x d
  | behind {m : Value} {id : Nat} {getter : Getter} {t : Schema} {x : Value} {d : Dataset} :
      Gives I (ctx.force id getter) t → R t x d → Outcome ctx I R (.lazy m id getter) x d
  | sequence {s : Schema} {x : Value} {positions : List Position}
      {make : List Value → Except Fault Value} {p : Progress (List Value)} {d : Dataset} :
      s.objection? ctx.typeNames x = .ok none → s.layout? x = some (positions, make) →
      Gathering.Path ctx (PartBrings R) positions (.start (.fresh x) []) p →
      Gathering.Finished make p d → Outcome ctx I R s x d
  | object {m : Value} {id : Nat} {kind : ObjectKind} {extra : Extra} {absent : Absent}
      {entries : List (Value × Schema)} {x : Value} {input : Value.Entries}
      {p : Progress Value.Entries} {d : Dataset} : x.entries? = some input →
      Gathering.Path ctx
        (ObjectBrings ctx I R (label (.object m id kind extra absent entries)) kind extra absent
          input)
        (entries.map .inl ++ (undeclared entries input).map .inr) (.start (.fresh x) []) p →
      Gathering.Finished (fun output => .ok (.ofMapping output)) p d →
      Outcome ctx I R (.object m id kind extra absent entries) x d
  | map {m : Value} {limits : Limits} {key value : Schema} {x : Value} {input : Value.Entries}
      {p : Progress Borrowed} {d : Dataset} : x.entries? = some input →
      (Schema.map m limits key value).objection? ctx.typeNames x = .ok none →
      Gathering.Path ctx (MapBrings ctx I R (label (.map m limits key value)) key value) input
        (.start (.fresh x) ⟨x, false⟩) p →
      MapFinished p d → Outcome ctx I R (.map m limits key value) x d
  | record {m : Value} {key value : Schema} {x : Value} {input : Value.Entries}
      {p : Progress Value.Entries} {d : Dataset} : x.entries? = some input →
      Gathering.Path ctx (RecordBrings ctx I R (label (.record m key value)) key value) input
        (.start (.fresh x) []) p →
      Gathering.Finished (fun output => .ok (.ofMapping output)) p d →
      Outcome ctx I R (.record m key value) x d
  | first {m : Value} {before after : List Schema} {s : Schema} {x : Value} {d : Dataset} :
      (∀ b ∈ before, ∃ e, R b x e ∧ e.status ≠ .success) → R s x d → d.status = .success →
      Outcome ctx I R (.union m (before ++ s :: after)) x (.valid d.value)
  | noneOf {m : Value} {members : List Schema} {x : Value} {outcomes : List Dataset} {i : Issue} :
      List.Forall₂ (fun s e => R s x e ∧ e.status ≠ .success) members outcomes →
      Gives I (ctx.report m { (label (.union m members)).finding ctx.typeNames x with
        reasons := some (outcomes.flatMap (·.issues)) }) i →
      Outcome ctx I R (.union m members) x (.invalid x i [])
  | intersection {m : Value} {members : List Schema} {x : Value} {p : Progress (List Value)}
      {d : Dataset} :
      Gathering.Path ctx (MemberBrings R x) members (.start (.fresh x) []) p →
      Merged ctx I (label (.intersection m members)) p d →
      Outcome ctx I R (.intersection m members) x d

namespace Schema.Outcome

variable {ctx : Context} {I : Found → Prop} {R : Runs} {s : Schema} {x : Value} {d : Dataset}

/-! ### Which rule applies -/

theorem of_judgement {j : Judgement} (hj : s.judgement? = some j) (h : s.Outcome ctx I R x d) :
    (∃ y, j ctx.typeNames x = .ok (.inl y) ∧ d = .valid y) ∨
      ∃ f i, j ctx.typeNames x = .ok (.inr f) ∧ Gives I (ctx.report s.message f) i ∧
        d = .invalid x i [] := by
  cases h with
  | accepted hj' hverdict =>
    cases hj.symm.trans hj'
    exact .inl ⟨_, hverdict, rfl⟩
  | rejected hj' hverdict hi =>
    cases hj.symm.trans hj'
    exact .inr ⟨_, _, hverdict, hi, rfl⟩
  | objected hobjection => cases s <;> first | cases hj; done | cases hobjection
  | sequence _ hlayout => cases s <;> first | cases hj; done | cases hlayout
  | _ => cases hj

/-- A container that has something against a value as a whole says so and nothing else. -/
theorem of_objection {f : Finding} (hobjection : s.objection? ctx.typeNames x = .ok (some f))
    (h : s.Outcome ctx I R x d) :
    ∃ i, Gives I (ctx.report s.message f) i ∧ d = .invalid x i [] := by
  cases h with
  | accepted hj => cases s <;> first | cases hj; done | cases hobjection
  | rejected hj => cases s <;> first | cases hj; done | cases hobjection
  | objected hobjection' hi =>
    cases hobjection.symm.trans hobjection'
    exact ⟨_, hi, rfl⟩
  | sequence hnone => cases hobjection.symm.trans hnone
  | map _ hnone => cases hobjection.symm.trans hnone
  | object hentries => simp [objection?, Value.isMapping, hentries] at hobjection
  | record hentries => simp [objection?, Value.isMapping, hentries] at hobjection
  | _ => cases hobjection

theorem of_layout {positions : List Position} {make : List Value → Except Fault Value}
    (hnone : s.objection? ctx.typeNames x = .ok none)
    (hlayout : s.layout? x = some (positions, make)) (h : s.Outcome ctx I R x d) :
    ∃ p, Gathering.Path ctx (PartBrings R) positions (.start (.fresh x) []) p ∧
      Gathering.Finished make p d := by
  cases h with
  | accepted hj => cases s <;> first | cases hj; done | cases hlayout
  | rejected hj => cases s <;> first | cases hj; done | cases hlayout
  | objected hobjection => cases hnone.symm.trans hobjection
  | sequence _ hlayout' hp hfinished =>
    cases hlayout.symm.trans hlayout'
    exact ⟨_, hp, hfinished⟩
  | _ => cases hlayout

theorem of_constraint {m : Value} {check : Check} {name : String} {abort : Bool} {inner : Schema}
    (h : (constraint m check name abort inner).Outcome ctx I R x d) :
    ∃ e, R inner x e ∧
      ((e.isTyped = false ∧ d = e) ∨
        (e.isTyped = true ∧ Gives I (check.test ctx e.value) true ∧ d = e) ∨
        (e.isTyped = true ∧ Gives I (check.test ctx e.value) false ∧
          ∃ f i, check.finding ctx.typeNames name e.value = .ok f ∧
            Gives I (ctx.report m f) i ∧
            d = e.violate (abort || ctx.config.abortEarly) i)) := by
  cases h with
  | accepted hj => cases hj
  | rejected hj => cases hj
  | objected hobjection => cases hobjection
  | sequence _ hlayout => cases hlayout
  | untyped hrun htyped => exact ⟨_, hrun, .inl ⟨htyped, rfl⟩⟩
  | passed hrun htyped hpassed => exact ⟨_, hrun, .inr (.inl ⟨htyped, hpassed, rfl⟩)⟩
  | violated hrun htyped hfailed hfinding hi =>
    exact ⟨_, hrun, .inr (.inr ⟨htyped, hfailed, _, _, hfinding, hi, rfl⟩)⟩

theorem of_wrapper {m : Value} {w : Wrapping} {inner : Schema}
    (h : (wrapper m w inner).Outcome ctx I R x d) :
    (∃ y, w.spared? x = some y ∧ d = .valid y) ∨
      (w.spared? x = none ∧ w.default? x = none ∧ R inner x d) ∨
      ∃ v y, w.default? x = some v ∧ Gives I (Validator.supply ctx v) y ∧ R inner y d := by
  cases h with
  | accepted hj => cases hj
  | rejected hj => cases hj
  | objected hobjection => cases hobjection
  | sequence _ hlayout => cases hlayout
  | spared hspared => exact .inl ⟨_, hspared, rfl⟩
  | wrapped hspared hdefault hrun => exact .inr (.inl ⟨hspared, hdefault, hrun⟩)
  | supplied hdefault hy hrun => exact .inr (.inr ⟨_, _, hdefault, hy, hrun⟩)

theorem of_overwrite {m transform : Value} {inner : Schema}
    (h : (overwrite m transform inner).Outcome ctx I R x d) :
    ∃ e, R inner x e ∧
      ((e.status = .success ∧ ∃ y, Gives I (ctx.invoke transform [.value e.value]) y ∧
          d = { e with value := y }) ∨
        (e.status ≠ .success ∧ d = e)) := by
  cases h with
  | accepted hj => cases hj
  | rejected hj => cases hj
  | objected hobjection => cases hobjection
  | sequence _ hlayout => cases hlayout
  | overwritten hrun hstatus hy => exact ⟨_, hrun, .inl ⟨hstatus, _, hy, rfl⟩⟩
  | untouched hrun hstatus => exact ⟨_, hrun, .inr ⟨hstatus, rfl⟩⟩

theorem of_lazy {m : Value} {id : Nat} {getter : Getter}
    (h : (lazy m id getter).Outcome ctx I R x d) :
    ∃ t, Gives I (ctx.force id getter) t ∧ R t x d := by
  cases h with
  | accepted hj => cases hj
  | rejected hj => cases hj
  | objected hobjection => cases hobjection
  | sequence _ hlayout => cases hlayout
  | behind ht hrun => exact ⟨_, ht, hrun⟩

theorem of_object {m : Value} {id : Nat} {kind : ObjectKind} {extra : Extra} {absent : Absent}
    {entries : List (Value × Schema)} {input : Value.Entries} (hx : x.entries? = some input)
    (h : (Schema.object m id kind extra absent entries).Outcome ctx I R x d) :
    ∃ p, Gathering.Path ctx
        (ObjectBrings ctx I R (label (.object m id kind extra absent entries)) kind extra absent
          input)
        (entries.map .inl ++ (undeclared entries input).map .inr) (.start (.fresh x) []) p ∧
      Gathering.Finished (fun output => .ok (.ofMapping output)) p d := by
  cases h with
  | accepted hj => cases hj
  | rejected hj => cases hj
  | objected hobjection => simp [objection?, Value.isMapping, hx] at hobjection
  | sequence _ hlayout => cases hlayout
  | object hx' hp hfinished =>
    cases hx.symm.trans hx'
    exact ⟨_, hp, hfinished⟩

theorem of_map {m : Value} {limits : Limits} {key value : Schema} {input : Value.Entries}
    (hx : x.entries? = some input)
    (hnone : (Schema.map m limits key value).objection? ctx.typeNames x = .ok none)
    (h : (Schema.map m limits key value).Outcome ctx I R x d) :
    ∃ p, Gathering.Path ctx (MapBrings ctx I R (label (.map m limits key value)) key value) input
        (.start (.fresh x) ⟨x, false⟩) p ∧ MapFinished p d := by
  cases h with
  | accepted hj => cases hj
  | rejected hj => cases hj
  | objected hobjection => cases hnone.symm.trans hobjection
  | sequence _ hlayout => cases hlayout
  | map hx' _ hp hfinished =>
    cases hx.symm.trans hx'
    exact ⟨_, hp, hfinished⟩

theorem of_record {m : Value} {key value : Schema} {input : Value.Entries}
    (hx : x.entries? = some input) (h : (Schema.record m key value).Outcome ctx I R x d) :
    ∃ p, Gathering.Path ctx (RecordBrings ctx I R (label (.record m key value)) key value) input
        (.start (.fresh x) []) p ∧
      Gathering.Finished (fun output => .ok (.ofMapping output)) p d := by
  cases h with
  | accepted hj => cases hj
  | rejected hj => cases hj
  | objected hobjection => simp [objection?, Value.isMapping, hx] at hobjection
  | sequence _ hlayout => cases hlayout
  | record hx' hp hfinished =>
    cases hx.symm.trans hx'
    exact ⟨_, hp, hfinished⟩

theorem of_union {m : Value} {members : List Schema} (h : (union m members).Outcome ctx I R x d) :
    (∃ before s after e, members = before ++ s :: after ∧
        (∀ b ∈ before, ∃ e, R b x e ∧ e.status ≠ .success) ∧ R s x e ∧ e.status = .success ∧
        d = .valid e.value) ∨
      ∃ outcomes i, List.Forall₂ (fun s e => R s x e ∧ e.status ≠ .success) members outcomes ∧
        Gives I (ctx.report m { (label (.union m members)).finding ctx.typeNames x with
          reasons := some (outcomes.flatMap (·.issues)) }) i ∧ d = .invalid x i [] := by
  cases h with
  | accepted hj => cases hj
  | rejected hj => cases hj
  | objected hobjection => cases hobjection
  | sequence _ hlayout => cases hlayout
  | first hbefore hrun hstatus => exact .inl ⟨_, _, _, _, rfl, hbefore, hrun, hstatus, rfl⟩
  | noneOf houtcomes hi => exact .inr ⟨_, _, houtcomes, hi, rfl⟩

theorem of_intersection {m : Value} {members : List Schema}
    (h : (Schema.intersection m members).Outcome ctx I R x d) :
    ∃ p, Gathering.Path ctx (MemberBrings R x) members (.start (.fresh x) []) p ∧
      Merged ctx I (label (.intersection m members)) p d := by
  cases h with
  | accepted hj => cases hj
  | rejected hj => cases hj
  | objected hobjection => cases hobjection
  | sequence _ hlayout => cases hlayout
  | intersection hp hmerged => exact ⟨_, hp, hmerged⟩

/-- When no member of a union has succeeded, every one of them has been run. -/
theorem exists_run_of_mem {members : List Schema} {outcomes : List Dataset}
    (h : List.Forall₂ (fun s e => R s x e ∧ e.status ≠ .success) members outcomes)
    (hs : s ∈ members) : ∃ e, R s x e ∧ e.status ≠ .success := by
  induction h with
  | nil => cases hs
  | cons hrun _ ih =>
    rcases List.mem_cons.mp hs with rfl | hs
    · exact ⟨_, hrun⟩
    · exact ih hs

/-- Every outcome of a union's members is that of some member. -/
theorem exists_member_of_mem {members : List Schema} {outcomes : List Dataset}
    (h : List.Forall₂ (fun s e => R s x e ∧ e.status ≠ .success) members outcomes)
    (hd : d ∈ outcomes) : ∃ s ∈ members, R s x d := by
  induction h with
  | nil => cases hd
  | @cons s e rest outcomes hrun _ ih =>
    rcases List.mem_cons.mp hd with rfl | hd
    · exact ⟨s, List.mem_cons_self, hrun.1⟩
    · obtain ⟨t, ht, hrun⟩ := ih hd
      exact ⟨t, List.mem_cons_of_mem s ht, hrun⟩

/-- The issues of an intersection are those of its members, and that their outputs disagree. -/
theorem issue_of_merged {l : Label} {p : Progress (List Value)} (h : Merged ctx I l p d)
    {i : Issue} (hi : i ∈ d.issues) :
    i ∈ p.dataset.issues ∨
      Gives I (ctx.report l.message (l.finding ctx.typeNames p.dataset.value)) i := by
  cases h with
  | conflict _ _ _ hj =>
    rcases List.mem_append.mp hi with hi | hi
    · exact .inl hi
    · obtain rfl := List.mem_singleton.mp hi
      exact .inr hj
  | _ => exact .inl hi

end Schema.Outcome

end Conform
