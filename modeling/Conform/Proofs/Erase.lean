/-
  Conform/Proofs/Erase.lean
  =========================
  **Erasing constraints.**  A schema without the constraints that a run of it
  tests itself (`Schema.erase`): they are gone wherever a typed part makes a typed
  whole.  The members of a union, the keys and values of a map and the keys of a
  record are only asked whether they succeed, so these stay as they are.

  What is left of the issues of a run when those of the erased constraints are
  taken out is said by the rules by which the run has come to them
  (`Schema.Sheds`); one of the rules takes an issue out, and it is the rule for a
  constraint that is violated.
-/
import Conform.Proofs.Inversion

namespace Conform

namespace Schema

/-! ### Erased schemas -/

mutual

/-- The schema without the constraints that a run of it tests itself. -/
def erase : Schema → Schema
  | .constraint _ _ _ _ inner => inner.erase
  | .wrapper m w inner => .wrapper m w inner.erase
  | .object m id kind extra absent entries => .object m id kind extra absent (eraseEntries entries)
  | .array m limits item => .array m limits item.erase
  | .set m limits item => .set m limits item.erase
  | .tuple m items rest =>
    .tuple m (eraseAll items)
      (match rest with
        | some r => some r.erase
        | none => none)
  | .record m key value => .record m key value.erase
  | .intersection m members => .intersection m (eraseAll members)
  | s => s
termination_by structural s => s

/-- Schemas without constraints. -/
def eraseAll : List Schema → List Schema
  | [] => []
  | s :: rest => s.erase :: eraseAll rest
termination_by structural ss => ss

/-- Declared keys without constraints. -/
def eraseEntries : List (Value × Schema) → List (Value × Schema)
  | [] => []
  | (key, s) :: rest => (key, s.erase) :: eraseEntries rest
termination_by structural es => es

end

/-- The parts that are erased too. -/
def exposed : Schema → List Schema
  | .constraint _ _ _ _ inner | .wrapper _ _ inner => [inner]
  | .object _ _ _ _ _ entries => entries.map (·.2)
  | .array _ _ item | .set _ _ item => [item]
  | .tuple _ items rest => items ++ rest.toList
  | .record _ _ value => [value]
  | .intersection _ members => members
  | _ => []

/-- A part of a schema, at any depth, that is erased with it. -/
inductive Exposed (t : Schema) : Schema → Prop where
  | self : Exposed t t
  | inside {c s : Schema} : c ∈ s.exposed → Exposed t c → Exposed t s

/-- The schema is a constraint that ends the validation when it is violated. -/
def aborts : Schema → Bool
  | .constraint _ _ _ abort _ => abort
  | _ => false

/-- The schema is a constraint. -/
def isConstraint : Schema → Bool
  | .constraint .. => true
  | _ => false

theorem mem_children_of_exposed {s c : Schema} (h : c ∈ s.exposed) : c ∈ s.children := by
  cases s with
  | record m key value => exact List.mem_cons_of_mem _ h
  | _ => first | exact h | cases h

theorem eraseAll_eq_map (ss : List Schema) : eraseAll ss = ss.map erase := by
  induction ss with
  | nil => rfl
  | cons s rest ih => rw [eraseAll, ih, List.map_cons]

theorem eraseEntries_eq_map (es : List (Value × Schema)) :
    eraseEntries es = es.map fun e => (e.1, e.2.erase) := by
  induction es with
  | nil => rfl
  | cons e rest ih => rw [eraseEntries, ih, List.map_cons]

theorem erase_tuple (m : Value) (items : List Schema) (rest : Option Schema) :
    (tuple m items rest).erase = .tuple m (items.map erase) (rest.map erase) := by
  cases rest <;> simp only [erase, eraseAll_eq_map, Option.map]

theorem erase_of_exposed_nil {s : Schema} (hs : s.isConstraint = false) (h : s.exposed = []) :
    s.erase = s := by
  cases s with
  | object m id kind extra absent entries =>
    rw [List.map_eq_nil_iff.mp h]
    rfl
  | tuple m items rest =>
    obtain ⟨hitems, hrest⟩ := List.append_eq_nil_iff.mp h
    rw [hitems, Option.toList_eq_nil_iff.mp hrest]
    rfl
  | intersection m members =>
    rw [show members = [] from h]
    rfl
  | constraint => cases hs
  | _ => first | rfl | cases h

theorem expectsAll_eq_map (ss : List Schema) : expectsAll ss = ss.map expects := by
  induction ss with
  | nil => rfl
  | cons s rest ih => rw [expectsAll, ih, List.map_cons]

/-- What is expected stays the same. -/
theorem expects_erase (s : Schema) : s.erase.expects = s.expects := by
  induction s with
  | constraint m check name abort inner ih => exact ih
  | wrapper m w inner ih => simp only [erase, expects, ih]
  | array m limits item ih => simp only [erase, expects, ih]
  | set m limits item ih => simp only [erase, expects, ih]
  | tuple m items rest ihItems ihRest =>
    have hitems : expectsAll (items.map erase) = expectsAll items := by
      rw [expectsAll_eq_map, expectsAll_eq_map, List.map_map]
      exact List.map_congr_left ihItems
    cases rest with
    | none => simp only [erase_tuple, expects, hitems, Option.map_none]
    | some r => simp only [erase_tuple, expects, hitems, Option.map_some, ihRest r rfl]
  | record m key value ihKey ihValue => simp only [erase, expects, ihValue]
  | intersection m members ih =>
    have hmembers : expectsAll (members.map erase) = expectsAll members := by
      rw [expectsAll_eq_map, expectsAll_eq_map, List.map_map]
      exact List.map_congr_left ih
    simp only [erase, expects, eraseAll_eq_map, hmembers]
  | _ => rfl

/-- All schemas but constraints report as before. -/
theorem label_erase {s : Schema} (h : s.isConstraint = false) : s.erase.label = s.label := by
  cases s with
  | constraint => cases h
  | array m limits item => simp only [label, ← expects_erase (.array m limits item)]; rfl
  | set m limits item => simp only [label, ← expects_erase (.set m limits item)]; rfl
  | tuple m items rest =>
    have hexpects := expects_erase (.tuple m items rest)
    rw [erase_tuple] at hexpects ⊢
    simp only [label, hexpects]
    rfl
  | record m key value => simp only [label, ← expects_erase (.record m key value)]; rfl
  | intersection m members =>
    simp only [label, ← expects_erase (.intersection m members)]; rfl
  | wrapper m w inner => simp only [label, ← expects_erase (.wrapper m w inner)]; rfl
  | _ => rfl

theorem objection?_erase {s : Schema} (h : s.isConstraint = false) (names : TypeNames) (x : Value) :
    s.erase.objection? names x = s.objection? names x := by
  have hlabel := label_erase h
  cases s with
  | constraint => cases h
  | array m limits item =>
    rw [erase] at hlabel ⊢
    simp only [objection?, hlabel]
  | set m limits item =>
    rw [erase] at hlabel ⊢
    simp only [objection?, hlabel]
  | tuple m items rest =>
    rw [erase_tuple] at hlabel ⊢
    simp only [objection?, hlabel, List.length_map, Option.isNone_map, Option.isSome_map]
  | record m key value =>
    rw [erase] at hlabel ⊢
    simp only [objection?, hlabel]
  | _ => rfl

end Schema

/-- The position under the erased schema. -/
def Position.erase (p : Position) : Position :=
  { p with schema := p.schema.erase }

namespace Schema

theorem positions_erase (items : List Schema) (rest : Option Schema) (i : Nat) (xs : List Value) :
    positions (items.map erase) (rest.map erase) i xs =
      (positions items rest i xs).map Position.erase := by
  fun_induction positions items rest i xs with
  | case1 => simp [positions]
  | case2 rest i x xs s ss ih =>
    simp only [List.map_cons, positions, ih]
    rfl
  | case3 i x xs r ih =>
    simp only [List.map_nil, Option.map_some] at ih
    simp only [List.map_nil, Option.map_some, positions, ih, List.map_cons]
    rfl
  | case4 => simp [positions]

/-- The parts stay where they are. -/
theorem layout?_erase {s : Schema} {x : Value} {positions : List Position}
    {make : List Value → Except Fault Value} (h : s.layout? x = some (positions, make)) :
    s.erase.layout? x = some (positions.map Position.erase, make) := by
  unfold layout? at h
  split at h
  · cases h
    simp only [erase, layout?, List.mapIdx_eq_zipIdx_map, List.map_map]
    rfl
  · cases h
    simp only [erase, layout?, List.map_map]
    rfl
  · next m items rest =>
    obtain ⟨values, hvalues, heq⟩ := Option.map_eq_some_iff.mp h
    cases heq
    rw [erase_tuple]
    simp only [layout?, hvalues, Option.map_some, positions_erase]
  · cases h

theorem undeclared_erase (entries : List (Value × Schema)) (input : Value.Entries) :
    undeclared (entries.map fun e => (e.1, e.2.erase)) input = undeclared entries input := by
  simp only [undeclared, List.any_map]
  rfl

end Schema

/-! ### What is left of the issues of a run -/

/-- What parts have come to, and the issues that are left of it. -/
abbrev Leavings := Schema → Value → Dataset → List Issue → Prop

/-- What one step of a container adds to its issues, and what is left of that. -/
structure Turn where
  issues : List Issue
  left : List Issue

/-- What a part adds, under its key. -/
def Turn.part (key : Value) (d : Dataset) (left : List Issue) : Turn :=
  ⟨d.issues.map (·.under key), left.map (·.under key)⟩

/-- What the container itself reports stays. -/
def Turn.own (issues : List Issue) : Turn := ⟨issues, issues⟩

section

variable (ctx : Context) (L : Leavings)

/-- The turn of a part of a list, a tuple or a set. -/
inductive PositionTurn : Position → Turn → Prop where
  | run {p : Position} {d : Dataset} {left : List Issue} : L p.schema p.value d left →
      PositionTurn p (.part p.key d left)

/-- The turn of a member of an intersection. -/
inductive MemberTurn (x : Value) : Schema → Turn → Prop where
  | run {s : Schema} {d : Dataset} {left : List Issue} : L s x d left →
      MemberTurn x s ⟨d.issues, left⟩

/-- The turn of a declared key, or of one that is not declared. -/
inductive ObjectTurn (l : Label) (kind : ObjectKind) (extra : Extra) (absent : Absent)
    (input : Value.Entries) : (Value × Schema) ⊕ (Value × Value) → Turn → Prop where
  | present {e : Value × Schema} {v : Value} {d : Dataset} {left : List Issue} :
      input.get? e.1 = some v → L e.2 v d left →
      ObjectTurn l kind extra absent input (.inl e) (.part e.1 d left)
  | validated {e : Value × Schema} {d : Dataset} {left : List Issue} :
      input.get? e.1 = none → absent = .validate → L e.2 .undefined d left →
      ObjectTurn l kind extra absent input (.inl e) (.part e.1 d left)
  | own {step : (Value × Schema) ⊕ (Value × Value)} {c : Contribution Value.Entries} :
      ObjectBrings ctx (fun _ => True) (fun _ _ _ => False) l kind extra absent input step c →
      ObjectTurn l kind extra absent input step (.own c.issues)

/-- The turn of an entry of a record. -/
inductive RecordTurn (l : Label) (key value : Schema) : Value × Value → Turn → Prop where
  | badKey {e : Value × Value} {i : Issue} :
      Checked ctx (fun _ => True) (ctx.Yields fun _ => True) l "map_key" e.1 key e.1 (.inl i) →
      RecordTurn l key value e (.own [i])
  | run {e : Value × Value} {newKey : Value × Bool} {d : Dataset} {left : List Issue} :
      Checked ctx (fun _ => True) (ctx.Yields fun _ => True) l "map_key" e.1 key e.1
        (.inr newKey) →
      L value e.2 d left → RecordTurn l key value e (.part e.1 d left)

/-- What is left of the issues of a run, given what is left of those of its parts. -/
inductive Schema.ShedsBy : Leavings where
  | whole {s : Schema} {x : Value} {d : Dataset} : s.exposed = [] → ShedsBy s x d d.issues
  | alone {s : Schema} {x : Value} {d : Dataset} :
      s.Outcome ctx (fun _ => True) (fun _ _ _ => False) x d → ShedsBy s x d d.issues
  | passed {m : Value} {check : Check} {name : String} {abort : Bool} {inner : Schema} {x : Value}
      {d : Dataset} {left : List Issue} : L inner x d left →
      (d.isTyped = true → Gives (fun _ => True) (check.test ctx d.value) true) →
      ShedsBy (.constraint m check name abort inner) x d left
  | violated {m : Value} {check : Check} {name : String} {abort : Bool} {inner : Schema}
      {x : Value} {d : Dataset} {left : List Issue} {f : Finding} {i : Issue} :
      L inner x d left → d.isTyped = true →
      Gives (fun _ => True) (check.test ctx d.value) false →
      check.finding ctx.typeNames name d.value = .ok f →
      Gives (fun _ => True) (ctx.report m f) i →
      ShedsBy (.constraint m check name abort inner) x
        (d.violate (abort || ctx.config.abortEarly) i) left
  | wrapped {m : Value} {w : Wrapping} {inner : Schema} {x : Value} {d : Dataset}
      {left : List Issue} : w.spared? x = none → w.default? x = none → L inner x d left →
      ShedsBy (.wrapper m w inner) x d left
  | supplied {m : Value} {w : Wrapping} {inner : Schema} {x v y : Value} {d : Dataset}
      {left : List Issue} : w.default? x = some v →
      Gives (fun _ => True) (Validator.supply ctx v) y → L inner y d left →
      ShedsBy (.wrapper m w inner) x d left
  | sequence {s : Schema} {x : Value} {d : Dataset} {positions : List Position}
      {make : List Value → Except Fault Value} {turns : List Turn} :
      s.layout? x = some (positions, make) → List.Forall₂ (PositionTurn L) positions turns →
      d.issues = turns.flatMap (·.issues) → ShedsBy s x d (turns.flatMap (·.left))
  | object {m : Value} {id : Nat} {kind : ObjectKind} {extra : Extra} {absent : Absent}
      {entries : List (Value × Schema)} {x : Value} {d : Dataset} {input : Value.Entries}
      {turns : List Turn} : x.entries? = some input →
      List.Forall₂ (ObjectTurn ctx L (Schema.object m id kind extra absent entries).label kind extra
        absent input) (entries.map .inl ++ (Schema.undeclared entries input).map .inr) turns →
      d.issues = turns.flatMap (·.issues) →
      ShedsBy (.object m id kind extra absent entries) x d (turns.flatMap (·.left))
  | record {m : Value} {key value : Schema} {x : Value} {d : Dataset} {input : Value.Entries}
      {turns : List Turn} : x.entries? = some input →
      List.Forall₂ (RecordTurn ctx L (Schema.record m key value).label key value) input turns →
      d.issues = turns.flatMap (·.issues) →
      ShedsBy (.record m key value) x d (turns.flatMap (·.left))
  | agreed {m : Value} {members : List Schema} {x : Value} {d : Dataset} {turns : List Turn} :
      List.Forall₂ (MemberTurn L x) members turns → d.issues = turns.flatMap (·.issues) →
      ShedsBy (.intersection m members) x d (turns.flatMap (·.left))
  | conflict {m : Value} {members : List Schema} {x : Value} {d : Dataset} {turns : List Turn}
      {i : Issue} : List.Forall₂ (MemberTurn L x) members turns →
      Gives (fun _ => True) (ctx.report m
        ((Schema.intersection m members).label.finding ctx.typeNames x)) i →
      d.issues = turns.flatMap (·.issues) ++ [i] →
      ShedsBy (.intersection m members) x d (turns.flatMap (·.left) ++ [i])

/-- What is left of the issues of a run that has come to a dataset when those that erased
constraints have reported are taken out. -/
inductive Schema.Sheds : Leavings where
  | intro {s : Schema} {x : Value} {d : Dataset} {left : List Issue} (parts : Leavings) :
      s.ShedsBy ctx parts x d left →
      (∀ c y e rest, parts c y e rest → ctx.Yields (fun _ => True) c y e) →
      (∀ c y e rest, parts c y e rest → Schema.Sheds c y e rest) → Schema.Sheds s x d left

end

end Conform
