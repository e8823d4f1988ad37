/-
  Conform/Proofs/Suitability.lean
  ===============================
  **Schemas that suit data.**  Four things can end in a fault although a schema
  is well built and runs no code of a caller (`Schema.Suits`): a constraint that
  does not suit a value of the shape that its schema describes
  (`Schema.Admits`, `Check.Suits`), a literal that refuses to be compared with a
  value of its type, a format for moments that is no pattern, and a limit that
  has no text.

  Where none of them is met, tests, conversions and findings on a value as a
  whole always come to something, and a finding can be put into words.
-/
import Conform.Proofs.Outcome
import Conform.Proofs.Wording

namespace Conform

/-! ### Shapes -/

/-- The values that may come out of a schema, as far as their shape goes. -/
inductive Schema.Admits : Schema → Value → Prop where
  | primitive {m : Value} {p : Primitive} {y : Value} :
      p.accepts y = true → Admits (.primitive m p) y
  | anything {m : Value} {unknown : Bool} {y : Value} : Admits (.anything m unknown) y
  | coerce {m : Value} {t : Target} {y : Value} : t.accepts y = true → Admits (.coerce m t) y
  | literal {m v : Value} {expects : String} {y : Value} :
      y.strictEq v = .ok true → Admits (.literal m v expects) y
  | enum {m : Value} {keys : Bool} {values : List Value} {expects : String} {y : Value} :
      Validator.amongStrictly y values = .ok true → Admits (.enum m keys values expects) y
  | nativeEnum {m : Value} {e : Enumeration} {y : Value} :
      Validator.belongs e y = .ok true → Admits (.nativeEnum m e) y
  | constraint {m : Value} {check : Check} {name : String} {abort : Bool} {inner : Schema}
      {y : Value} : Admits inner y → Admits (.constraint m check name abort inner) y
  | wrapper {m : Value} {w : Wrapping} {inner : Schema} {y : Value} :
      Admits inner y → Admits (.wrapper m w inner) y
  | spared {m : Value} {w : Wrapping} {inner : Schema} {x y : Value} :
      w.spared? x = some y → Admits (.wrapper m w inner) y
  | object {m : Value} {id : Nat} {kind : ObjectKind} {extra : Extra} {absent : Absent}
      {entries : List (Value × Schema)} {y : Value} :
      y.isMapping = true → Admits (.object m id kind extra absent entries) y
  | array {m : Value} {limits : Limits} {item : Schema} {ys : List Value} :
      Admits (.array m limits item) (.ofList ys)
  | set {m : Value} {limits : Limits} {item : Schema} {frozen : Bool} {ys : List Value} :
      Admits (.set m limits item) (.ofSet frozen ys)
  | tuple {m : Value} {items : List Schema} {rest : Option Schema} {ys : List Value} :
      Admits (.tuple m items rest) (.ofTuple ys)
  | map {m : Value} {limits : Limits} {key value : Schema} {y : Value} :
      y.isMapping = true → Admits (.map m limits key value) y
  | record {m : Value} {key value : Schema} {y : Value} :
      y.isMapping = true → Admits (.record m key value) y
  | union {m : Value} {members : List Schema} {t : Schema} {y : Value} :
      t ∈ members → Admits t y → Admits (.union m members) y
  | intersection {m : Value} {members : List Schema} {t : Schema} {y : Value} :
      t ∈ members → Admits t y → Admits (.intersection m members) y
  | merged {m : Value} {members : List Schema} {y : Value} :
      y.isMapping = true → Admits (.intersection m members) y

/-! ### What can fail -/

/-- A date format can be applied to the value. -/
def Value.takesDate : Value → Bool
  | .scalar _ (.date _) | .scalar _ (.time _) | .scalar _ (.dateTime _) => true
  | _ => false

/-- A constraint has an answer for a value, and words for it if the answer is no.

An order must not be asked of "not a number" and a decimal.  A moment that is out of bounds is
reported with the bound as a date; any other value that fails a comparison is shown itself. -/
def Check.Suits (check : Check) (y : Value) : Prop :=
  match check with
  | .pattern regex _ => y.toStr?.isSome = true → regex.bytes = none
  | .order relation limit =>
    y.Clear limit ∧ (y.relate relation limit = .ok true ∨
      if y.toDateTime?.isSome then limit.takesDate = true else y.Legible)
  | .multipleOf divisor => (y.isNumber && isMultiple y divisor) = true ∨ y.Legible
  | .positive => y.sign? = some .gt ∨ y.Legible
  | .negative => y.sign? = some .lt ∨ y.Legible
  | _ => True

namespace Schema

/-- What building a schema has made sure of. -/
def IsBuilt : Schema → Prop
  | .constraint _ check name _ _ => check.name = .ok name
  | .object _ _ _ _ _ entries => ∀ e ∈ entries, e.1.Legible
  | .array _ limits _ | .set _ limits _ | .map _ limits _ _ =>
    ∀ limit, limit ∈ limits.least ∨ limit ∈ limits.most →
      limit.requirement.toInt? = some (limit.count : Int)
  | .intersection _ members => 2 ≤ members.length
  | _ => True

/-- The schema runs no code of a caller: it calls nothing, follows no reference, and asks no object
for its text. -/
def IsPlain (s : Schema) : Prop :=
  s.message.isOptionalText = true ∧
  match s with
  | .constraint _ (.refine _) _ _ _ => False
  | .constraint _ check _ _ _ => check.requirement.isObject = false
  | .wrapper _ (.default v) _ => v.isCallable = false
  | .overwrite .. | .lazy .. => False
  | .object _ _ kind _ _ _ => kind ≠ .guarded
  | _ => True

/-- The parameters of a schema suit values that are made of scalars of some kinds. -/
def Suits (P : Scalar → Prop) : Schema → Prop
  | .coerce _ t => t.ReadsFormats ∧ ∀ x y : Value, x.isUndefined = true ∨ x.Every P →
      t.convert x = .ok y → t.accepts y = true → y.Every P
  | .literal _ v _ => v.Legible ∧ ∀ y : Value, y.Every P → y.typeOf = v.typeOf → y.Level v
  | .enum _ _ values _ => ∀ v ∈ values, ∀ y : Value, y.Every P → y.typeOf = v.typeOf → y.Level v
  | .constraint _ check _ _ inner => ∀ y : Value, y.Every P → inner.Admits y → check.Suits y
  | .wrapper _ (.default v) _ => v.Data P
  | .object _ _ _ _ _ entries => ∀ e ∈ entries, e.1.Every P
  | .array _ limits _ | .set _ limits _ | .map _ limits _ _ =>
    ∀ limit, limit ∈ limits.least ∨ limit ∈ limits.most → limit.requirement.Legible
  | .tuple _ items _ => items.length < Number.tenPow Number.digitLimit
  | .intersection _ members => ∀ s ∈ members.head?, ∀ t ∈ members.tail, ∀ y z : Value,
      y.Every P → z.Every P → s.Admits y → t.Admits z → y.typeOf = z.typeOf → y.Level z
  | _ => True

end Schema

/-! ### What a run comes to -/

/-- A value to be validated: data, or the absence of a value. -/
def Value.Fit (P : Scalar → Prop) (x : Value) : Prop := x.isUndefined = true ∨ x.Data P

/-- What becomes of a value is made of the same scalars, and it can be a key if the value can. -/
structure Value.Carries (P : Scalar → Prop) (x y : Value) : Prop where
  every : y.Every P ∨ (x.isUndefined = true ∧ y.isUndefined = true)
  hashable : x.isUndefined = false → x.isHashable = true → y.isHashable = true

/-- A dataset with issues that can be shown, at least one if it is not valid, and with a value that
has a property if it is typed. -/
structure Dataset.Fits (A : Value → Prop) (d : Dataset) : Prop where
  shown : ∀ i ∈ d.issues, i.Shown
  failed : d.status ≠ .success → d.issues ≠ []
  typed : d.isTyped = true → A d.value

/-- A validator comes to a dataset that fits. -/
def Validator.Total (v : Validator) (ctx : Context) (P : Scalar → Prop) (A : Value → Prop) :
    Prop :=
  ∀ x, x.Fit P → Returns (v ctx (.fresh x)) (Dataset.Fits fun y => A y ∧ x.Carries P y)

theorem Dataset.Fits.mono {A B : Value → Prop} {d : Dataset} (h : d.Fits A)
    (hAB : ∀ y, A y → B y) : d.Fits B :=
  ⟨h.shown, h.failed, fun htyped => hAB _ (h.typed htyped)⟩

theorem Dataset.fits_valid {A : Value → Prop} {y : Value} (h : A y) : (Dataset.valid y).Fits A :=
  ⟨fun _ hi => (by cases hi), fun hstatus => (hstatus rfl).elim, fun _ => h⟩

theorem Dataset.fits_failWith {A : Value → Prop} {d : Dataset} {i : Issue}
    (hd : ∀ j ∈ d.issues, j.Shown) (hi : i.Shown) : (d.failWith i).Fits A := by
  refine ⟨fun j hj => ?_, fun _ => ?_, fun htyped => by cases htyped⟩
  · rcases List.mem_append.mp hj with hj | hj
    · exact hd j hj
    · rwa [List.mem_singleton.mp hj]
  · simp

theorem Value.Data.isUndefined {P : Scalar → Prop} (hP : ∀ s, P s → s.IsData = true) {x : Value}
    (h : x.Data P) : x.isUndefined = false := by
  cases h with
  | @scalar id s hs => cases s <;> first | rfl | cases hP _ hs
  | _ => rfl

theorem Value.Every.isObject {P : Scalar → Prop} (hP : ∀ s, P s → s.IsData = true) {x : Value}
    (h : x.Every P) : x.isObject = false := by
  cases h with
  | @scalar id s hs => cases s <;> first | rfl | cases hP _ hs
  | _ => rfl

theorem Value.Fit.isObject {P : Scalar → Prop} (hP : ∀ s, P s → s.IsData = true) {x : Value}
    (h : x.Fit P) : x.isObject = false := by
  rcases h with h | h
  · cases x with
    | scalar id s => cases s <;> first | rfl | cases h
    | _ => rfl
  · exact h.every.isObject hP

/-- A value carries itself. -/
theorem Value.Fit.carries {P : Scalar → Prop} {x : Value} (h : x.Fit P) : x.Carries P x :=
  ⟨h.symm.imp Data.every fun hx => ⟨hx, hx⟩, fun _ hx => hx⟩

/-- A comparison with the absence of a value is no comparison of numbers. -/
theorem Value.every_of_isUndefined {x : Value} (h : x.isUndefined = true) {Q : Scalar → Prop}
    (hQ : Q .undefined) : x.Every Q := by
  cases x with
  | scalar id s =>
    cases s with
    | undefined => exact .scalar hQ
    | _ => cases h
  | _ => cases h

/-! ### Words -/

/-- The parameter of a constraint that has a name has a text. -/
theorem Check.exists_requirement {check : Check} {name : String}
    (hplain : ∀ p, check ≠ .refine p) (hpattern : ∀ regex program, check ≠ .pattern regex program)
    (hname : check.name = .ok name) (hobject : check.requirement.isObject = false) :
    ∃ t, check.requirement.text = .ok t := by
  have named (h : (if check.requirement.isNull then .ok check.type
      else check.requirement.quoted.map fun s => check.type ++ "(" ++ s ++ ")") = .ok name) :
      ∃ t, check.requirement.text = .ok t := by
    split at h
    · next hnull =>
      cases hvalue : check.requirement with
      | scalar id s =>
        rw [hvalue] at hnull
        cases s with
        | null => exact ⟨_, rfl⟩
        | _ => cases hnull
      | _ =>
        rw [hvalue] at hnull
        cases hnull
    · rcases hquoted : check.requirement.quoted with f | t
      · rw [hquoted] at h
        cases h
      · exact Value.exists_text ⟨t, hquoted⟩ hobject
  cases check with
  | refine p => exact (hplain p rfl).elim
  | pattern regex program => exact (hpattern _ _ rfl).elim
  | _ => exact named hname

/-- What a failed constraint has found can be put into words. -/
theorem Check.worded {check : Check} {names : TypeNames} {name : String} {y : Value}
    (hplain : ∀ p, check ≠ .refine p) (hname : check.name = .ok name)
    (hobject : check.requirement.isObject = false)
    (hdate : ∀ relation limit, check = .order relation limit → y.toDateTime?.isSome = true →
      limit.takesDate = true)
    {f : Finding} (hf : check.finding names name y = .ok f) : f.Worded := by
  have htext := fun hpattern => exists_requirement hplain hpattern hname hobject
  unfold finding at hf
  rcases hreceived : check.received names y with e | received
  · rw [hreceived] at hf
    cases hf
  · rw [hreceived] at hf
    cases hf
    cases check with
    | refine p => exact (hplain p rfl).elim
    | size bound limit requirement =>
      simp only [messageKey]
      split
      · refine Finding.worded_of_requirement (Message.asks_size _ ?_ _ ?_) (htext (by simp))
        · unfold Value.collectionName
          split <;> simp
        · cases bound <;> simp [type]
      · exact Finding.worded_of_shape (by simp [Message.shapeKeys])
    | pattern regex program =>
      refine ⟨[.pattern], Message.asks_pattern, List.forall_mem_singleton.mpr ?_⟩
      change ∃ t, (Message.sourceOf regex).text = .ok t
      unfold Message.sourceOf
      split <;> exact ⟨_, rfl⟩
    | substring place part requirement =>
      refine Finding.worded_of_requirement (Message.asks_requirement _ ?_) (htext (by simp))
      cases place <;> simp [messageKey, type, Message.requirementKeys]
    | order relation limit =>
      simp only [messageKey]
      split
      · next hmoment =>
        refine ⟨[.moment], Message.asks_moment _ ?_, List.forall_mem_singleton.mpr ?_⟩
        · cases relation <;> simp [type, Message.momentKeys]
        · have hlimit := hdate relation limit rfl hmoment
          cases limit with
          | scalar id s => cases s <;> first | exact ⟨_, rfl⟩ | cases hlimit
          | _ => cases hlimit
      · refine Finding.worded_of_requirement (Message.asks_requirement _ ?_) (htext (by simp))
        cases relation <;> simp [type, Message.requirementKeys]
    | multipleOf divisor =>
      refine Finding.worded_of_requirement (Message.asks_requirement _ ?_) (htext (by simp))
      simp [messageKey, type, Message.requirementKeys]
    | _ => exact Finding.worded_of_shape (by simp [messageKey, type, Message.shapeKeys])

/-! ### Schemas without parts -/

section

variable {P : Scalar → Prop} {names : TypeNames} {x : Value}

theorem exists_acceptIf {test : Except Fault Bool} {f : Finding} {A : Value → Prop}
    (htest : ∃ b, test = .ok b) (haccept : test = .ok true → A x) (hf : f.Worded) :
    ∃ r, acceptIf test x f = .ok r ∧ Sum.elim A Finding.Worded r := by
  obtain ⟨b, hb⟩ := htest
  cases b with
  | true => exact ⟨.inl x, by rw [acceptIf, hb]; rfl, haccept hb⟩
  | false => exact ⟨.inr f, by rw [acceptIf, hb]; rfl, hf⟩

theorem exists_amongStrictly {values : List Value}
    (h : ∀ v ∈ values, x.typeOf = v.typeOf → x.Level v) :
    ∃ b, Validator.amongStrictly x values = .ok b := by
  induction values with
  | nil => exact ⟨_, rfl⟩
  | cons v rest ih =>
    rw [List.forall_mem_cons] at h
    obtain ⟨b, hb⟩ := Value.exists_strictEq h.1
    unfold Validator.amongStrictly
    rw [hb]
    cases b with
    | true => exact ⟨_, rfl⟩
    | false => exact ih h.2

/-- What is behind the members of an enumeration is comparable with everything of its type. -/
theorem level_toValue {v : EnumValue} (htype : x.typeOf = v.toValue.typeOf) :
    x.Level v.toValue := by
  have hright : ∀ a : Scalar, a.isSignaling = false → v.toValue.Every fun b => a.Level b := by
    intro a ha
    cases v <;> exact .scalar ⟨fun hs => (by cases ha.symm.trans hs), fun hs => by cases hs⟩
  cases x with
  | scalar id a =>
    refine .scalar (hright a ?_)
    cases a with
    | decimal d => cases v <;> cases htype
    | _ => rfl
  | list id flavor items => cases v <;> cases flavor <;> cases htype
  | tuple id items => cases v <;> cases htype
  | set id frozen items => cases v <;> cases frozen <;> cases htype
  | mapping id kind entries => cases v <;> cases kind <;> cases htype

theorem exists_belongs (e : Enumeration) (x : Value) : ∃ b, Validator.belongs e x = .ok b := by
  have among : ∃ b, Validator.amongStrictly x (e.memberList.map (·.value.toValue)) = .ok b := by
    refine exists_amongStrictly fun v hv htype => ?_
    obtain ⟨member, -, rfl⟩ := List.mem_map.mp hv
    exact level_toValue htype
  unfold Validator.belongs
  split
  · split
    · exact ⟨_, rfl⟩
    · exact among
  · exact among

/-- What a target accepts can be a key. -/
theorem isHashable_of_accepts {t : Target} {y : Value} (h : t.accepts y = true) :
    y.isHashable = true := by
  cases y with
  | scalar id s =>
    cases s with
    | byteArray b => cases t <;> cases h
    | decimal d => cases t <;> cases h
    | _ => rfl
  | _ => cases t <;> cases h

/-- The absence of a value is all that has its type. -/
theorem isUndefined_of_typeOf {y z : Value} (hz : z.isUndefined = true)
    (htype : y.typeOf = z.typeOf) : y.isUndefined = true := by
  cases z with
  | scalar id s =>
    cases s with
    | undefined =>
      cases y with
      | scalar id' s' =>
        change s'.typeOf = .undefined at htype
        unfold Scalar.typeOf at htype
        split at htype <;> first | rfl | cases htype
      | list id' flavor items => cases flavor <;> cases htype
      | tuple id' items => cases htype
      | set id' frozen items => cases frozen <;> cases htype
      | mapping id' kind entries => cases kind <;> cases htype
    | _ => cases hz
  | _ => cases hz

/-- The absence of a value can be compared with whatever is of its type. -/
theorem level_of_isUndefined {y z : Value} (hy : y.isUndefined = true)
    (htype : y.typeOf = z.typeOf) : y.Level z := by
  refine Value.every_of_isUndefined hy (Value.every_of_isUndefined
    (isUndefined_of_typeOf hy htype.symm) ⟨fun hs => (by cases hs), fun hs => by cases hs⟩)

theorem exists_level (hx : x.Fit P) {v : Value}
    (h : ∀ y : Value, y.Every P → y.typeOf = v.typeOf → y.Level v) :
    x.typeOf = v.typeOf → x.Level v :=
  fun htype => hx.elim (level_of_isUndefined · htype) fun hx => h x hx.every htype

/-- A schema without parts comes to a value or a finding. -/
theorem exists_judgement (hP : ∀ s, P s → s.IsData = true) {s : Schema} (hs : s.Suits P)
    {j : Judgement} (hj : s.judgement? = some j) (hx : x.Fit P) :
    ∃ r, j names x = .ok r ∧
      Sum.elim (fun y => s.Admits y ∧ x.Carries P y) Finding.Worded r := by
  cases s <;> simp only [Schema.judgement?, Option.some.injEq, reduceCtorEq] at hj <;> subst hj
  case primitive m p =>
    refine exists_acceptIf ⟨_, rfl⟩ (fun h => ⟨.primitive (Except.ok.inj h), hx.carries⟩) ?_
    exact Finding.worded_of_shape (by
      cases p <;> simp [Label.finding, Schema.label, Schema.type, Primitive.type, Message.shapeKeys])
  case anything => exact ⟨_, rfl, .anything, hx.carries⟩
  case never =>
    exact ⟨_, rfl, Finding.worded_of_shape (by
      simp [Label.finding, Schema.label, Schema.type, Message.shapeKeys])⟩
  case coerce m t =>
    obtain ⟨r, hr⟩ := exists_coerce? hs.1 (hx.isObject hP)
    simp only [hr]
    cases r with
    | none =>
      refine ⟨_, rfl, Finding.worded_of_shape ?_⟩
      cases t <;> simp only [Target.messageKey] <;> repeat (first | split | simp [Message.shapeKeys])
    | some y =>
      refine ⟨_, rfl, ?_⟩
      unfold Target.coerce? at hr
      split at hr
      · next haccepts =>
        cases hr
        exact ⟨.coerce haccepts, hx.carries⟩
      · split at hr
        · next w hconvert =>
          split at hr
          · next haccepts =>
            cases hr
            exact ⟨.coerce haccepts, .inl (hs.2 x _ (hx.imp_right Value.Data.every) hconvert haccepts),
              fun _ _ => isHashable_of_accepts haccepts⟩
          · cases hr
        · split at hr <;> cases hr
  case literal m v expects =>
    refine exists_acceptIf (Value.exists_strictEq (exists_level hx hs.2))
      (fun h => ⟨.literal h, hx.carries⟩) ?_
    exact ⟨_, Message.asks_literal,
      List.forall_mem_cons.mpr ⟨⟨_, rfl⟩, List.forall_mem_singleton.mpr (by
        obtain ⟨t, ht⟩ := hs.1
        exact ⟨t, by change (v.quoted >>= fun s => .ok s) = .ok t; rw [ht]; rfl⟩)⟩⟩
  case enum m keys values expects =>
    refine exists_acceptIf (exists_amongStrictly fun v hv => exists_level hx (hs v hv))
      (fun h => ⟨.enum h, hx.carries⟩) (Finding.worded_of_shape ?_)
    cases keys <;> simp [Label.finding, Schema.label, Schema.type, Message.shapeKeys]
  case nativeEnum m e =>
    refine exists_acceptIf (exists_belongs e x)
      (fun h => ⟨.nativeEnum h, hx.carries⟩) (Finding.worded_of_shape ?_)
    simp [Label.finding, Schema.label, Schema.type, Message.shapeKeys]

end

end Conform
