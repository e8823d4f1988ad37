/-
  Conform/Proofs/Keyable.lean
  ===========================
  **What can be a key.**  Keys are compared pairwise, and of such a comparison
  something is known only among values that can be keys (`Value.Keyable`).  A
  value is regular if it is one of them as soon as it is hashable.

  Whatever a schema comes to from a sound value is regular
  (`regular_of_yields`): it is the value itself, or a conversion has made it, or
  it is put together of regular values.  Only transforms and defaults can bring
  other values in.
-/
import Conform.Proofs.Copying

namespace Conform

/-! ### Conversions -/

/-- The value was made by an operation, or is the one object of its value. -/
def Value.IsMade (v : Value) : Prop := ∀ i, v.identity ≠ .given i

namespace Target

open Value

theorem isMade_int (n : Int) : (Value.int n).IsMade := fun _ h => by cases h

theorem isMade_float (x : Binary64) : (Value.float x).IsMade := fun _ h => by cases h

theorem isMade_dateTime (d : Calendar.DateTime) : (Value.dateTime d).IsMade := fun _ h => by cases h

theorem isMade_bool (b : Bool) : (Value.bool b).IsMade := fun _ h => by cases h

theorem isMade_str (s : String) : (Value.str s).IsMade := by
  intro i h
  unfold Value.str Value.identity at h
  dsimp only at h
  split at h <;> cases h

theorem isMade_of_map {α : Type} {r : Except Fault α} {f : α → Value} (hf : ∀ a, (f a).IsMade)
    {w : Value} (h : r.map f = .ok w) : w.IsMade := by
  cases r with
  | error e => cases h
  | ok a =>
    cases h
    exact hf a

theorem isMade_of_bind {α β : Type} {r : Except Fault α} {g : α → Except Fault β} {f : β → Value}
    (hf : ∀ b, (f b).IsMade) {w : Value} (h : (r.bind fun a => (g a).map f) = .ok w) :
    w.IsMade := by
  cases r with
  | error e => cases h
  | ok a => exact isMade_of_map hf h

theorem isMade_of_toText {v w : Value} (h : toText v = .ok w) : w.IsMade := by
  unfold toText at h
  split at h
  · split at h
    · cases h
    · exact isMade_of_map isMade_str h
    · exact isMade_of_map isMade_str h
    · exact isMade_of_map isMade_str h
  · exact isMade_of_map isMade_str h

theorem isMade_of_toNumber {v w : Value} (h : toNumber v = .ok w) : w.IsMade := by
  unfold toNumber at h
  split at h
  · split at h
    · cases h
      exact isMade_int _
    · cases h
      exact isMade_int _
    · unfold readNumber at h
      split at h
      · cases h
        exact isMade_int _
      · split at h
        · cases h
          exact isMade_int _
        · exact isMade_of_map isMade_float h
    · cases h
    · exact isMade_of_map isMade_float h
  · cases h

theorem isMade_of_toInteger {v w : Value} (h : toInteger v = .ok w) : w.IsMade := by
  unfold toInteger at h
  split at h
  · split at h
    · cases h
      exact isMade_int _
    · cases h
    · cases h
    · exact isMade_of_map isMade_int h
    · unfold readInteger at h
      split at h
      · cases h
        exact isMade_int _
      · exact isMade_of_map isMade_int h
    · exact isMade_of_bind isMade_int h
  · exact isMade_of_bind isMade_int h

theorem isMade_of_toMoment {formats : List String} {v w : Value} (h : toMoment formats v = .ok w) :
    w.IsMade := by
  unfold toMoment at h
  split at h
  · exact isMade_of_map isMade_dateTime h
  · split at h
    · split at h
      · cases h
      · cases h
      · exact isMade_of_map isMade_dateTime h
      · exact isMade_of_map isMade_dateTime h
      · cases h
        exact isMade_dateTime _
      · exact isMade_of_map isMade_dateTime h
      · exact isMade_of_bind isMade_dateTime h
    · exact isMade_of_bind isMade_dateTime h

theorem isMade_of_convert {t : Target} {v w : Value} (h : t.convert v = .ok w) : w.IsMade := by
  cases t with
  | string => exact isMade_of_toText h
  | number => exact isMade_of_toNumber h
  | boolean => exact isMade_of_map isMade_bool h
  | bigInt => exact isMade_of_toInteger h
  | date formats => exact isMade_of_toMoment h

/-- Values of a target type are scalars that can be keys. -/
theorem scalar_of_accepts {t : Target} {v : Value} (h : t.accepts v = true) :
    ∃ id s, v = .scalar id s ∧ v.isHashable = true ∧ v.isNull = false ∧ v.isUndefined = false := by
  cases v with
  | scalar id s =>
    refine ⟨id, s, rfl, ?_⟩
    cases s with
    | null => cases t <;> cases h
    | undefined => cases t <;> cases h
    | byteArray => cases t <;> cases h
    | decimal => cases t <;> cases h
    | _ => exact ⟨rfl, rfl, rfl⟩
  | _ => cases t <;> cases h

/-- What a value is coerced to is of the target type, and is coerced to itself. -/
theorem coerce?_again {t : Target} {x y : Value} (h : t.coerce? x = .ok (some y)) :
    t.accepts y = true ∧ t.coerce? y = .ok (some y) ∧ (y = x ∨ y.IsMade) := by
  have again (haccepts : t.accepts y = true) : t.coerce? y = .ok (some y) := by
    unfold coerce?
    rw [if_pos haccepts]
  unfold coerce? at h
  split at h
  · next haccepts =>
    cases h
    exact ⟨haccepts, again haccepts, .inl rfl⟩
  · split at h
    · next w hconvert =>
      split at h
      · next haccepts =>
        cases h
        exact ⟨haccepts, again haccepts, .inr (isMade_of_convert hconvert)⟩
      · cases h
    · split at h <;> cases h

end Target

theorem acceptIf_eq {test : Except Fault Bool} {x y : Value} {f : Finding}
    (h : acceptIf test x f = .ok (.inl y)) : test = .ok true ∧ y = x := by
  rcases test with e | (_ | _)
  · cases h
  · cases h
  · cases h
    exact ⟨rfl, rfl⟩

/-- A schema without parts gives the value itself, or coerces it. -/
theorem Schema.cases_of_judgement {s : Schema} {j : Judgement} (hj : s.judgement? = some j)
    {names : TypeNames} {x y : Value} (h : j names x = .ok (.inl y)) :
    y = x ∨ ∃ m t, s = .coerce m t ∧ t.coerce? x = .ok (some y) := by
  cases s with
  | coerce m t =>
    cases hj
    refine .inr ⟨m, t, rfl, ?_⟩
    rcases hcoerce : t.coerce? x with e | (_ | z)
    · simp only [hcoerce] at h
      cases h
    · simp only [hcoerce] at h
      cases h
    · simp only [hcoerce] at h
      cases h
      rfl
  | anything => cases hj; cases h; exact .inl rfl
  | never => cases hj; cases h
  | primitive | literal | enum | nativeEnum => cases hj; exact .inl (acceptIf_eq h).2
  | _ => cases hj

theorem Target.keyable_of_accepts {t : Target} {v : Value} (h : t.accepts v = true)
    (hmade : v.IsMade) : v.Keyable objects := by
  obtain ⟨id, s, rfl, hhashable, hnull, hundefined⟩ := scalar_of_accepts h
  refine .scalar (fun i hi => (hmade i hi).elim) ⟨fun h => ?_, fun h => ?_⟩ hhashable
  · cases hnull.symm.trans h
  · cases hundefined.symm.trans h

/-- A text can be a key. -/
theorem Value.keyable_str (s : String) : (Value.str s).Keyable objects :=
  Target.keyable_of_accepts (t := .string) rfl (Target.isMade_str s)

theorem Wrapping.spared?_again {w : Wrapping} {x y : Value} (hy : w.spared? x = some y) :
    w.spared? y = some y ∧ (y = x ∨ y = .null) := by
  have spared {test : Bool} (hif : (if test then some x else none) = some y) :
      test = true ∧ y = x := by
    cases test with
    | true => exact ⟨rfl, (Option.some.inj hif).symm⟩
    | false => cases hif
  cases w with
  | optional =>
    obtain ⟨-, rfl⟩ := spared hy
    exact ⟨hy, .inl rfl⟩
  | nullable =>
    dsimp only [spared?] at hy
    split at hy
    · cases hy
      exact ⟨rfl, .inr rfl⟩
    · cases hy
  | nullish =>
    obtain ⟨-, rfl⟩ := spared hy
    exact ⟨hy, .inl rfl⟩
  | readonly => cases hy
  | default => cases hy

/-! ### Members -/

namespace Value

/-- Members are among the items, and are told apart. -/
theorem foldl_addMember {items acc : List Value}
    (hacc : acc.Pairwise fun a b => a.keyEq b = false) :
    (items.foldl addMember acc).Pairwise (fun a b => a.keyEq b = false) ∧
      (∀ v ∈ items.foldl addMember acc, v ∈ acc ∨ v ∈ items) ∧
      (items.foldl addMember acc).length ≤ acc.length + items.length := by
  induction items generalizing acc with
  | nil => exact ⟨hacc, fun v hv => .inl hv, Nat.le_refl _⟩
  | cons x rest ih =>
    have hadd : (addMember acc x).Pairwise (fun a b => a.keyEq b = false) ∧
        (∀ v ∈ addMember acc x, v ∈ acc ∨ v = x) ∧ (addMember acc x).length ≤ acc.length + 1 := by
      unfold addMember
      split
      · exact ⟨hacc, fun v hv => .inl hv, Nat.le_succ _⟩
      · next hnew =>
        refine ⟨List.pairwise_append.mpr ⟨hacc, List.pairwise_singleton _ _, fun a ha b hb => ?_⟩,
          fun v hv => ?_, by simp⟩
        · rw [List.mem_singleton.mp hb]
          simp only [List.any_eq_true, not_exists, not_and, Bool.not_eq_true] at hnew
          exact hnew a ha
        · simpa using hv
    obtain ⟨hapart, hmem, hlength⟩ := ih hadd.1
    refine ⟨hapart, fun v hv => ?_, ?_⟩
    · rcases hmem v hv with hv | hv
      · rcases hadd.2.1 v hv with hv | rfl
        · exact .inl hv
        · exact .inr List.mem_cons_self
      · exact .inr (List.mem_cons_of_mem x hv)
    · have hone := hadd.2.2
      rw [List.foldl_cons, List.length_cons]
      omega

theorem foldl_addMember_self {items acc : List Value}
    (h : (acc ++ items).Pairwise fun a b => a.keyEq b = false) :
    items.foldl addMember acc = acc ++ items := by
  induction items generalizing acc with
  | nil => simp
  | cons x rest ih =>
    have hnew : acc.any (·.keyEq x) = false := by
      rw [List.any_eq_false]
      intro a ha
      rw [(List.pairwise_append.mp h).2.2 a ha x List.mem_cons_self]
      exact Bool.false_ne_true
    have hadd : addMember acc x = acc ++ [x] := by
      unfold addMember
      rw [hnew]
      rfl
    rw [List.foldl_cons, hadd, ih (by simpa using h), List.append_assoc, List.singleton_append]

theorem members_of_toMembers {items members : List Value} (h : toMembers items = .ok members) :
    (members.Pairwise fun a b => a.keyEq b = false) ∧ (∀ v ∈ members, v ∈ items) ∧
      members.length ≤ items.length ∧ toMembers members = .ok members := by
  unfold toMembers at h
  split at h
  · next hhashable =>
    cases h
    obtain ⟨hapart, hmem, hlength⟩ := @foldl_addMember items [] List.Pairwise.nil
    have hsub : ∀ v ∈ Value.members items, v ∈ items := fun v hv =>
      (hmem v hv).resolve_left List.not_mem_nil
    rw [List.length_nil, Nat.zero_add] at hlength
    refine ⟨hapart, hsub, hlength, ?_⟩
    unfold toMembers
    rw [if_pos (allHashable_of fun v hv => isHashable_of_allHashable hhashable (hsub v hv))]
    exact congrArg Except.ok (@foldl_addMember_self (Value.members items) [] hapart)
  · cases h

theorem isHashable_of_toMembers {items members : List Value} (h : toMembers items = .ok members) :
    ∀ v ∈ items, v.isHashable = true := by
  unfold toMembers at h
  split at h
  · next hhashable => exact fun v hv => isHashable_of_allHashable hhashable hv
  · cases h

/-- The items of a list, a tuple or a set. -/
def contents : Value → List Value
  | .list _ _ items | .tuple _ items | .set _ _ items => items
  | _ => []

theorem Sound.contents {objects : Nat → Value} {v : Value} (h : v.Sound objects) :
    ∀ x ∈ v.contents, x.Sound objects := by
  cases h with
  | list hitems => exact hitems
  | tuple _ hitems => exact hitems
  | set _ _ hitems => exact fun x hx => (hitems x hx).sound
  | _ => exact fun x hx => by cases hx

end Value

namespace Schema

theorem mem_contents_of_layout {s : Schema} {x : Value} {parts : List Position}
    {make : List Value → Except Fault Value} (h : s.layout? x = some (parts, make)) {p : Position}
    (hp : p ∈ parts) : p.value ∈ x.contents := by
  have among {items : List Schema} {rest : Option Schema} {i : Nat} {xs : List Value}
      (hp : p ∈ positions items rest i xs) : p.value ∈ xs := by
    fun_induction positions items rest i xs with
    | case1 => cases hp
    | case2 _ _ _ _ _ _ ih =>
      rcases List.mem_cons.mp hp with rfl | hp
      · exact List.mem_cons_self
      · exact List.mem_cons_of_mem _ (ih hp)
    | case3 _ _ _ _ ih =>
      rcases List.mem_cons.mp hp with rfl | hp
      · exact List.mem_cons_self
      · exact List.mem_cons_of_mem _ (ih hp)
    | case4 => cases hp
  unfold layout? at h
  split at h
  · cases h
    obtain ⟨i, hi, rfl⟩ := List.mem_mapIdx.mp hp
    exact List.getElem_mem hi
  · cases h
    obtain ⟨v, hv, rfl⟩ := List.mem_map.mp hp
    exact hv
  · obtain ⟨values, hvalues, heq⟩ := Option.map_eq_some_iff.mp h
    cases heq
    have hp := among hp
    cases x with
    | list | tuple =>
      cases hvalues
      exact hp
    | _ => cases hvalues
  · cases h

end Schema

/-- What a list, a set or a tuple makes of the outputs of its parts. -/
inductive Value.Makes (ys : List Value) : Value → Prop where
  | list : Makes ys (.ofList ys)
  | set {frozen : Bool} {members : List Value} : toMembers ys = .ok members →
      Makes ys (.ofSet frozen members)
  | tuple : Makes ys (.ofTuple ys)

theorem Schema.makes_of_layout {s : Schema} {x y : Value} {ys : List Value} {parts : List Position}
    {make : List Value → Except Fault Value} (hlayout : s.layout? x = some (parts, make))
    (hmake : make ys = .ok y) : Value.Makes ys y := by
  unfold layout? at hlayout
  split at hlayout
  · cases hlayout
    cases hmake
    exact .list
  · cases hlayout
    rcases hmembers : Value.toMembers ys with f | members
    · simp only [hmembers] at hmake
      cases hmake
    · simp only [hmembers] at hmake
      cases hmake
      exact .set hmembers
  · obtain ⟨values, -, heq⟩ := Option.map_eq_some_iff.mp hlayout
    cases heq
    cases hmake
    exact .tuple
  · cases hlayout

/-! ### Regular values -/

/-- The value can be a key if it is hashable. -/
def Value.Regular (objects : Nat → Value) (v : Value) : Prop :=
  v.isHashable = true → v.Keyable objects

/-- What defaults supply is sound, and what transforms make of regular values is regular. -/
structure Context.Regular (ctx : Context) (objects : Nat → Value) (U : Schema → Prop) : Prop where
  supplies {m given : Value} {inner : Schema} : U (.wrapper m (.default given) inner) →
    ∀ y, Gives (fun _ => True) (Validator.supply ctx given) y → y.Sound objects
  transforms {m transform : Value} {inner : Schema} : U (.overwrite m transform inner) →
    ∀ x y, x.Regular objects → Gives (fun _ => True) (ctx.invoke transform [.value x]) y →
      y.Regular objects

section

variable {ctx : Context} {objects : Nat → Value} {I : Found → Prop} {U : Schema → Prop}

theorem Value.Sound.regular {v : Value} (h : v.Sound objects) : v.Regular objects := h.keyable

theorem Value.regular_ofMapping (entries : Value.Entries) :
    (Value.ofMapping entries).Regular objects := fun h => by cases h

theorem Value.regular_null : Value.null.Regular objects := fun hhashable =>
  .scalar (fun _ h => by cases h) ⟨fun _ => rfl, fun h => by cases h⟩ hhashable

theorem regular_of_judgement {s : Schema} {j : Judgement} (hj : s.judgement? = some j)
    {names : TypeNames} {x y : Value} (hx : x.Sound objects) (h : j names x = .ok (.inl y)) :
    y.Regular objects := by
  rcases Schema.cases_of_judgement hj h with rfl | ⟨m, t, rfl, hcoerce⟩
  · exact hx.regular
  · obtain ⟨haccepts, -, rfl | hmade⟩ := Target.coerce?_again hcoerce
    · exact hx.regular
    · exact fun _ => Target.keyable_of_accepts haccepts hmade

/-- A list, a set or a tuple that is made of regular values is regular. -/
theorem regular_of_layout {s : Schema} {x y : Value} {ys : List Value} {parts : List Position}
    {make : List Value → Except Fault Value} (hlayout : s.layout? x = some (parts, make))
    (hys : ∀ v ∈ ys, v.Regular objects) (hmake : make ys = .ok y) : y.Regular objects := by
  intro hy
  cases Schema.makes_of_layout hlayout hmake with
  | list => cases hy
  | @set frozen members hmembers =>
    obtain ⟨hapart, hmem, -, -⟩ := Value.members_of_toMembers hmembers
    have hhashable := Value.isHashable_of_toMembers hmembers
    cases frozen with
    | false => cases hy
    | true =>
      refine .set (fun i hi => ?_) hapart fun v hv => hys v (hmem v hv) (hhashable v (hmem v hv))
      cases members <;> cases hi
  | tuple =>
    refine .tuple (fun i hi => ?_) fun v hv => hys v hv (Value.isHashable_of_allHashable hy hv)
    cases ys <;> cases hi

/-- What regular values are merged into is the first of them, or a mapping. -/
theorem regular_of_mergeAll {first output : Value} {rest : List Value}
    (hfirst : first.Regular objects)
    (h : Validator.mergeAll? first rest = .ok (some output)) : output.Regular objects := by
  induction rest generalizing first with
  | nil =>
    cases h
    exact hfirst
  | cons b rest ih =>
    unfold Validator.mergeAll? at h
    rcases hmerge : Validator.merge? first b with f | (_ | merged)
    · rw [hmerge] at h
      cases h
    · rw [hmerge] at h
      cases h
    · rw [hmerge] at h
      refine ih ?_ h
      unfold Validator.merge? at hmerge
      split at hmerge
      · cases hmerge
        exact Value.regular_ofMapping _
      · rcases hagree : first.strictEq b with f | (_ | _)
        · rw [hagree] at hmerge
          cases hmerge
        · rw [hagree] at hmerge
          cases hmerge
        · rw [hagree] at hmerge
          cases hmerge
          exact hfirst

/-- A container that ends typed is made of what it has gathered. -/
theorem Gathering.made_of_finished {α : Type} {make : α → Except Fault Value} {p : Progress α}
    {d : Dataset} (h : Finished make p d) (htyped : d.isTyped = true) :
    ∃ g, p = .going g ∧ make g.output = .ok d.value := by
  cases h with
  | stopped | failed => cases htyped
  | valid _ hmake => exact ⟨_, rfl, hmake⟩
  | partly _ _ hmake => exact ⟨_, rfl, hmake⟩

theorem Borrowed.isHashable_replace {b : Borrowed} (h : b.value.isHashable = false)
    (key newKey v : Value) : (b.replace key newKey v).1.value.isHashable = false := by
  rcases b.value_of_replace key newKey v with hown | herase | ⟨-, es, -, hinsert⟩
  · rw [hown, own]
    split
    · exact h
    · rfl
  · rw [herase]
    rfl
  · rw [hinsert]
    rfl

theorem isHashable_of_mapFinished {R : Runs} {l : Label} {key value : Schema} {x : Value}
    {entries : Value.Entries} {p : Progress Borrowed} {d : Dataset} (hx : x.isHashable = false)
    (hp : Gathering.Path ctx (MapBrings ctx I R l key value) entries
      (.start (.fresh x) ⟨x, false⟩) p)
    (h : MapFinished p d) (htyped : d.isTyped = true) : d.value.isHashable = false := by
  cases h with
  | stopped | failed => cases htyped
  | @valid g hissues =>
    refine Gathering.output_of_going (O := fun b : Borrowed => b.value.isHashable = false)
      (fun e _ c hc _ b hb => ?_) hp hx
    cases hc with
    | badKey | badValue => exact hb
    | accepted =>
      dsimp only [Contribution.plain]
      split
      · exact Borrowed.isHashable_replace hb _ _ _
      · exact hb

theorem isHashable_of_map {R : Runs} {m : Value} {limits : Limits} {key value : Schema} {x y : Value}
    (h : (Schema.map m limits key value).Outcome ctx I R x (.valid y)) : y.isHashable = false := by
  generalize hd : Dataset.valid y = d at h
  cases h with
  | map hinput _ hp hfinished =>
    have hx : x.isHashable = false := by
      cases x <;> first | rfl | cases hinput
    subst hd
    exact isHashable_of_mapFinished hx hp hfinished rfl
  | objected => cases hd
  | accepted hj => cases hj
  | rejected hj => cases hj
  | sequence _ hlayout => cases hlayout

section

variable {R : Runs}
  (hR : ∀ c y e, R c y e → y.Sound objects → e.isTyped = true → e.value.Regular objects)

include hR

theorem regular_of_parts {parts : List Position} (hparts : ∀ p ∈ parts, p.value.Sound objects)
    {d : Dataset} {g : Gathering (List Value)}
    (hp : Gathering.Path ctx (PartBrings R) parts (.start d []) (.going g)) :
    ∀ v ∈ g.output, v.Regular objects := by
  refine Gathering.output_of_going (O := fun ys => ∀ v ∈ ys, v.Regular objects)
    (fun p hp c hc htyped ys hys => ?_) hp fun v hv => by cases hv
  cases hc with
  | run hrun =>
    have hpart := hR _ _ _ hrun (hparts p hp) htyped
    exact List.forall_mem_append.mpr ⟨hys, List.forall_mem_singleton.mpr hpart⟩

theorem regular_of_members {x : Value} (hx : x.Sound objects) {members : List Schema}
    {d : Dataset} {g : Gathering (List Value)}
    (hp : Gathering.Path ctx (MemberBrings R x) members (.start d []) (.going g)) :
    ∀ v ∈ g.output, v.Regular objects := by
  refine Gathering.output_of_going (O := fun ys => ∀ v ∈ ys, v.Regular objects)
    (fun s _ c hc htyped ys hys => ?_) hp fun v hv => by cases hv
  cases hc with
  | run hrun =>
    have hmember := hR _ _ _ hrun hx htyped
    exact List.forall_mem_append.mpr ⟨hys, List.forall_mem_singleton.mpr hmember⟩

/-- What the parts of a schema keep, the schema keeps: from a sound value it comes to a regular
one. -/
theorem regular_of_outcome (h : ctx.Regular objects U) {s : Schema} (hs : U s) {x : Value}
    {d : Dataset} (houtcome : s.Outcome ctx I R x d) (hx : x.Sound objects)
    (htyped : d.isTyped = true) : d.value.Regular objects := by
  have hinput {entries : Value.Entries} (hentries : x.entries? = some entries) :
      x.isHashable = false := by
    cases x <;> first | rfl | cases hentries
  cases houtcome with
  | accepted hj hverdict => exact regular_of_judgement hj hx hverdict
  | rejected | objected | noneOf => cases htyped
  | untyped _ huntyped => cases huntyped.symm.trans htyped
  | passed hrun => exact hR _ _ _ hrun hx htyped
  | violated hrun htyped' =>
    rw [Dataset.value_violate]
    exact hR _ _ _ hrun hx htyped'
  | spared hspared =>
    rcases (Wrapping.spared?_again hspared).2 with rfl | rfl
    · exact hx.regular
    · exact Value.regular_null
  | wrapped _ _ hrun => exact hR _ _ _ hrun hx htyped
  | supplied hdefault hy hrun =>
    obtain rfl := Wrapping.eq_default_of_default? hdefault
    exact hR _ _ _ hrun (h.supplies hs _ hy.free) htyped
  | overwritten hrun hstatus hy =>
    refine h.transforms hs _ _ (hR _ _ _ hrun hx ?_) hy.free
    rw [Dataset.isTyped, hstatus]
    rfl
  | untouched hrun => exact hR _ _ _ hrun hx htyped
  | behind _ hrun => exact hR _ _ _ hrun hx htyped
  | sequence _ hlayout hp hfinished =>
    obtain ⟨g, rfl, hmake⟩ := Gathering.made_of_finished hfinished htyped
    exact regular_of_layout hlayout (regular_of_parts hR (fun p hp =>
      hx.contents _ (Schema.mem_contents_of_layout hlayout hp)) hp) hmake
  | object _ _ hfinished =>
    obtain ⟨g, rfl, hmake⟩ := Gathering.made_of_finished hfinished htyped
    rw [← Except.ok.inj hmake]
    exact Value.regular_ofMapping _
  | map hentries _ hp hfinished =>
    have hmapping := isHashable_of_mapFinished (hinput hentries) hp hfinished htyped
    exact fun hhashable => by cases hmapping.symm.trans hhashable
  | record _ _ hfinished =>
    obtain ⟨g, rfl, hmake⟩ := Gathering.made_of_finished hfinished htyped
    rw [← Except.ok.inj hmake]
    exact Value.regular_ofMapping _
  | @first _ _ _ _ _ e _ hrun hstatus =>
    refine hR _ _ e hrun hx ?_
    rw [Dataset.isTyped, hstatus]
    rfl
  | intersection hp hmerged =>
    cases hmerged with
    | stopped | conflict | failed => cases htyped
    | valid _ houtput hmerge | partly _ houtput hmerge =>
      exact regular_of_mergeAll (regular_of_members hR hx hp _ (houtput ▸ List.mem_cons_self)) hmerge

end

theorem regular_of_yields (hclosed : ctx.Closed I U) (h : ctx.Regular objects U) {s : Schema}
    (hs : U s) {x : Value} {d : Dataset} (hd : ctx.Yields I s x d) (hx : x.Sound objects)
    (htyped : d.isTyped = true) : d.value.Regular objects := by
  refine yields_induction hclosed (P := fun _ x d => x.Sound objects → d.isTyped = true →
    d.value.Regular objects) (fun s x d hs houtcome hx htyped => ?_) hs hd hx htyped
  exact regular_of_outcome (fun _ _ _ hd => hd.2.2) h hs houtcome hx htyped

end

end Conform
