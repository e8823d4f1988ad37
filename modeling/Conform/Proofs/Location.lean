/-
  Conform/Proofs/Location.lean
  ============================
  **Where issues are.**  The path of every issue leads from the validated value
  to the offending one (`Issue.Traces`): step by step it names a key of a
  mapping, an index of a list or a tuple, or a member of a set.  Only the last
  step may name something that is not there, which is a declared key of an
  object that the mapping does not have.

  Containers build paths from the inside out, so the statement is proved for
  every part relative to the value of the part, and carried over one step
  (`Issue.Traces.under`).
-/
import Conform.Proofs.Inversion

namespace Conform

/-! ### Values that come from outside -/

/-- No two of the values are one key, and each is the same key as itself. -/
def Value.Distinct (xs : List Value) : Prop :=
  xs.Pairwise (fun a b => a.keyEq b = false) ∧ ∀ x ∈ xs, x.keyEq x = true

/-- The keys of mappings and the members of sets are distinct, at any depth. -/
inductive Value.Proper : Value → Prop where
  | scalar {id : Identity} {s : Scalar} : Proper (.scalar id s)
  | list {id : Identity} {flavor : Flavor} {items : List Value} :
      (∀ x ∈ items, Proper x) → Proper (.list id flavor items)
  | tuple {id : Identity} {items : List Value} :
      (∀ x ∈ items, Proper x) → Proper (.tuple id items)
  | set {id : Identity} {frozen : Bool} {items : List Value} :
      Distinct items → (∀ x ∈ items, Proper x) → Proper (.set id frozen items)
  | mapping {id : Identity} {kind : MappingKind} {entries : List (Value × Value)} :
      Distinct (entries.map (·.1)) → (∀ e ∈ entries, Proper e.1) → (∀ e ∈ entries, Proper e.2) →
      Proper (.mapping id kind entries)

theorem Value.Distinct.find? {xs : List Value} (h : Distinct xs) {x : Value} (hx : x ∈ xs) :
    xs.find? (·.keyEq x) = some x := by
  obtain ⟨hpairwise, hself⟩ := h
  induction xs with
  | nil => cases hx
  | cons a rest ih =>
    rw [List.pairwise_cons] at hpairwise
    rw [List.forall_mem_cons] at hself
    rcases List.mem_cons.mp hx with rfl | hrest
    · exact List.find?_cons_of_pos hself.1
    · rw [List.find?_cons_of_neg (by simp [hpairwise.1 x hrest])]
      exact ih hrest hpairwise.2 hself.2

theorem Value.Distinct.get? {entries : Value.Entries} (h : Distinct (entries.map (·.1)))
    {e : Value × Value} (he : e ∈ entries) : entries.get? e.1 = some e.2 := by
  obtain ⟨hpairwise, hself⟩ := h
  induction entries with
  | nil => cases he
  | cons a rest ih =>
    rw [List.map_cons, List.pairwise_cons] at hpairwise
    rw [List.map_cons, List.forall_mem_cons] at hself
    unfold Value.Entries.get? at ih ⊢
    rcases List.mem_cons.mp he with rfl | hrest
    · simp [hself.1]
    · have hne : a.1.keyEq e.1 = false := hpairwise.1 e.1 (List.mem_map_of_mem hrest)
      rw [List.find?_cons_of_neg (by simp [hne])]
      exact ih hrest hpairwise.2 hself.2

/-! ### Following a path -/

/-- The part of a value under a key: of a mapping the value under it, of a list or a tuple the item
at the index, and of a set the member itself. -/
def Value.part? : Value → Value → Option Value
  | .mapping _ _ entries, key => Entries.get? entries key
  | .list _ _ items, key | .tuple _ items, key =>
    match key.toInt? with
    | some (.ofNat i) => items[i]?
    | _ => none
  | .set _ _ items, key => items.find? (·.keyEq key)
  | .scalar .., _ => none

/-- A path leads from a value to another; no value is under a declared key that is missing. -/
inductive Value.Leads (declared : Value → Prop) : Value → List Value → Value → Prop where
  | here {x : Value} : Leads declared x [] x
  | step {x y z key : Value} {path : List Value} : x.part? key = some y →
      Leads declared y path z → Leads declared x (key :: path) z
  | missing {id : Identity} {kind : MappingKind} {entries : Value.Entries} {key : Value} :
      entries.get? key = none → declared key →
      Leads declared (.mapping id kind entries) [key] .undefined

/-- There is nothing under a missing value. -/
theorem Value.Leads.of_undefined {declared : Value → Prop} {path : List Value} {y : Value}
    (h : Leads declared .undefined path y) : path = [] ∧ y = .undefined := by
  cases h with
  | here => exact ⟨rfl, rfl⟩
  | step hpart => cases hpart

/-- The schema of the keys of a mapping. -/
def Schema.keySchema? : Schema → Option Schema
  | .map _ _ key _ | .record _ key _ => some key
  | _ => none

/-- The issue says that a key of a mapping is not valid; its input is the key. -/
def Issue.AtKey (U : Schema → Prop) (i : Issue) : Prop :=
  ∃ s key, U s ∧ s.keySchema? = some key ∧ i.type = s.type ∧ i.expects = some key.expects ∧
    i.path.getLast? = some i.input

/-- The key is declared by one of the schemas. -/
def Schema.Declares (U : Schema → Prop) (key : Value) : Prop :=
  ∃ m id kind extra absent entries s,
    U (.object m id kind extra absent entries) ∧ (key, s) ∈ entries

/-- The path of an issue leads from a value to the input of the issue, if its kind is that the
shape is wrong; and so do the paths of nested issues, from where the path of the issue leads. -/
inductive Issue.Traces (U : Schema → Prop) : Value → Issue → Prop where
  | intro {x y : Value} {i : Issue} : x.Leads (Schema.Declares U) i.path y →
      (i.kind = "schema" → i.input = y ∨ i.AtKey U) →
      (∀ reasons ∈ i.reasons, ∀ r ∈ reasons, Traces U y r) → Traces U x i

section

variable {U : Schema → Prop}

theorem Issue.AtKey.under {i : Issue} (h : i.AtKey U) (key : Value) : (i.under key).AtKey U := by
  obtain ⟨s, k, hs, hk, htype, hexpects, hlast⟩ := h
  refine ⟨s, k, hs, hk, htype, hexpects, ?_⟩
  change (key :: i.path).getLast? = some i.input
  rw [List.getLast?_cons, hlast]
  rfl

/-- One step more. -/
theorem Issue.Traces.under {x y key : Value} {i : Issue} (h : i.Traces U y)
    (hpart : x.part? key = some y) : (i.under key).Traces U x := by
  cases h with
  | intro hleads hinput hreasons =>
    refine .intro (.step hpart hleads) (fun hkind => ?_) hreasons
    exact (hinput hkind).imp_right fun hkey => hkey.under key

/-- The issues of a declared key that is missing are issues of a missing value. -/
theorem Issue.Traces.under_missing {id : Identity} {kind : MappingKind} {entries : Value.Entries}
    {key : Value} {i : Issue} (h : i.Traces U .undefined) (hmissing : entries.get? key = none)
    (hdeclared : Schema.Declares U key) :
    (i.under key).Traces U (.mapping id kind entries) := by
  cases h with
  | intro hleads hinput hreasons =>
    obtain ⟨hpath, rfl⟩ := hleads.of_undefined
    have hunder : (i.under key).path = [key] := by rw [Issue.under, hpath]
    refine .intro (hunder ▸ .missing hmissing hdeclared) (fun hkind => ?_) hreasons
    exact (hinput hkind).imp_right fun hkey => hkey.under key

/-- A report on a value as a whole. -/
theorem traces_toIssue {x : Value} {f : Finding} (hinput : f.kind = "schema" → f.input = x)
    (hreasons : ∀ reasons ∈ f.reasons, ∀ r ∈ reasons, Issue.Traces U x r) (message : Value) :
    (f.toIssue message).Traces U x :=
  .intro .here (fun hkind => .inl (hinput hkind)) hreasons

/-! ### Findings -/

theorem eq_of_acceptIf {test : Except Fault Bool} {x : Value} {f g : Finding}
    (h : acceptIf test x f = .ok (.inr g)) : g = f := by
  unfold acceptIf at h
  rcases test with e | (_ | _) <;> cases h
  rfl

/-- What a schema without parts has found is about the value itself. -/
theorem about_of_judgement {s : Schema} {j : Judgement} (hj : s.judgement? = some j)
    {names : TypeNames} {x : Value} {f : Finding} (h : j names x = .ok (.inr f)) :
    f.input = x ∧ f.reasons = none := by
  cases s <;> simp only [Schema.judgement?, Option.some.injEq, reduceCtorEq] at hj <;> subst hj
  case anything => cases h
  case never => cases h; exact ⟨rfl, rfl⟩
  case coerce m t =>
    dsimp only at h
    rcases hcoerce : t.coerce? x with e | (_ | y) <;> rw [hcoerce] at h <;> cases h
    exact ⟨rfl, rfl⟩
  all_goals
    obtain rfl := eq_of_acceptIf h
    exact ⟨rfl, rfl⟩

theorem about_of_sizeFinding {l : Label} {x : Value} {type : String} {limit : Limit} {size : Nat}
    {f : Finding} (h : Validator.sizeFinding l x type limit size = .ok f) :
    f.input = x ∧ f.reasons = none := by
  unfold Validator.sizeFinding at h
  rcases htext : limit.requirement.text with e | text <;> rw [htext] at h <;> cases h
  exact ⟨rfl, rfl⟩

theorem about_of_sizeFinding? {l : Label} {limits : Limits} {x : Value} {size : Nat} {f : Finding}
    (h : Validator.sizeFinding? l limits x size = .ok (some f)) :
    f.input = x ∧ f.reasons = none := by
  have hmap : ∀ {type : String} {limit : Limit},
      (Validator.sizeFinding l x type limit size).map some = .ok (some f) →
        f.input = x ∧ f.reasons = none := by
    intro type limit h
    rcases hfinding : Validator.sizeFinding l x type limit size with e | g <;>
      rw [hfinding] at h <;> cases h
    exact about_of_sizeFinding hfinding
  unfold Validator.sizeFinding? at h
  dsimp only at h
  repeat' split at h
  all_goals first | exact hmap h | cases h

/-- What a container has against a value as a whole is about the value itself. -/
theorem about_of_objection {s : Schema} {names : TypeNames} {x : Value} {f : Finding}
    (h : s.objection? names x = .ok (some f)) : f.input = x ∧ f.reasons = none := by
  unfold Schema.objection? at h
  repeat' split at h
  all_goals first
    | exact about_of_sizeFinding? h
    | cases h <;> exact ⟨rfl, rfl⟩

/-- A violated constraint is no wrong shape. -/
theorem kind_of_checkFinding {names : TypeNames} {check : Check} {name : String} {x : Value}
    {f : Finding} (h : check.finding names name x = .ok f) :
    f.kind = "validation" ∧ f.reasons = none := by
  unfold Check.finding at h
  rcases hreceived : check.received names x with e | received <;> rw [hreceived] at h <;> cases h
  exact ⟨rfl, rfl⟩

/-! ### Parts -/

theorem part?_of_positions {items : List Schema} {rest : Option Schema} {i : Nat}
    {xs : List Value} {p : Position} (h : p ∈ Schema.positions items rest i xs) :
    ∃ k : Nat, p.key = .int (i + k : Nat) ∧ xs[k]? = some p.value := by
  fun_induction Schema.positions items rest i xs with
  | case1 => cases h
  | case2 rest i x xs s ss ih =>
    rcases List.mem_cons.mp h with rfl | h
    · exact ⟨0, rfl, rfl⟩
    · obtain ⟨k, hkey, hvalue⟩ := ih h
      exact ⟨k + 1, by rw [hkey]; congr 2; omega, hvalue⟩
  | case3 i x xs r ih =>
    rcases List.mem_cons.mp h with rfl | h
    · exact ⟨0, rfl, rfl⟩
    · obtain ⟨k, hkey, hvalue⟩ := ih h
      exact ⟨k + 1, by rw [hkey]; congr 2; omega, hvalue⟩
  | case4 => cases h

/-- Every part of a list, a tuple or a set is where its key says. -/
theorem part?_of_layout {s : Schema} {x : Value} {positions : List Position}
    {make : List Value → Except Fault Value} (h : s.layout? x = some (positions, make))
    (hx : x.Proper) {p : Position} (hp : p ∈ positions) :
    x.part? p.key = some p.value ∧ p.value.Proper := by
  unfold Schema.layout? at h
  split at h
  · next id flavor items =>
    cases h
    obtain ⟨k, hk, rfl⟩ := List.mem_mapIdx.mp hp
    cases hx with
    | list hitems => exact ⟨List.getElem?_eq_getElem hk, hitems _ (List.getElem_mem hk)⟩
  · next id frozen items =>
    cases h
    obtain ⟨y, hy, rfl⟩ := List.mem_map.mp hp
    cases hx with
    | set hdistinct hitems => exact ⟨hdistinct.find? hy, hitems y hy⟩
  · next m items rest =>
    obtain ⟨values, hvalues, heq⟩ := Option.map_eq_some_iff.mp h
    cases heq
    obtain ⟨k, hkey, hvalue⟩ := part?_of_positions hp
    rw [Nat.zero_add] at hkey
    rw [hkey]
    cases hx with
    | list hitems =>
      cases hvalues
      exact ⟨hvalue, hitems _ (List.mem_of_getElem? hvalue)⟩
    | tuple hitems =>
      cases hvalues
      exact ⟨hvalue, hitems _ (List.mem_of_getElem? hvalue)⟩
    | _ => cases hvalues
  · cases h

/-- Every entry of a mapping is where its key says. -/
theorem part?_of_entries {x : Value} {input : Value.Entries} (hinput : x.entries? = some input)
    (hx : x.Proper) {e : Value × Value} (he : e ∈ input) :
    x.part? e.1 = some e.2 ∧ e.2.Proper := by
  cases hx with
  | mapping hdistinct _ hvalues =>
    cases hinput
    exact ⟨hdistinct.get? he, hvalues e he⟩
  | _ => cases hinput

/-! ### Contributions -/

variable {ctx : Context} {I : Found → Prop} {R : Runs}

/-- The issues of a part trace from its value. -/
theorem traces_contribution {α : Type} {x y key : Value} {part : Dataset}
    (hpart : x.part? key = some y) (h : ∀ i ∈ part.issues, i.Traces U y) {put : Value → α → α}
    {i : Issue} (hi : i ∈ (part.contribution key put).issues) : i.Traces U x := by
  obtain ⟨j, hj, rfl⟩ := List.mem_map.mp hi
  exact (h j hj).under hpart

/-- The issue of an invalid value of a mapping. -/
theorem traces_value {l : Label} {t : Schema} {x key y : Value} {i : Issue} {messageKey : String}
    (hpart : x.part? key = some y) (h : Checked ctx I R l messageKey key t y (.inl i)) :
    i.Traces U x := by
  cases h with
  | refused _ _ _ _ hj =>
    obtain ⟨message, -, rfl⟩ := gives_report hj
    exact (traces_toIssue (fun _ => rfl) (by rintro _ ⟨⟩) message).under hpart

/-- The issue of an invalid key of a mapping: its input is the key. -/
theorem traces_key {s k : Schema} (hs : U s) (hk : s.keySchema? = some k) {x key y : Value}
    {i : Issue} {messageKey : String} (hpart : x.part? key = some y)
    (h : Checked ctx I R s.label messageKey key k key (.inl i)) : i.Traces U x := by
  cases h with
  | refused _ _ _ _ hj =>
    obtain ⟨message, -, rfl⟩ := gives_report hj
    refine .intro (.step hpart .here) (fun _ => .inr ?_) (by rintro _ ⟨⟩)
    exact ⟨s, k, hs, hk, rfl, rfl, rfl⟩

theorem traces_declared {m : Value} {n : Nat} {objectKind : ObjectKind} {extra : Extra}
    {absent : Absent} {entries : List (Value × Schema)}
    (hs : U (.object m n objectKind extra absent entries)) {id : Identity} {kind : MappingKind}
    {input : Value.Entries} (hx : (Value.mapping id kind input).Proper) {l : Label}
    {e : Value × Schema} (he : e ∈ entries)
    (hruns : ∀ y part, R e.2 y part → y.Proper → ∀ i ∈ part.issues, i.Traces U y)
    {c : Contribution Value.Entries} (hc : DeclaredBrings ctx I R l absent input e c) {i : Issue}
    (hi : i ∈ c.issues) : i.Traces U (.mapping id kind input) := by
  have hdeclared : Schema.Declares U e.1 := ⟨m, n, objectKind, extra, absent, entries, e.2, hs, he⟩
  cases hc with
  | @present y part hget hrun =>
    have hy : y.Proper := by
      obtain ⟨entry, hentry, rfl⟩ := Option.map_eq_some_iff.mp hget
      exact (part?_of_entries rfl hx (List.mem_of_find?_eq_some hentry)).2
    have hpart : (Value.mapping id kind input).part? e.1 = some y := hget
    exact traces_contribution hpart (hruns y part hrun hy) hi
  | @validated part hget _ hrun =>
    obtain ⟨j, hj, rfl⟩ := List.mem_map.mp hi
    exact (hruns _ part hrun .scalar j hj).under_missing hget hdeclared
  | skipped => cases hi
  | missing hget _ hj =>
    obtain ⟨message, -, rfl⟩ := gives_report hj
    obtain rfl := List.mem_singleton.mp hi
    have hhere : ((l.missing ctx.typeNames e.1 e.2.expects).toIssue message).Traces U .undefined :=
      .intro .here (fun _ => .inl rfl) (by rintro _ ⟨⟩)
    exact hhere.under_missing hget hdeclared

theorem traces_extra {l : Label} {kind : ObjectKind} {extra : Extra} {x y key : Value}
    (hpart : x.part? key = some y) {c : Contribution Value.Entries}
    (hc : ExtraBrings ctx I l kind extra (key, y) c) {i : Issue} (hi : i ∈ c.issues) :
    i.Traces U x := by
  cases hc with
  | dropped => cases hi
  | kept => cases hi
  | unexpected _ hj =>
    obtain ⟨message, -, rfl⟩ := gives_report hj
    obtain rfl := List.mem_singleton.mp hi
    exact (traces_toIssue (fun _ => rfl) (by rintro _ ⟨⟩) message).under hpart

/-! ### Outcomes -/

/-- A schema that supplies a value where there is none. -/
def Schema.isDefault : Schema → Bool
  | .wrapper _ (.default _) _ => true
  | _ => false

/-- The rules keep that all issues trace from the value. -/
theorem traces_of_outcome {s : Schema} (hs : U s) (hdefault : s.isDefault = false)
    (hruns : ∀ t y part, R t y part → y.Proper → ∀ i ∈ part.issues, i.Traces U y) {x : Value}
    {d : Dataset} (h : s.Outcome ctx I R x d) (hx : x.Proper) : ∀ i ∈ d.issues, i.Traces U x := by
  have hnone : ∀ {f : Finding}, f.reasons = none →
      ∀ reasons ∈ f.reasons, ∀ r ∈ reasons, Issue.Traces U x r := by
    intro f hreasons
    rw [hreasons]
    rintro _ ⟨⟩
  cases h with
  | accepted => simp [Dataset.valid]
  | rejected hj hverdict hi =>
    obtain ⟨hinput, hreasons⟩ := about_of_judgement hj hverdict
    obtain ⟨message, -, rfl⟩ := gives_report hi
    exact List.forall_mem_singleton.mpr
      (traces_toIssue (fun _ => hinput) (hnone hreasons) message)
  | objected hobjection hi =>
    obtain ⟨hinput, hreasons⟩ := about_of_objection hobjection
    obtain ⟨message, -, rfl⟩ := gives_report hi
    exact List.forall_mem_singleton.mpr
      (traces_toIssue (fun _ => hinput) (hnone hreasons) message)
  | untyped hrun => exact hruns _ _ _ hrun hx
  | passed hrun => exact hruns _ _ _ hrun hx
  | violated hrun _ _ hfinding hi =>
    obtain ⟨hkind, hreasons⟩ := kind_of_checkFinding hfinding
    obtain ⟨message, -, rfl⟩ := gives_report hi
    rw [Dataset.issues_violate]
    refine List.forall_mem_append.mpr ⟨hruns _ _ _ hrun hx, List.forall_mem_singleton.mpr ?_⟩
    refine traces_toIssue (fun hschema => ?_) (hnone hreasons) message
    rw [hkind] at hschema
    exact absurd hschema (by decide)
  | spared => simp [Dataset.valid]
  | wrapped _ _ hrun => exact hruns _ _ _ hrun hx
  | @supplied _ w _ _ v _ _ hsupplied =>
    cases w <;> first | cases hsupplied | cases hdefault
  | @overwritten _ _ inner _ _ e hrun => exact hruns inner x e hrun hx
  | untouched hrun => exact hruns _ _ _ hrun hx
  | behind _ hrun => exact hruns _ _ _ hrun hx
  | sequence _ hlayout hp hfinished =>
    rw [Gathering.issues_of_finished hfinished]
    intro i hi
    rcases Gathering.issue_of_path hp hi with hstart | ⟨p, hposition, c, hc, hi⟩
    · cases hstart
    · obtain ⟨hpart, hproper⟩ := part?_of_layout hlayout hx hposition
      cases hc with
      | run hrun => exact traces_contribution hpart (hruns _ _ _ hrun hproper) hi
  | @object m n objectKind extra absent entries _ input p _ hinput hp hfinished =>
    rw [Gathering.issues_of_finished hfinished]
    intro i hi
    rcases Gathering.issue_of_path hp hi with hstart | ⟨e, he, c, hc, hi⟩
    · cases hstart
    · cases hc with
      | @declared e c hc =>
        cases x with
        | mapping id kind input =>
          cases hinput
          have hentry : e ∈ entries := by simpa using he
          exact traces_declared hs hx hentry (hruns e.2) hc hi
        | _ => cases hinput
      | @extra e c hc =>
        have hentry : e ∈ Schema.undeclared entries input := by simpa using he
        have hpart := (part?_of_entries hinput hx (List.mem_of_mem_filter hentry)).1
        exact traces_extra hpart hc hi
  | map hinput _ hp hfinished =>
    rw [issues_of_mapFinished hfinished]
    intro i hi
    rcases Gathering.issue_of_path hp hi with hstart | ⟨e, he, c, hc, hi⟩
    · cases hstart
    · have hpart := (part?_of_entries hinput hx he).1
      cases hc with
      | badKey hkey =>
        obtain rfl := List.mem_singleton.mp hi
        exact traces_key hs rfl hpart hkey
      | badValue _ hvalue =>
        obtain rfl := List.mem_singleton.mp hi
        exact traces_value hpart hvalue
      | accepted => cases hi
  | record hinput hp hfinished =>
    rw [Gathering.issues_of_finished hfinished]
    intro i hi
    rcases Gathering.issue_of_path hp hi with hstart | ⟨e, he, c, hc, hi⟩
    · cases hstart
    · obtain ⟨hpart, hproper⟩ := part?_of_entries hinput hx he
      cases hc with
      | badKey hkey =>
        obtain rfl := List.mem_singleton.mp hi
        exact traces_key hs rfl hpart hkey
      | run _ hrun => exact traces_contribution hpart (hruns _ _ _ hrun hproper) hi
  | first => simp [Dataset.valid]
  | noneOf houtcomes hi =>
    obtain ⟨message, -, rfl⟩ := gives_report hi
    refine List.forall_mem_singleton.mpr (.intro .here (fun _ => .inl rfl) ?_)
    rintro reasons ⟨⟩ r hr
    obtain ⟨e, he, hr⟩ := List.mem_flatMap.mp hr
    obtain ⟨t, -, hrun⟩ := Schema.Outcome.exists_member_of_mem houtcomes he
    exact hruns t x e hrun hx r hr
  | intersection hp hmerged =>
    intro i hi
    rcases Schema.Outcome.issue_of_merged hmerged hi with hi | hi
    · rcases Gathering.issue_of_path hp hi with hstart | ⟨t, -, c, hc, hi⟩
      · cases hstart
      · cases hc with
        | run hrun => exact hruns _ _ _ hrun hx i hi
    · obtain ⟨message, -, rfl⟩ := gives_report hi
      have hvalue := Gathering.value_of_path hp
      exact traces_toIssue (fun _ => hvalue) (by rintro _ ⟨⟩) message

end

/-- The paths of all issues lead from the value to the offending ones, when no schema supplies
values of its own: step by step to a value that is there, or to a declared key that is missing; and
likewise the paths of nested issues, from where the issue is.  The input of an issue on the shape
of a value is the value that its path leads to, or the key for an invalid key of a mapping. -/
theorem issues_trace {ctx : Context} {s : Schema} {v : Value} {w w' : World} {d : Dataset}
    (hproper : v.Proper) (hdefault : ∀ t, ctx.Reaches w.resolved s t → t.isDefault = false)
    (hrun : s.run ctx (.fresh v) w = (.ok d, w')) :
    ∀ i ∈ d.issues, i.Traces (ctx.Reaches w.resolved s) v := by
  have hyields : ctx.Yields (ctx.Leads (ctx.Reaches w.resolved s)) s v d :=
    ⟨_, w, w', ctx.leads_reaches w.resolved s, hrun⟩
  refine yields_induction (ctx.closed_reaches w.resolved s) ?_ .start hyields hproper
    (P := fun _ x e => x.Proper → ∀ i ∈ e.issues, i.Traces (ctx.Reaches w.resolved s) x)
  intro t x e ht houtcome hx
  exact traces_of_outcome ht (hdefault t ht) (fun _ _ _ hpart => hpart.2.2) houtcome hx

/-- An author without a name, tagged under a key that is no text: the paths lead to the missing
name, to the key and to the tag. -/
theorem issues_trace_author :
    let ctx : Context := ⟨.default, [], [], [], ⟨fun _ _ _ => .error .callable, 0⟩⟩
    let text : Schema := .primitive .null .string
    let tags : Schema := .map .null .none text text
    let s : Schema := .object .null 0 .plain .strip .reject [(.str "name", text), (.str "tags", tags)]
    let input : Value := .ofMapping
      [(.str "tags", .ofMapping [(.int 1, .str "a"), (.str "b", .int 2)])]
    ∃ d u, s.run ctx (.fresh input) .empty = (.ok d, u) ∧ d.issues.length = 3 ∧
      ∀ i ∈ d.issues, i.Traces (ctx.Reaches [] s) input := by
  intro ctx text tags s input
  have hproper : input.Proper := by
    have hinner : (Value.ofMapping [(.int 1, .str "a"), (.str "b", .int 2)]).Proper := by
      refine .mapping ⟨by decide, by decide⟩ ?_ ?_
      · exact List.forall_mem_cons.mpr ⟨.scalar, List.forall_mem_singleton.mpr .scalar⟩
      · exact List.forall_mem_cons.mpr ⟨.scalar, List.forall_mem_singleton.mpr .scalar⟩
    refine .mapping ⟨by decide, by decide⟩ ?_ ?_
    · exact List.forall_mem_singleton.mpr .scalar
    · exact List.forall_mem_singleton.mpr hinner
  have hdefault : ∀ t, ctx.Reaches [] s t → t.isDefault = false := by
    intro t ht
    have hreaches : t = text ∨ t = tags ∨ t = s := by
      refine ht.closed (Q := fun t => t = text ∨ t = tags ∨ t = s) (.inr (.inr rfl)) ?_ ?_
      · rintro _ c (rfl | rfl | rfl) hc
        · cases hc
        · rcases List.mem_pair.mp hc with rfl | rfl <;> exact .inl rfl
        · rcases List.mem_pair.mp hc with rfl | rfl
          · exact .inl rfl
          · exact .inr (.inl rfl)
      · intro m id getter t h
        simp [text, tags, s] at h
    rcases hreaches with rfl | rfl | rfl <;> rfl
  obtain ⟨d, u, hrun, hthree⟩ : ∃ d u,
      s.run ctx (.fresh input) .empty = (.ok d, u) ∧ d.issues.length = 3 := by
    dsimp only [ctx, text, tags, s, input]
    refine ⟨_, _, rfl, ?_⟩
    rfl
  exact ⟨d, u, hrun, hthree, issues_trace hproper hdefault hrun⟩

end Conform
