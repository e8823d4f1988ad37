/-
  Conform/Proofs/Reach.lean
  =========================
  **What a run can reach.**  A run goes from a schema to its parts, and from a
  reference to the schema behind it: the one found before, or else the one
  defined (`Context.behind?`).  `Context.Reaches` is the closure of these steps.

  A world in which every reference that can be reached leads on to what can be
  reached stays such a world (`Context.Closed`, `keeps_validatorUpTo`).
-/
import Conform.Proofs.Effect
import Conform.Proofs.Gathering
import Conform.Proofs.Structure

namespace Conform

/-! ### References -/

/-- The schema behind a reference, given what has been found. -/
def Context.behind? (ctx : Context) (found : Found) (id : Nat) (getter : Getter) : Option Schema :=
  match found.lookup id, getter with
  | some s, _ => some s
  | none, .definition name =>
    match ctx.definitions.lookup name with
    | some (.schema s) => some s
    | _ => none
  | none, .callable _ => none

/-- A run that starts at a schema may come to another. -/
inductive Context.Reaches (ctx : Context) (found : Found) (s : Schema) : Schema → Prop where
  | start : Reaches ctx found s s
  | part {t c : Schema} : Reaches ctx found s t → c ∈ t.children → Reaches ctx found s c
  | reference {message : Value} {id : Nat} {getter : Getter} {t : Schema} :
    Reaches ctx found s (.lazy message id getter) → ctx.behind? found id getter = some t →
      Reaches ctx found s t

/-- A run stays among schemas that hold their parts and what is behind their references. -/
theorem Context.Reaches.closed {ctx : Context} {found : Found} {s t : Schema} {Q : Schema → Prop}
    (h : ctx.Reaches found s t) (hs : Q s) (hpart : ∀ t c, Q t → c ∈ t.children → Q c)
    (hreference : ∀ m id getter t, Q (.lazy m id getter) →
      ctx.behind? found id getter = some t → Q t) : Q t := by
  induction h with
  | start => exact hs
  | part _ hc ih => exact hpart _ _ ih hc
  | reference _ hbehind ih => exact hreference _ _ _ _ ih hbehind

/-- Schemas among which a run stays, as long as `I` holds of what has been found. -/
structure Context.Closed (ctx : Context) (I : Found → Prop) (U : Schema → Prop) : Prop where
  part {s c : Schema} : U s → c ∈ s.children → U c
  keeps {message : Value} {id : Nat} {getter : Getter} :
    U (.lazy message id getter) → Keeps I (ctx.force id getter)
  behind {message : Value} {id : Nat} {getter : Getter} {t : Schema} :
    U (.lazy message id getter) → Gives I (ctx.force id getter) t → U t

/-- Following a reference ends in a fault and finds nothing, or it gives what is behind the
reference, which is then kept for it. -/
theorem force_cases (ctx : Context) (id : Nat) (getter : Getter) (w : World) :
    ((∃ f, (ctx.force id getter w).1 = .error f) ∧
      (ctx.force id getter w).2.resolved = w.resolved) ∨
    ∃ s, ctx.behind? w.resolved id getter = some s ∧ (ctx.force id getter w).1 = .ok s ∧
      ((ctx.force id getter w).2.resolved = w.resolved ∨
        (ctx.force id getter w).2.resolved = (id, s) :: w.resolved) := by
  unfold Context.force
  rw [get_bind]
  cases hfound : w.resolved.lookup id with
  | some s => exact .inr ⟨s, by simp [Context.behind?, hfound], rfl, .inl rfl⟩
  | none =>
    cases getter with
    | definition name =>
      dsimp only
      rw [set_bind]
      cases hdefined : ctx.definitions.lookup name with
      | none => exact .inl ⟨⟨_, rfl⟩, rfl⟩
      | some given =>
        cases given with
        | value v => exact .inl ⟨⟨_, rfl⟩, rfl⟩
        | schema s => exact .inr ⟨s, by simp [Context.behind?, hfound, hdefined], rfl, .inr rfl⟩
    | callable callee =>
      have hkeep : Keeps (fun found => found = w.resolved) (ctx.invoke callee []) :=
        keeps_invoke ctx callee []
      have hresolved := hkeep w rfl
      refine .inl ?_
      simp only [bind, ExceptT.bind, ExceptT.mk, StateT.bind]
      rcases hcall : ctx.invoke callee [] w with ⟨f | v, w'⟩ <;> rw [hcall] at hresolved <;>
        exact ⟨⟨_, rfl⟩, hresolved⟩

section

variable {ctx : Context} {I : Found → Prop} {U : Schema → Prop}

/-! ### What validators keep -/

namespace Validator

theorem keeps_reject (d : Dataset) (message : Value) (f : Finding) :
    Keeps I (reject ctx d message f) :=
  keeps_bind (keeps_within d (keeps_report ctx message f)) fun _ _ => keeps_pure _

theorem keeps_apply {v : Validator} (h : ∀ d, Keeps I (v ctx d)) (x : Value) :
    Keeps I (v.apply ctx x) :=
  keeps_toEffect (h _)

theorem keeps_test (check : Check) (v : Value) : Keeps I (check.test ctx v) := by
  unfold Check.test
  split
  case h_13 => exact keeps_bind (keeps_invoke ctx _ _) fun _ _ => keeps_ofExcept _
  case h_2 =>
    split
    · split
      · exact keeps_throw _
      · exact keeps_pure _
    · exact keeps_pure _
  case h_9 => exact keeps_ofExcept _
  all_goals exact keeps_pure _

theorem keeps_supply (v : Value) : Keeps I (supply ctx v) := by
  unfold supply
  split
  · exact keeps_invoke ctx v []
  · exact keeps_pure v

theorem keeps_constraint {inner : Validator} (h : ∀ d, Keeps I (inner ctx d)) (message : Value)
    (check : Check) (name : String) (abort : Bool) (d : Dataset) :
    Keeps I (constraint message check name abort inner ctx d) := by
  unfold constraint
  refine keeps_bind (h d) fun e _ => ?_
  split
  · exact keeps_pure e
  · refine keeps_bind (keeps_within e (keeps_test check _)) fun passed _ => ?_
    split
    · exact keeps_pure e
    · refine keeps_bind (keeps_withinExcept e _) fun f _ =>
        keeps_bind (keeps_within e (keeps_report ctx message f)) fun i _ => ?_
      split <;> exact keeps_pure _

theorem keeps_wrapper {inner : Validator} (h : ∀ d, Keeps I (inner ctx d)) (w : Wrapping)
    (d : Dataset) : Keeps I (wrapper w inner ctx d) := by
  unfold wrapper
  split
  case h_4 => exact h d
  case h_5 =>
    split
    · exact keeps_bind (keeps_within d (keeps_supply _)) fun _ _ => h _
    · exact h d
  all_goals
    split
    · exact keeps_pure _
    · exact h d

theorem keeps_overwrite {inner : Validator} (h : ∀ d, Keeps I (inner ctx d)) (transform : Value)
    (d : Dataset) : Keeps I (overwrite transform inner ctx d) := by
  unfold overwrite
  refine keeps_bind (h d) fun e _ => ?_
  split
  · exact keeps_bind (keeps_within e (keeps_invoke ctx _ _)) fun _ _ => keeps_pure _
  · exact keeps_pure e

theorem keeps_lazy {resolve : Schema → Validator} {id : Nat} {getter : Getter}
    (hforce : Keeps I (ctx.force id getter))
    (h : ∀ t, Gives I (ctx.force id getter) t → ∀ d, Keeps I (resolve t ctx d)) (d : Dataset) :
    Keeps I (lazy resolve id getter ctx d) :=
  keeps_bind (keeps_within d hforce) fun t ht => h t (gives_within ht) d

theorem keeps_ifSized {d : Dataset} {next : Run Dataset} (h : Keeps I next) (l : Label)
    (limits : Limits) (size : Nat) : Keeps I (ifSized l limits size ctx d next) := by
  unfold ifSized
  refine keeps_bind (keeps_withinExcept d _) fun f? _ => ?_
  split
  · exact keeps_reject d _ _
  · exact h

theorem keeps_partStep {p : Part} (h : ∀ d, Keeps I (p.validator ctx d))
    (g : Gathering (List Value)) : Keeps I (partStep ctx p g) :=
  keeps_bind (keeps_within _ (keeps_apply h _)) fun _ _ => keeps_pure _

/-- The parts are validated one after another, and then the container is finished. -/
theorem keeps_parts {list : List Part} (h : ∀ p ∈ list, ∀ d, Keeps I (p.validator ctx d))
    (make : List Value → Except Fault Value) (d : Dataset) :
    Keeps I (parts ctx d list >>= fun p => p.finish make) :=
  keeps_bind (Gathering.keeps_steps (fun p hp => keeps_partStep (h p hp)) _)
    fun p _ => Gathering.keeps_finish make p

theorem keeps_array {item : Validator} (h : ∀ d, Keeps I (item ctx d)) (l : Label)
    (limits : Limits) (d : Dataset) : Keeps I (array l limits item ctx d) := by
  unfold array
  split
  · refine keeps_ifSized (keeps_parts ?_ _ d) l limits _
    simp only [indexed, List.mem_mapIdx]
    rintro p ⟨i, hi, rfl⟩
    exact h
  · exact keeps_reject d _ _

theorem keeps_set {item : Validator} (h : ∀ d, Keeps I (item ctx d)) (l : Label)
    (limits : Limits) (d : Dataset) : Keeps I (set l limits item ctx d) := by
  unfold set
  split
  · refine keeps_ifSized (keeps_parts ?_ _ d) l limits _
    simp only [List.mem_map]
    rintro p ⟨x, hx, rfl⟩
    exact h
  · exact keeps_reject d _ _

/-- Every part of a tuple is validated by one of the validators of the tuple. -/
theorem validator_of_positional {items : List Validator} {rest : Option Validator} {i : Nat}
    {xs : List Value} {p : Part} (h : p ∈ positional items rest i xs) :
    p.validator ∈ items ∨ rest = some p.validator := by
  fun_induction positional items rest i xs with
  | case1 => simp at h
  | case2 rest i x xs v vs ih =>
    rcases List.mem_cons.mp h with rfl | h
    · exact .inl List.mem_cons_self
    · exact (ih h).imp_left (List.mem_cons_of_mem _)
  | case3 i x xs r ih =>
    rcases List.mem_cons.mp h with rfl | h
    · exact .inr rfl
    · exact ih h
  | case4 => simp at h

theorem keeps_tuple {items : List Validator} {rest : Option Validator}
    (hitems : ∀ v ∈ items, ∀ d, Keeps I (v ctx d)) (hrest : ∀ v ∈ rest, ∀ d, Keeps I (v ctx d))
    (l : Label) (d : Dataset) : Keeps I (tuple l items rest ctx d) := by
  unfold tuple
  split
  · exact keeps_reject d _ _
  · dsimp only
    split
    · exact keeps_reject d _ _
    · split
      · exact keeps_reject d _ _
      · refine keeps_parts (fun p hp => ?_) _ d
        rcases validator_of_positional hp with h | h
        · exact hitems _ h
        · exact hrest _ h

theorem keeps_check {v : Validator} (h : ∀ d, Keeps I (v ctx d)) (x : Value) :
    Keeps I (v.check ctx x) := by
  unfold check
  refine keeps_bind (keeps_apply h x) fun d _ => ?_
  split
  · exact keeps_pure _
  · exact keeps_pure _
  · exact keeps_throw _

theorem keeps_entryIssue (l : Label) (messageKey : String) (key input : Value) (slot : Slot)
    (reason : Value) : Keeps I (entryIssue l ctx messageKey key input slot reason) :=
  keeps_bind (keeps_report ctx _ _) fun _ _ => keeps_pure _

theorem keeps_entryCheck {slot : Slot} (h : ∀ d, Keeps I (slot.validator ctx d)) (l : Label)
    (messageKey : String) (key input : Value) :
    Keeps I (entryCheck l ctx messageKey key input slot) := by
  unfold entryCheck
  refine keeps_bind (keeps_check h input) fun signal _ => ?_
  cases signal with
  | asIs => exact keeps_pure _
  | replaced w => exact keeps_pure _
  | failed reason => exact keeps_bind (keeps_entryIssue l messageKey key input slot reason) fun _ _ => keeps_pure _

theorem keeps_mapStep {key value : Slot} (hkey : ∀ d, Keeps I (key.validator ctx d))
    (hvalue : ∀ d, Keeps I (value.validator ctx d)) (l : Label) (entry : Value × Value)
    (g : Gathering Borrowed) : Keeps I (mapStep l key value ctx entry g) := by
  unfold mapStep
  refine keeps_bind (keeps_within _ (keeps_entryCheck hkey l _ _ _)) fun r _ => ?_
  cases r with
  | inl i => exact keeps_pure _
  | inr checked =>
    refine keeps_bind (keeps_within _ (keeps_entryCheck hvalue l _ _ _)) fun r _ => ?_
    cases r with
    | inl i => exact keeps_pure _
    | inr checked' =>
      dsimp only
      split
      · split
        · exact keeps_pure _
        · exact keeps_throw _
      · exact keeps_pure _

theorem keeps_map {key value : Slot} (hkey : ∀ d, Keeps I (key.validator ctx d))
    (hvalue : ∀ d, Keeps I (value.validator ctx d)) (l : Label) (limits : Limits) (d : Dataset) :
    Keeps I (map l limits key value ctx d) := by
  unfold map
  split
  · exact keeps_reject d _ _
  · refine keeps_ifSized (keeps_bind (Gathering.keeps_steps
      (fun entry _ => keeps_mapStep hkey hvalue l entry) _) fun p _ => ?_) l limits _
    cases p with
    | stopped d => exact Gathering.keeps_giveUp d
    | going g =>
      dsimp only
      split
      · exact keeps_pure _
      · exact Gathering.keeps_giveUp _

theorem keeps_recordStep {key : Slot} {value : Validator}
    (hkey : ∀ d, Keeps I (key.validator ctx d)) (hvalue : ∀ d, Keeps I (value ctx d)) (l : Label)
    (entry : Value × Value) (g : Gathering Value.Entries) :
    Keeps I (recordStep l key value ctx entry g) := by
  unfold recordStep
  refine keeps_bind (keeps_within _ (keeps_entryCheck hkey l _ _ _)) fun r _ => ?_
  cases r with
  | inl i => exact keeps_pure _
  | inr checked =>
    refine keeps_bind (keeps_within _ (keeps_apply hvalue _)) fun part _ => ?_
    dsimp only
    split
    · split
      · exact keeps_throw _
      · exact keeps_pure _
    · exact keeps_pure _

theorem keeps_record {key : Slot} {value : Validator} (hkey : ∀ d, Keeps I (key.validator ctx d))
    (hvalue : ∀ d, Keeps I (value ctx d)) (l : Label) (d : Dataset) :
    Keeps I (record l key value ctx d) := by
  unfold record
  split
  · exact keeps_reject d _ _
  · exact keeps_bind (Gathering.keeps_steps (fun entry _ => keeps_recordStep hkey hvalue l entry) _)
      fun p _ => Gathering.keeps_finish _ p

theorem keeps_entryStep {e : Entry} (h : ∀ d, Keeps I (e.validator ctx d)) (l : Label)
    (absent : Absent) (input : Value.Entries) (g : Gathering Value.Entries) :
    Keeps I (entryStep l absent input ctx e g) := by
  unfold entryStep
  split
  · exact keeps_bind (keeps_within _ (keeps_apply h _)) fun _ _ => keeps_pure _
  · cases absent with
    | validate => exact keeps_bind (keeps_within _ (keeps_apply h _)) fun _ _ => keeps_pure _
    | skip => exact keeps_pure _
    | reject =>
      exact keeps_bind (keeps_within _ (keeps_bind (keeps_report ctx _ _) fun _ _ => keeps_pure _))
        fun _ _ => keeps_pure _

theorem keeps_extraIssue (l : Label) (kind : ObjectKind) (key v : Value) :
    Keeps I (extraIssue l kind ctx key v) := by
  unfold extraIssue
  split
  · exact keeps_bind (keeps_throw _) fun _ _ => keeps_bind (keeps_report ctx _ _) fun _ _ =>
      keeps_pure _
  · exact keeps_bind (keeps_report ctx _ _) fun _ _ => keeps_pure _

theorem keeps_extraStep (l : Label) (kind : ObjectKind) (extra : Extra) (entry : Value × Value)
    (g : Gathering Value.Entries) : Keeps I (extraStep l kind extra ctx entry g) := by
  cases extra with
  | strip => exact keeps_pure _
  | loose => exact keeps_pure _
  | strict => exact keeps_bind (keeps_within _ (keeps_extraIssue l kind _ _)) fun _ _ => keeps_pure _

theorem keeps_object {entries : List Entry}
    (h : ∀ e ∈ entries, ∀ d, Keeps I (e.validator ctx d)) (l : Label) (kind : ObjectKind)
    (extra : Extra) (absent : Absent) (d : Dataset) :
    Keeps I (object l kind extra absent entries ctx d) := by
  unfold object
  split
  · exact keeps_reject d _ _
  · refine keeps_bind (Gathering.keeps_steps (fun e he => keeps_entryStep (h e he) l absent _) _)
      fun p _ => ?_
    cases p with
    | going g =>
      exact keeps_bind (Gathering.keeps_steps
        (fun entry _ => keeps_extraStep l kind extra entry) g) fun p _ =>
          Gathering.keeps_finish _ p
    | stopped d => exact Gathering.keeps_giveUp d

theorem keeps_firstSuccess {members : List Validator} (h : ∀ m ∈ members, ∀ d, Keeps I (m ctx d))
    (v : Value) (issues : List Issue) : Keeps I (firstSuccess ctx v members issues) := by
  induction members generalizing issues with
  | nil => exact keeps_pure _
  | cons m rest ih =>
    rw [List.forall_mem_cons] at h
    unfold firstSuccess
    refine keeps_bind (keeps_apply h.1 v) fun d _ => ?_
    split
    · exact keeps_pure _
    · exact ih h.2 _

theorem keeps_union {members : List Validator} (h : ∀ m ∈ members, ∀ d, Keeps I (m ctx d))
    (l : Label) (d : Dataset) : Keeps I (union l members ctx d) := by
  unfold union
  refine keeps_bind (keeps_within d (keeps_firstSuccess h _ _)) fun r _ => ?_
  cases r with
  | inl v => exact keeps_pure _
  | inr issues => exact keeps_reject d _ _

theorem keeps_memberStep {m : Validator} (h : ∀ d, Keeps I (m ctx d)) (v : Value)
    (g : Gathering (List Value)) : Keeps I (memberStep v ctx m g) := by
  unfold memberStep
  refine keeps_bind (keeps_within _ (keeps_apply h v)) fun part _ => ?_
  dsimp only
  split
  · exact keeps_pure _
  · split <;> exact keeps_pure _

theorem keeps_intersection {members : List Validator}
    (h : ∀ m ∈ members, ∀ d, Keeps I (m ctx d)) (l : Label) (d : Dataset) :
    Keeps I (intersection l members ctx d) := by
  unfold intersection
  refine keeps_bind (Gathering.keeps_steps (fun m hm => keeps_memberStep (h m hm) _) _)
    fun p _ => ?_
  cases p with
  | stopped d => exact Gathering.keeps_giveUp d
  | going g =>
    dsimp only
    split
    · refine keeps_bind (keeps_withinExcept _ _) fun merged _ => ?_
      cases merged with
      | none => exact keeps_reject _ _ _
      | some output =>
        dsimp only
        split <;> exact keeps_pure _
    · exact Gathering.keeps_giveUp _

end Validator

/-! ### What schemas keep -/

theorem Schema.keeps_validator (hclosed : ctx.Closed I U) {resolve : Schema → Validator}
    (hresolve : ∀ t, U t → ∀ d, Keeps I (resolve t ctx d)) {s : Schema} (hs : U s) :
    ∀ d, Keeps I (s.validator resolve ctx d) := by
  intro d
  induction s generalizing d with
  | primitive m p =>
    simp only [Schema.validator, Validator.primitive]
    split
    · exact keeps_pure _
    · exact Validator.keeps_reject d _ _
  | anything m unknown => exact keeps_pure _
  | never m => exact Validator.keeps_reject d _ _
  | coerce m t =>
    refine keeps_bind (keeps_withinExcept d _) fun v? _ => ?_
    cases v? with
    | some v => exact keeps_pure _
    | none => exact Validator.keeps_reject d _ _
  | literal m v expects =>
    refine keeps_bind (keeps_withinExcept d _) fun equal _ => ?_
    split
    · exact keeps_pure _
    · exact Validator.keeps_reject d _ _
  | enum m keys values expects =>
    refine keeps_bind (keeps_withinExcept d _) fun among _ => ?_
    split
    · exact keeps_pure _
    · exact Validator.keeps_reject d _ _
  | nativeEnum m e =>
    refine keeps_bind (keeps_withinExcept d _) fun among _ => ?_
    split
    · exact keeps_pure _
    · exact Validator.keeps_reject d _ _
  | constraint m check name abort inner ih =>
    have hinner : U inner := hclosed.part hs (by simp [Schema.children])
    exact Validator.keeps_constraint (ih hinner) m check name abort d
  | wrapper m w inner ih =>
    have hinner : U inner := hclosed.part hs (by simp [Schema.children])
    exact Validator.keeps_wrapper (ih hinner) w d
  | overwrite m transform inner ih =>
    have hinner : U inner := hclosed.part hs (by simp [Schema.children])
    exact Validator.keeps_overwrite (ih hinner) transform d
  | lazy m id getter =>
    exact Validator.keeps_lazy (hclosed.keeps hs)
      (fun t ht => hresolve t (hclosed.behind hs ht)) d
  | object m id kind extra absent entries ih =>
    simp only [Schema.validator, Schema.entryValidators_eq_map]
    refine Validator.keeps_object ?_ _ kind extra absent d
    simp only [List.mem_map]
    rintro v ⟨e, he, rfl⟩
    have hentry : U e.2 := hclosed.part hs (List.mem_map_of_mem he)
    exact ih e he hentry
  | array m limits item ih =>
    have hitem : U item := hclosed.part hs (by simp [Schema.children])
    exact Validator.keeps_array (ih hitem) _ limits d
  | set m limits item ih =>
    have hitem : U item := hclosed.part hs (by simp [Schema.children])
    exact Validator.keeps_set (ih hitem) _ limits d
  | tuple m items rest ihItems ihRest =>
    rw [Schema.validator_tuple]
    refine Validator.keeps_tuple ?_ ?_ _ d
    · simp only [List.mem_map]
      rintro v ⟨c, hc, rfl⟩
      have hitem : U c := hclosed.part hs (by simp [Schema.children, hc])
      exact ihItems c hc hitem
    · simp only [Option.mem_def, Option.map_eq_some_iff]
      rintro v ⟨r, hr, rfl⟩
      have hr' : U r := hclosed.part hs (by simp [Schema.children, hr])
      exact ihRest r hr hr'
  | map m limits key value ihKey ihValue =>
    have hkey : U key := hclosed.part hs (by simp [Schema.children])
    have hvalue : U value := hclosed.part hs (by simp [Schema.children])
    exact Validator.keeps_map (ihKey hkey) (ihValue hvalue) _ limits d
  | record m key value ihKey ihValue =>
    have hkey : U key := hclosed.part hs (by simp [Schema.children])
    have hvalue : U value := hclosed.part hs (by simp [Schema.children])
    exact Validator.keeps_record (ihKey hkey) (ihValue hvalue) _ d
  | union m members ih =>
    simp only [Schema.validator, Schema.validators_eq_map]
    refine Validator.keeps_union ?_ _ d
    simp only [List.mem_map]
    rintro v ⟨c, hc, rfl⟩
    have hmember : U c := hclosed.part hs hc
    exact ih c hc hmember
  | intersection m members ih =>
    simp only [Schema.validator, Schema.validators_eq_map]
    refine Validator.keeps_intersection ?_ _ d
    simp only [List.mem_map]
    rintro v ⟨c, hc, rfl⟩
    have hmember : U c := hclosed.part hs hc
    exact ih c hc hmember

/-- A run that starts among closed schemas keeps `I`. -/
theorem Schema.keeps_validatorUpTo (hclosed : ctx.Closed I U) (n : Nat) {s : Schema} (hs : U s)
    (d : Dataset) : Keeps I (s.validatorUpTo n ctx d) := by
  induction n generalizing s d with
  | zero => exact Schema.keeps_validator hclosed (fun _ _ _ => keeps_throw _) hs d
  | succ n ih => exact Schema.keeps_validator hclosed (fun t ht e => ih ht e) hs d

/-! ### Closed schemas -/

/-- Whatever references lead on to is among the schemas `U`. -/
def Context.Leads (ctx : Context) (U : Schema → Prop) (found : Found) : Prop :=
  ∀ message id getter t, U (.lazy message id getter) → ctx.behind? found id getter = some t → U t

theorem behind?_cons (ctx : Context) (found : Found) (id : Nat) (s : Schema) (id' : Nat)
    (getter : Getter) :
    ctx.behind? ((id, s) :: found) id' getter =
      if id' == id then some s else ctx.behind? found id' getter := by
  unfold Context.behind?
  rw [List.lookup_cons]
  cases h : id' == id <;> rfl

/-- Schemas are closed when their parts are among them and their references lead to them. -/
theorem Context.closed_of_leads (hpart : ∀ s c, U s → c ∈ s.children → U c) :
    ctx.Closed (ctx.Leads U) U where
  part hs hc := hpart _ _ hs hc
  keeps {message id getter} hs := by
    intro w hleads
    rcases force_cases ctx id getter w with ⟨-, hsame⟩ | ⟨t, hbehind, -, hsame | hnew⟩
    · rwa [hsame]
    · rwa [hsame]
    · rw [hnew]
      intro message' id' getter' t' hs' hbehind'
      rw [behind?_cons] at hbehind'
      split at hbehind'
      · cases hbehind'
        exact hleads _ _ _ _ hs hbehind
      · exact hleads _ _ _ _ hs' hbehind'
  behind {message id getter t} hs h := by
    obtain ⟨w, w', hleads, hrun⟩ := h
    rcases force_cases ctx id getter w with ⟨⟨f, hfault⟩, -⟩ | ⟨t', hbehind, hgiven, -⟩
    · rw [hrun] at hfault
      cases hfault
    · rw [hrun] at hgiven
      cases hgiven
      exact hleads _ _ _ _ hs hbehind

/-- What a run can reach from a schema is closed. -/
theorem Context.closed_reaches (ctx : Context) (found : Found) (s : Schema) :
    ctx.Closed (ctx.Leads (ctx.Reaches found s)) (ctx.Reaches found s) :=
  closed_of_leads fun _ _ ht hc => .part ht hc

theorem Context.leads_reaches (ctx : Context) (found : Found) (s : Schema) :
    ctx.Leads (ctx.Reaches found s) found :=
  fun _ _ _ _ hs hbehind => .reference hs hbehind

/-- All schemas are closed. -/
theorem closed_true (ctx : Context) : ctx.Closed (fun _ => True) fun _ => True :=
  ⟨fun _ _ => trivial, fun _ _ _ => trivial, fun _ _ => trivial⟩

/-- What has been found leads where the earlier findings lead, among the schemas `U`. -/
def Context.Pins (ctx : Context) (U : Schema → Prop) (earlier found : Found) : Prop :=
  ∀ message id getter, U (.lazy message id getter) →
    ctx.behind? found id getter = ctx.behind? earlier id getter

/-- References with one number are one reference. -/
def Schema.NumberedApart (U : Schema → Prop) : Prop :=
  ∀ message message' id getter getter', U (.lazy message id getter) →
    U (.lazy message' id getter') → getter = getter'

theorem gives_force_of_pins {earlier : Found} {message : Value} {id : Nat} {getter : Getter}
    {t : Schema} (hs : U (.lazy message id getter))
    (h : Gives (ctx.Pins U earlier) (ctx.force id getter) t) :
    ctx.behind? earlier id getter = some t := by
  obtain ⟨w, w', hpins, hrun⟩ := h
  rcases force_cases ctx id getter w with ⟨⟨f, hfault⟩, -⟩ | ⟨t', hbehind, hgiven, -⟩
  · rw [hrun] at hfault
    cases hfault
  · rw [hrun] at hgiven
    cases hgiven
    rw [← hpins _ _ _ hs, hbehind]

/-- When references are numbered apart, it stays settled where they lead. -/
theorem Context.closed_of_pins {earlier : Found} (hapart : Schema.NumberedApart U)
    (hpart : ∀ s c, U s → c ∈ s.children → U c) (hleads : ctx.Leads U earlier) :
    ctx.Closed (ctx.Pins U earlier) U where
  part hs hc := hpart _ _ hs hc
  keeps {message id getter} hs := by
    intro w hpins
    rcases force_cases ctx id getter w with ⟨-, hsame⟩ | ⟨t, hbehind, -, hsame | hnew⟩
    · rwa [hsame]
    · rwa [hsame]
    · rw [hnew]
      intro message' id' getter' hs'
      rw [behind?_cons]
      split
      · next hid =>
        obtain rfl := beq_iff_eq.mp hid
        obtain rfl := hapart _ _ _ _ _ hs hs'
        rw [← hpins _ _ _ hs, hbehind]
      · exact hpins _ _ _ hs'
  behind hs h := hleads _ _ _ _ hs (gives_force_of_pins hs h)

end

end Conform
