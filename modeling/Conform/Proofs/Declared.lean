/-
  Conform/Proofs/Declared.lean
  ============================
  **What an object comes to.**  An object accepts a mapping exactly when each of its
  declared keys comes to something, one after another, and no key is there that may not
  be.  Its output lists the declared keys first, in the order of their declaration, each
  with what it has come to, and leaves out those that have come to nothing at all
  (`listed`); the keys that are not declared follow, if they are kept (`object_success_iff`).

  How an object deals with a key that is absent, and with one that is not declared, are
  two choices that do not meet: the first decides what a declared key comes to
  (`Entry.output`), the second what is to follow (`extraSteps_clean_iff`).
-/
import Conform.Proofs.Outputs

namespace Conform

open Validator

namespace Validator

/-- What a declared key comes to: what its schema makes of the value under it.  If the key is absent, that
is what the schema makes of the undefined value, or the undefined value, or nothing. -/
def Entry.output (absent : Absent) (input : Value.Entries) (ctx : Context) (e : Entry) :
    Effect (Option Value) :=
  match input.get? e.key with
  | some v => e.validator.output ctx v
  | none =>
    match absent with
    | .validate => e.validator.output ctx .undefined
    | .skip => return some .undefined
    | .reject => return none

/-- Keys with what they have come to, those left out that have come to the undefined value. -/
def listed (keys outputs : List Value) : Value.Entries :=
  (keys.zip outputs).filter fun e => !e.2.isUndefined

/-- A container ends with success exactly when it has gathered all its parts without issues, and then it
ends with what is made of them. -/
theorem finish_success_iff {α : Type} {r : Run (Progress α)} {make : α → Except Fault Value} {y : Value}
    {w u : World} :
    (∃ d, (r >>= fun p => p.finish make) w = (.ok d, u) ∧ d.status = .success ∧ d.value = y) ↔
      ∃ g, r w = (.ok (.going g), u) ∧ g.dataset.issues = [] ∧ make g.output = .ok y := by
  constructor
  · rintro ⟨d, h, hstatus, rfl⟩
    obtain ⟨p, v, hr, hend⟩ := bind_eq_ok h
    obtain rfl := world_of_finish hend
    have hfinished := Gathering.gives_finish (I := fun _ => True) ⟨v, v, trivial, hend⟩
    cases hfinished with
    | valid hclean hmake => exact ⟨_, hr, hclean, hmake⟩
    | stopped | partly | failed => cases hstatus
  · rintro ⟨g, hr, hclean, hmake⟩
    refine ⟨g.dataset.succeed y, ?_, rfl, rfl⟩
    rw [bind_of_eq_ok hr, Progress.finish, hmake]
    have hfinish : g.dataset.finish y g.typed = .ok (g.dataset.succeed y) := by
      rw [Dataset.finish, hclean]
      rfl
    exact congrArg (fun r => withinExcept g.dataset r u) hfinish

/-! ### Declared keys -/

section

variable {ctx : Context} {I : Found → Prop} {R : Runs} {l : Label} {absent : Absent}
  {input : Value.Entries}

/-- A declared key goes on without issues exactly when it comes to something, which is then written. -/
theorem entryStep_clean_iff {s : Schema} {e : Entry} (hv : Follows ctx I R e.validator s)
    (hsettled : ∀ x d, R s x d → d.Settled ctx) {g g' : Gathering Value.Entries} {w u : World}
    (hI : I w.resolved) :
    entryStep l absent input ctx e g w = (.ok (.going g'), u) ∧ g'.dataset.issues = [] ↔
      g.dataset.issues = [] ∧ ∃ y, e.output absent input ctx w = (.ok (some y), u) ∧
        g' = { g with output := putEntry e.key y g.output } := by
  have validated (x : Value) := take_clean_iff (g := g) (q := g') (w := w) (u := u) hv hsettled
    (x := x) (·.under e.key) (putEntry e.key) hI
  unfold entryStep Entry.output
  simp only [Gathering.take_eq_receive]
  cases hget : input.get? e.key with
  | some x => exact validated x
  | none =>
    cases absent with
    | validate => exact validated .undefined
    | skip =>
      constructor
      · rintro ⟨h, hclean⟩
        cases h
        exact ⟨hclean, .undefined, rfl, rfl⟩
      · rintro ⟨hclean, y, h, rfl⟩
        cases h
        exact ⟨rfl, hclean⟩
    | reject =>
      constructor
      · rintro ⟨h, hclean⟩
        obtain ⟨i, v, -, h⟩ := bind_eq_ok h
        rw [Gathering.addIssue_eq_receive] at h
        obtain rfl := Gathering.eq_of_receive (pure_eq_ok h).1
        exact absurd hclean (List.append_ne_nil_of_right_ne_nil _ (List.cons_ne_nil i []))
      · rintro ⟨-, y, h, -⟩
        cases h

theorem putAll_putEntry {entries : List Entry} {outputs : List Value} {output : Value.Entries} :
    putAll (fun e y => putEntry e.key y) entries outputs output =
      output ++ listed (entries.map (·.key)) outputs := by
  induction entries generalizing outputs output with
  | nil => exact (List.append_nil output).symm
  | cons e rest ih =>
    cases outputs with
    | nil => exact (List.append_nil output).symm
    | cons y ys =>
      rw [putAll, ih, putEntry]
      cases hy : y.isUndefined <;> simp [listed, hy]

/-- Declared keys go on without issues exactly when each comes to something; the list of these is
written. -/
theorem entrySteps_clean_iff {U : Schema → Prop} (hclosed : ctx.Closed I U) {entries : List Entry}
    (hfollows : ∀ e ∈ entries, ∃ s, U s ∧
      Follows ctx I (fun c y d => U c ∧ ctx.Yields I c y d) e.validator s)
    {x : Value} {g : Gathering Value.Entries} {w u : World} (hI : I w.resolved) :
    Gathering.steps (entryStep l absent input ctx) entries (.start (.fresh x) []) w =
          (.ok (.going g), u) ∧ g.dataset.issues = [] ↔
      ∃ outputs, each (Entry.output absent input ctx) entries w = (.ok (some outputs), u) ∧
        g = ⟨.fresh x, listed (entries.map (·.key)) outputs, true⟩ := by
  have hsteps := @steps_clean_iff Entry Value Value.Entries I (entryStep l absent input ctx)
    (Entry.output absent input ctx) (fun e y => putEntry e.key y) entries
    (fun e he g => by
      obtain ⟨s, -, hv⟩ := hfollows e he
      exact keeps_entryStep hv.keeps _ absent input g)
    (fun e he g g' w u hI => by
      obtain ⟨s, hs, hv⟩ := hfollows e he
      exact entryStep_clean_iff hv (fun x d hd => settled_of_yields hclosed hs hd.2) hI)
    (.start (.fresh x) []) g w u hI
  have hput (outputs : List Value) : putAll (fun e y => putEntry e.key y) entries outputs [] =
      listed (entries.map (·.key)) outputs := putAll_putEntry
  rw [hsteps]
  constructor
  · rintro ⟨-, outputs, heach, rfl⟩
    exact ⟨outputs, heach, congrArg (Gathering.mk (.fresh x) · true) (hput outputs)⟩
  · rintro ⟨outputs, heach, rfl⟩
    exact ⟨rfl, outputs, heach, congrArg (Gathering.mk (.fresh x) · true) (hput outputs).symm⟩

/-! ### Keys that are not declared -/

/-- Where they are kept, the keys that are not declared are written. -/
theorem looseSteps (kind : ObjectKind) (es : Value.Entries) (g : Gathering Value.Entries) :
    Gathering.steps (extraStep l kind .loose ctx) es g =
      return .going { g with output := g.output ++ es } := by
  induction es generalizing g with
  | nil => simp [Gathering.steps]
  | cons e rest ih =>
    rw [Gathering.steps, extraStep, pure_bind]
    refine (ih _).trans ?_
    rw [List.append_assoc, List.singleton_append]

/-- Where there may be none, a key that is not declared brings an issue. -/
theorem nil_of_strictSteps {kind : ObjectKind} {es : Value.Entries} {g g' : Gathering Value.Entries}
    {w u : World} (h : Gathering.steps (extraStep l kind .strict ctx) es g w = (.ok (.going g'), u))
    (hclean : g'.dataset.issues = []) : es = [] := by
  have hpath := Gathering.gives_steps (I := fun _ => True)
    (fun e _ => keeps_extraStep l kind .strict e) (fun e _ _ _ => gives_extraStep)
    ⟨w, u, trivial, h⟩
  obtain ⟨-, hnone⟩ := Gathering.clean_of_path hpath hclean
  cases es with
  | nil => rfl
  | cons e rest =>
    obtain ⟨c, hc, hissues⟩ := hnone e List.mem_cons_self
    cases hc with
    | dropped h => cases h
    | kept h => cases h
    | unexpected => cases hissues

/-- The keys that are not declared go on without issues exactly when there are none where there may be
none; they are written if they are kept. -/
theorem extraSteps_clean_iff {kind : ObjectKind} {extra : Extra} {es : Value.Entries}
    {g g' : Gathering Value.Entries} {w u : World} :
    Gathering.steps (extraStep l kind extra ctx) es g w = (.ok (.going g'), u) ∧
        g'.dataset.issues = [] ↔
      g.dataset.issues = [] ∧ w = u ∧ (extra = .strict → es = []) ∧
        g' = { g with output := g.output ++ if extra = .loose then es else [] } := by
  have kept {h : Gathering Value.Entries} : h = g ↔ h = { g with output := g.output ++ [] } := by
    rw [List.append_nil]
  cases extra with
  | strip =>
    have hsteps : Gathering.steps (extraStep l kind .strip ctx) es g = return .going g :=
      Gathering.steps_going es g
    rw [hsteps]
    constructor
    · rintro ⟨h, hclean⟩
      cases h
      exact ⟨hclean, rfl, fun h => (by cases h), kept.mp rfl⟩
    · rintro ⟨hclean, rfl, -, hg⟩
      obtain rfl := kept.mpr hg
      exact ⟨rfl, hclean⟩
  | loose =>
    rw [looseSteps]
    constructor
    · rintro ⟨h, hclean⟩
      cases h
      exact ⟨hclean, rfl, fun h => (by cases h), rfl⟩
    · rintro ⟨hclean, rfl, -, rfl⟩
      exact ⟨rfl, hclean⟩
  | strict =>
    constructor
    · rintro ⟨h, hclean⟩
      obtain rfl := nil_of_strictSteps h hclean
      cases h
      exact ⟨hclean, rfl, fun _ => rfl, kept.mp rfl⟩
    · rintro ⟨hclean, rfl, hnone, hg⟩
      obtain rfl := hnone rfl
      obtain rfl := kept.mpr hg
      exact ⟨rfl, hclean⟩

end

theorem object_of_mapping (l : Label) (kind : ObjectKind) (extra : Extra) (absent : Absent)
    (entries : List Entry) (ctx : Context) (identity : Identity) (mappingKind : MappingKind)
    (input : Value.Entries) :
    let d := Dataset.fresh (.mapping identity mappingKind input)
    object l kind extra absent entries ctx d =
      (Gathering.steps (entryStep l absent input ctx) entries (.start d []) >>= fun p =>
        match p with
        | .going g => Gathering.steps (extraStep l kind extra ctx) (undeclared entries input) g
        | .stopped d => pure (.stopped d)) >>= fun p =>
      p.finish fun output => .ok (.ofMapping output) := by
  intro d
  rw [bind_assoc]
  refine bind_congr fun p => ?_
  cases p <;> rfl

end Validator

/-- What an object comes to.  It accepts a mapping exactly when each declared key comes to something, one
after another, and no key is left over where none may be.  Its output is a new mapping: the declared keys
in order, each with what it has come to, without those that have come to the undefined value; and then,
if they are kept, the entries of the mapping whose keys are not declared. -/
theorem object_success_iff {ctx : Context} {m : Value} {id : Nat} {kind : ObjectKind} {extra : Extra}
    {absent : Absent} {entries : List (Value × Schema)} {x y : Value} {input : Value.Entries}
    (hinput : x.entries? = some input) {w u : World} :
    let s := Schema.object m id kind extra absent entries
    let declared := entries.map fun e : Value × Schema =>
      (⟨e.1, e.2.expects, e.2.validatorUpTo (ctx.bound s x)⟩ : Entry)
    (∃ d, s.run ctx (.fresh x) w = (.ok d, u) ∧ d.status = .success ∧ d.value = y) ↔
      ∃ outputs, each (Entry.output absent input ctx) declared w = (.ok (some outputs), u) ∧
        (extra = .strict → undeclared declared input = []) ∧
        y = .ofMapping (listed (entries.map (·.1)) outputs ++
          if extra = .loose then undeclared declared input else []) := by
  intro s declared
  have hclosed := ctx.closed_reaches w.resolved s
  have hstart := ctx.leads_reaches w.resolved s
  have hdeclared : Schema.entryValidators (Schema.resolveUpTo (ctx.bound s x)) entries = declared := by
    simp only [Schema.entryValidators_eq_map, declared, Schema.validatorUpTo_eq]
  have hfollows : ∀ e ∈ declared, ∃ t, ctx.Reaches w.resolved s t ∧ Follows ctx
      (ctx.Leads (ctx.Reaches w.resolved s))
      (fun c y d => ctx.Reaches w.resolved s c ∧ ctx.Yields (ctx.Leads (ctx.Reaches w.resolved s)) c y d)
      e.validator t := by
    intro e he
    obtain ⟨f, hf, rfl⟩ := List.mem_map.mp he
    have hreach := hclosed.part .start (c := f.2) (List.mem_map_of_mem hf)
    refine ⟨f.2, hreach, ?_⟩
    rw [Schema.validatorUpTo_eq]
    exact follows_validator hclosed _ hreach
  have hkeys : declared.map (·.key) = entries.map (·.1) := List.map_map
  cases x with
  | mapping identity mappingKind es =>
    cases hinput
    have hrun : s.run ctx (.fresh (.mapping identity mappingKind input)) =
        object s.label kind extra absent declared ctx (.fresh (.mapping identity mappingKind input)) := by
      rw [← hdeclared, Schema.run, Schema.validatorUpTo_eq]
      rfl
    rw [hrun, object_of_mapping, finish_success_iff]
    constructor
    · rintro ⟨g', h, hclean, hmake⟩
      obtain ⟨p, v, hfirst, hrest⟩ := bind_eq_ok h
      cases p with
      | stopped d => cases hrest
      | going g =>
        obtain ⟨hmid, rfl, hnone, rfl⟩ := extraSteps_clean_iff.mp ⟨hrest, hclean⟩
        obtain ⟨outputs, heach, rfl⟩ :=
          (entrySteps_clean_iff hclosed hfollows hstart).mp ⟨hfirst, hmid⟩
        refine ⟨outputs, heach, hnone, ?_⟩
        cases hmake
        rw [hkeys]
    · rintro ⟨outputs, heach, hnone, rfl⟩
      obtain ⟨hfirst, hmid⟩ :=
        (entrySteps_clean_iff hclosed hfollows hstart).mpr ⟨outputs, heach, rfl⟩
      obtain ⟨hrest, hclean⟩ := (@extraSteps_clean_iff ctx s.label kind extra
        (undeclared declared input) _ _ u u).mpr ⟨hmid, rfl, hnone, rfl⟩
      refine ⟨_, ?_, hclean, ?_⟩
      · rw [bind_of_eq_ok hfirst]
        exact hrest
      · rw [hkeys]
  | _ => cases hinput

/-- A key that may be absent is left out, and a key that is not declared comes last. -/
theorem object_success_loose :
    let a : Value := .scalar .shared (.str .base "a")
    let b : Value := .scalar .shared (.str .base "b")
    let c : Value := .scalar .shared (.str .base "c")
    let ctx : Context := ⟨.default, [], [], [], ⟨fun _ _ _ => .error .callable, 0⟩⟩
    let s := Schema.object .null 0 .plain .loose .validate
      [(a, .anything .null false), (b, .wrapper .null .optional (.anything .null false))]
    let x : Value := .ofMapping [(c, .int 1), (a, .int 2)]
    x.entries? = some [(c, .int 1), (a, .int 2)] ∧
    ∃ d, s.run ctx (.fresh x) .empty = (.ok d, .empty) ∧ d.status = .success ∧
      d.value = .ofMapping [(a, .int 2), (c, .int 1)] := by
  intro a b c ctx s x
  have hx : x.entries? = some [(c, .int 1), (a, .int 2)] := rfl
  refine ⟨hx, (object_success_iff hx).mpr ⟨[.int 2, .undefined], ?_, fun h => ?_, ?_⟩⟩
  · rfl
  · cases h
  · rfl

end Conform
