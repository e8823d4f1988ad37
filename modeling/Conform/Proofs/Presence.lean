/-
  Conform/Proofs/Presence.lean
  ============================
  **Required keys.**  Whether a declared key is there is asked of the mapping that is
  validated.  So a mapping that is accepted where every key is required has them all, and
  each has under it what its schema accepts; an undefined value is such a value, too.

  What is written is another matter: under a declared key the output has what the schema
  has made of the value, and nothing if that is the undefined value
  (`ObjectBrings.get?_written`).  Therefore a key may be required and still be left out.
-/
import Conform.Proofs.Isolation
import Conform.Proofs.Derived

namespace Conform

open Validator

/-! ### Looking up in parts -/

namespace Value.Entries

theorem get?_append (es fs : Entries) (key : Value) :
    (es ++ fs : Entries).get? key = (es.get? key).or (fs.get? key) := by
  unfold get?
  rw [List.find?_append]
  cases es.find? fun e => e.1.keyEq key <;> rfl

end Value.Entries

theorem Validator.get?_putEntry {key : Value} (hself : key.keyEq key = true) (v : Value) :
    Value.Entries.get? (putEntry key v []) key = if v.isUndefined then none else some v := by
  unfold putEntry
  split
  · rfl
  · simp [Value.Entries.get?, hself]

section

variable {ctx : Context} {I : Found → Prop} {R : Runs} {l : Label} {kind : ObjectKind} {extra : Extra}
  {absent : Absent} {input : Value.Entries}

/-- What steps of an object write is under their keys. -/
theorem ObjectBrings.exists_stepKey {steps : List ((Value × Schema) ⊕ (Value × Value))}
    {cs : List (Contribution Value.Entries)}
    (h : List.Forall₂ (ObjectBrings ctx I R l kind extra absent input) steps cs) {e : Value × Value}
    (he : e ∈ cs.flatMap (·.written)) : ∃ s ∈ steps, e.1 = stepKey s := by
  induction h with
  | nil => cases he
  | cons hc _ ih =>
    rw [List.flatMap_cons, List.mem_append] at he
    rcases he with he | he
    · exact ⟨_, List.mem_cons_self, hc.at_stepKey.written he⟩
    · obtain ⟨s, hs, hkey⟩ := ih he
      exact ⟨s, List.mem_cons_of_mem _ hs, hkey⟩

/-- Under a declared key there is what its step has written: no other step writes under that key. -/
theorem ObjectBrings.get?_written {objects : Nat → Value} {entries : List (Value × Schema)}
    (hdistinct : Value.Distinct (entries.map (·.1))) (hdeclared : ∀ e ∈ entries, e.1.Keyable objects)
    (hinput : ∀ e ∈ input, e.1.Keyable objects) {cs : List (Contribution Value.Entries)}
    (h : List.Forall₂ (ObjectBrings ctx I R l kind extra absent input) (objectSteps entries input) cs)
    {e : Value × Schema} (he : e ∈ entries) :
    ∃ c ∈ cs, DeclaredBrings ctx I R l absent input e c ∧
      Value.Entries.get? (cs.flatMap (·.written)) e.1 = Value.Entries.get? c.written e.1 := by
  obtain ⟨before, after, rfl⟩ := List.append_of_mem he
  have hsteps : objectSteps (before ++ e :: after) input = before.map .inl ++ Sum.inl e ::
      (after.map .inl ++ (Schema.undeclared (before ++ e :: after) input).map .inr) := by
    simp [objectSteps]
  rw [hsteps] at h
  obtain ⟨us, c, vs, rfl, hus, hc, hvs⟩ := forall₂_append_cons h
  have hapart := hdistinct.1
  rw [List.map_append, List.map_cons, List.pairwise_append, List.pairwise_cons] at hapart
  have hback {k : Value} (hk : k.Keyable objects) (hother : e.1.keyEq k = false) :
      k.keyEq e.1 = false := by
    refine Bool.eq_false_iff.mpr fun hsame => ?_
    rw [Value.keyEq_symm hk (hdeclared e he) hsame] at hother
    cases hother
  have hfront : Value.Entries.get? (us.flatMap (·.written)) e.1 = none := by
    refine Value.Entries.get?_eq_none fun f hf => ?_
    obtain ⟨s, hs, hkey⟩ := ObjectBrings.exists_stepKey hus hf
    obtain ⟨g, hg, rfl⟩ := List.mem_map.mp hs
    rw [hkey]
    exact hapart.2.2 g.1 (List.mem_map_of_mem hg) e.1 List.mem_cons_self
  have hrest : Value.Entries.get? (vs.flatMap (·.written)) e.1 = none := by
    refine Value.Entries.get?_eq_none fun f hf => ?_
    obtain ⟨s, hs, hkey⟩ := ObjectBrings.exists_stepKey hvs hf
    rw [hkey]
    rcases List.mem_append.mp hs with hs | hs <;> obtain ⟨g, hg, rfl⟩ := List.mem_map.mp hs
    · refine hback (hdeclared g ?_) (hapart.2.1.1 g.1 (List.mem_map_of_mem hg))
      exact List.mem_append_right _ (List.mem_cons_of_mem e hg)
    · obtain ⟨hg, hundeclared⟩ := List.mem_filter.mp hg
      refine hback (hinput g hg) ?_
      rw [Bool.not_eq_true', List.any_eq_false] at hundeclared
      exact Bool.eq_false_iff.mpr (hundeclared e he)
  refine ⟨c, by simp, ?_, ?_⟩
  · cases hc with
    | declared hc => exact hc
  · rw [List.flatMap_append, List.flatMap_cons, Value.Entries.get?_append, Value.Entries.get?_append,
      hfront, hrest, Option.none_or, Option.or_none]

/-- An object that accepts a mapping comes to what its steps bring, none of which is an issue. -/
theorem brought_of_success {m : Value} {id : Nat} {entries : List (Value × Schema)} {x : Value}
    {d : Dataset} (hx : x.entries? = some input)
    (h : (Schema.object m id kind extra absent entries).Outcome ctx I R x d)
    (hsuccess : d.status = .success) :
    ∃ cs, List.Forall₂ (ObjectBrings ctx I R (Schema.object m id kind extra absent entries).label
        kind extra absent input) (objectSteps entries input) cs ∧
      (∀ c ∈ cs, c.issues = []) ∧ d.value.entries? = some (cs.flatMap (·.written)) := by
  obtain ⟨p, hp, hfinished⟩ := h.of_object hx
  cases hfinished with
  | stopped | partly | failed => cases hsuccess
  | @valid g output hissues hmake =>
    obtain ⟨cs, hcs, rfl⟩ := Gathering.taken_of_going (fun _ _ hc => hc.at_stepKey.appends) hp
    refine ⟨cs, hcs, fun c hc => ?_, ?_⟩
    · rw [show (Gathering.takeAll _ cs).dataset.issues = _ ++ cs.flatMap (·.issues) from rfl,
        List.append_eq_nil_iff, List.flatMap_eq_nil_iff] at hissues
      exact hissues.2 c hc
    · cases hmake
      exact congrArg some (List.nil_append _)

end

/-! ### Required keys -/

/-- Required keys are there.  A mapping that is accepted where every key is required has each declared
key, with a value under it that the schema of the key accepts.  Under that key the output has what the
schema makes of this value, and it has nothing only if that is the undefined value. -/
theorem required_keys_present {ctx : Context} {objects : Nat → Value} {m : Value} {id id' : Nat}
    {kind : ObjectKind} {extra : Extra} {absent : Absent} {entries : List (Value × Schema)} {r : Schema}
    {x : Value} {input : Value.Entries} {w u : World} {d : Dataset}
    (hr : Schema.requiredOf id' (.schema (.object m id kind extra absent entries)) = .ok r)
    (hdistinct : Value.Distinct (entries.map (·.1))) (hdeclared : ∀ e ∈ entries, e.1.Keyable objects)
    (hinput : ∀ e ∈ input, e.1.Keyable objects) (hx : x.entries? = some input)
    (hrun : r.run ctx (.fresh x) w = (.ok d, u)) (hsuccess : d.status = .success) :
    ∃ output, d.value.entries? = some output ∧ ∀ e ∈ entries, ∃ v y v' u',
      input.get? e.1 = some v ∧
      e.2.validatorUpTo (ctx.bound r x) ctx (.fresh v) v' = (.ok (.valid y), u') ∧
      Value.Entries.get? output e.1 = if y.isUndefined then none else some y := by
  obtain rfl := Except.ok.inj ((Schema.requiredOf_object id').symm.trans hr)
  have hclosed := closed_true ctx
  rw [Schema.run, Schema.validatorUpTo_eq] at hrun
  have houtcome := outcome_of_object (R := fun s y part =>
    Gives (fun _ => True) (s.validatorUpTo (ctx.bound (.object m id' kind extra .reject entries) x)
      ctx (.fresh y)) part)
    (fun e _ => ⟨fun _ _ _ => trivial, fun _ _ h => by rwa [Schema.validatorUpTo_eq]⟩)
    ⟨w, u, trivial, hrun⟩
  obtain ⟨cs, hcs, hclean, houtput⟩ := brought_of_success hx houtcome hsuccess
  refine ⟨_, houtput, fun e he => ?_⟩
  obtain ⟨c, hc, hbrings, hget⟩ := ObjectBrings.get?_written hdistinct hdeclared hinput hcs he
  have hself := hdistinct.2 e.1 (List.mem_map_of_mem he)
  have hnone := hclean c hc
  cases hbrings with
  | @present v part hv hpart =>
    obtain ⟨v', u', -, hpart⟩ := hpart
    have hsettled := settled_of_yields hclosed (s := e.2) trivial ⟨_, v', u', trivial, hpart⟩
    obtain ⟨status, y, issues⟩ := part
    obtain rfl : issues = [] := List.map_eq_nil_iff.mp hnone
    obtain rfl : status = .success := hsettled.success.mp rfl
    exact ⟨v, y, v', u', hv, hpart, hget.trans (get?_putEntry hself y)⟩
  | validated _ habsent | skipped _ habsent => cases habsent
  | missing => cases hnone

/-- A name and a nickname that may be anything are both required; the nickname is there, but it is
undefined. -/
theorem required_keys_present_name :
    let ctx : Context := ⟨.default, [], [], [], ⟨fun _ _ _ => .error .callable, 0⟩⟩
    let entries : List (Value × Schema) := [(.str "name", .primitive .null .string),
      (.str "nick", .wrapper .null .optional (.anything .null false))]
    let r : Schema := .object .null 1 .plain .strip .reject entries
    let input : Value.Entries := [(.str "nick", .undefined), (.str "name", .str "Ada")]
    Schema.requiredOf 1 (.schema (.object .null 0 .plain .strip .skip entries)) = .ok r ∧
    ∃ d u output, r.run ctx (.fresh (.ofMapping input)) .empty = (.ok d, u) ∧ d.status = .success ∧
      d.value.entries? = some output ∧
      Value.Entries.get? output (.str "name") = some (.str "Ada") ∧
      Value.Entries.get? output (.str "nick") = none := by
  intro ctx entries r input
  have hnames : ∀ k : String, (Value.str k).Keyable fun _ => .null := Value.keyable_str
  have hdistinct : Value.Distinct (entries.map (·.1)) := by
    refine ⟨List.pairwise_pair.mpr ?_, List.forall_mem_cons.mpr ⟨?_, List.forall_mem_singleton.mpr ?_⟩⟩
    · decide +kernel
    · decide +kernel
    · decide +kernel
  have hr : Schema.requiredOf 1 (.schema (.object .null 0 .plain .strip .skip entries)) = .ok r := rfl
  obtain ⟨d, u, hrun, hsuccess⟩ : ∃ d u, r.run ctx (.fresh (.ofMapping input)) .empty = (.ok d, u) ∧
      d.status = .success := by
    dsimp only [ctx, entries, r, input]
    exact ⟨_, _, rfl, rfl⟩
  obtain ⟨output, houtput, hkeys⟩ := required_keys_present hr hdistinct
    (List.forall_mem_cons.mpr ⟨hnames _, List.forall_mem_singleton.mpr (hnames _)⟩)
    (List.forall_mem_cons.mpr ⟨hnames _, List.forall_mem_singleton.mpr (hnames _)⟩) rfl hrun hsuccess
  rw [List.forall_mem_cons, List.forall_mem_singleton] at hkeys
  obtain ⟨⟨v, y, v', u', hv, hname, hwritten⟩, v₂, y₂, v₂', u₂', hv₂, hnick, hleft⟩ := hkeys
  refine ⟨hr, d, u, output, hrun, hsuccess, houtput, hwritten.trans ?_, hleft.trans ?_⟩
  · obtain rfl : .str "Ada" = v := Option.some.inj hv
    cases hname
    rfl
  · obtain rfl : .undefined = v₂ := Option.some.inj hv₂
    cases hnick
    rfl

/-- A required key may be left out: its schema makes of the undefined value just that. -/
theorem required_key_unwritten :
    let ctx : Context := ⟨.default, [], [], [], ⟨fun _ _ _ => .error .callable, 0⟩⟩
    let s : Schema := .object .null 0 .plain .strip .skip
      [(.str "nick", .wrapper .null .optional (.primitive .null .string))]
    ∃ r d u, Schema.requiredOf 1 (.schema s) = .ok r ∧
      r.run ctx (.fresh (.ofMapping [(.str "nick", .undefined)])) .empty = (.ok d, u) ∧
      d.status = .success ∧ ∃ output : Value.Entries, d.value.entries? = some output ∧
        output.contains (.str "nick") = false := by
  intro ctx s
  exact ⟨_, _, _, rfl, rfl, rfl, _, rfl, rfl⟩

end Conform
