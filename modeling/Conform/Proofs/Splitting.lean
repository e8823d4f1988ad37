/-
  Conform/Proofs/Splitting.lean
  =============================
  **Splitting an object.**  What is picked from an object and what is left of it have the
  keys of the object between them.  If keys that are not declared are dropped, each issue
  and each entry of the output is under a declared key, and belongs to that one of the two
  that has the key.  So the two come to what the object comes to, taken apart
  (`splitBy_of_shares`), and they end when it does.

  What is picked can also be had by leaving out the other keys.
-/
import Conform.Proofs.Derived
import Conform.Proofs.Shares

namespace Conform

open Validator

/-! ### Keys among others -/

/-- The path of the issue starts with one of the keys. -/
def Issue.isAmong (keys : List Value) (i : Issue) : Bool :=
  match i.path with
  | [] => false
  | k :: _ => keys.any (·.keyEq k)

theorem Issue.AllAt.isAmong {key : Value} {is : List Issue} (h : Issue.AllAt key is)
    (keys : List Value) : ∀ i ∈ is, i.isAmong keys = keys.any (·.keyEq key) := by
  intro i hi
  have hpath := h i hi
  unfold Issue.isAmong
  split
  · next hnil => rw [hnil] at hpath; cases hpath
  · next hcons => rw [hcons] at hpath; cases hpath; rfl

/-- The results of an object, of what is picked from it and of what is left of it: the object accepts
exactly when both do; each issue and, if it accepts, each entry of its output is one of those two's, for
its key. -/
structure Dataset.SplitBy (keys : List Value) (d p q : Dataset) : Prop where
  accepts : d.status = .success ↔ p.status = .success ∧ q.status = .success
  picked : p.issues = d.issues.filter (·.isAmong keys)
  left : q.issues = d.issues.filter fun i => !i.isAmong keys
  outputs : d.status = .success → ∃ output, d.value.entries? = some output ∧
    p.value.entries? = some (output.filter fun e => keys.any (·.keyEq e.1)) ∧
    q.value.entries? = some (output.filter fun e => !keys.any (·.keyEq e.1))

/-- A run of an object ends exactly when those of its two parts do, and then its result is split. -/
structure Splits (keys : List Value) (whole picked left : Except Halt Dataset) : Prop where
  ends : (∃ d, whole = .ok d) ↔ (∃ p, picked = .ok p) ∧ ∃ q, left = .ok q
  results : ∀ d p q, whole = .ok d → picked = .ok p → left = .ok q → d.SplitBy keys p q

/-- Results that are put together from the shares of the keys are split with the keys. -/
theorem splitBy_of_shares {keys : List Value} {entries : List (Value × Schema)}
    {own : Value × Schema → Contribution Value.Entries} {d p q : Dataset}
    (hat : ∀ e ∈ entries, (own e).At e.1) (hd : Gathered (entries.map own) d)
    (hp : Gathered ((entries.filter fun e => keys.any (·.keyEq e.1)).map own) p)
    (hq : Gathered ((entries.filter fun e => !keys.any (·.keyEq e.1)).map own) q) :
    d.SplitBy keys p q := by
  have hissues {es : List (Value × Schema)} {r : Dataset} (h : Gathered (es.map own) r) :
      r.issues = es.flatMap fun e => (own e).issues := by rw [h.issues, List.flatMap_map]
  have hpicked : p.issues = d.issues.filter (·.isAmong keys) := by
    rw [hissues hp, hissues hd]
    exact (filter_flatMap_of_parts fun e he => (hat e he).issues.isAmong keys).symm
  have hleft : q.issues = d.issues.filter fun i => !i.isAmong keys := by
    rw [hissues hq, hissues hd]
    exact (filter_flatMap_of_parts fun e he i hi =>
      congrArg not ((hat e he).issues.isAmong keys i hi)).symm
  have hsuccess : d.status = .success ↔ p.status = .success ∧ q.status = .success := by
    rw [hd.success_iff, hp.success_iff, hq.success_iff, hpicked, hleft, List.filter_eq_nil_iff,
      List.filter_eq_nil_iff]
    refine ⟨fun hnone => by simp [hnone], fun ⟨hnone, hnone'⟩ => ?_⟩
    refine List.eq_nil_iff_forall_not_mem.mpr fun i hi => ?_
    exact hnone' i hi (by simpa using hnone i hi)
  refine ⟨hsuccess, hpicked, hleft, fun haccepted => ?_⟩
  have hvalue {es : List (Value × Schema)} {r : Dataset} (h : Gathered (es.map own) r)
      (hr : r.status = .success) : r.value.entries? = some (es.flatMap fun e => (own e).written) := by
    rw [h.value (by rw [Dataset.isTyped, hr]; rfl), List.flatMap_map]
  obtain ⟨hpsuccess, hqsuccess⟩ := hsuccess.mp haccepted
  refine ⟨_, hvalue hd haccepted, ?_, ?_⟩
  · rw [hvalue hp hpsuccess]
    refine congrArg some (filter_flatMap_of_parts fun e he w hw => ?_).symm
    rw [(hat e he).written hw]
  · rw [hvalue hq hqsuccess]
    refine congrArg some (filter_flatMap_of_parts fun e he w hw => ?_).symm
    rw [(hat e he).written hw]

/-! ### Shares of the parts -/

/-- Where keys that are not declared are dropped, they bring nothing. -/
theorem ExtraBrings.eq_plain {ctx : Context} {I : Found → Prop} {l : Label} {kind : ObjectKind}
    {e : Value × Value} {c : Contribution Value.Entries} (h : ExtraBrings ctx I l kind .strip e c) :
    c = .plain fun output => output := by
  cases h with
  | dropped => rfl
  | kept hextra | unexpected hextra => cases hextra

section

variable {ctx : Context} {I : Found → Prop} {U : Schema → Prop} (h : ctx.Definite I U)
  (hfull : ctx.config.abortEarly = false) {m : Value} {id : Nat} {kind : ObjectKind}
  {absent : Absent} {entries : List (Value × Schema)} (hentries : ∀ e ∈ entries, U e.2)
  (hreport : ∀ f, Alike I (ctx.report m f)) {x : Value} {input : Value.Entries}
  (hx : x.entries? = some input) {n : Nat} {d : Dataset}

include h hfull hentries hreport hx

/-- Where keys that are not declared are dropped, an object comes to what its keys contribute. -/
theorem exists_own_shares
    (hd : Gives I ((Schema.object m id kind .strip absent entries).validatorUpTo n ctx (.fresh x)) d) :
    ∃ own : Value × Schema → Contribution Value.Entries,
      (∀ e ∈ entries, DeclaredBrings ctx I (ctx.GivesUpTo I U n)
        (Schema.object m id kind .strip absent entries).label absent input e (own e)) ∧
      Gathered (entries.map own) d := by
  obtain ⟨share, hshare, hgathered⟩ := exists_shares h hfull hentries hreport hx hd
  rw [List.forall_mem_append, List.forall_mem_map, List.forall_mem_map] at hshare
  obtain ⟨hown, hothers⟩ := hshare
  rw [objectSteps, List.map_append, List.map_map, List.map_map, gathered_append_plain] at hgathered
  · refine ⟨fun e => share (.inl e), fun e he => ?_, hgathered⟩
    cases hown e he with
    | declared hc => exact hc
  · rw [List.forall_mem_map]
    intro e he
    cases hothers e he with
    | extra hc => exact hc.eq_plain

theorem certain_of_own_shares (id : Nat) {own : Value × Schema → Contribution Value.Entries}
    (hown : ∀ e ∈ entries, DeclaredBrings ctx I (ctx.GivesUpTo I U n)
      (Schema.object m id kind .strip absent entries).label absent input e (own e)) :
    ∃ d, Certain I ((Schema.object m id kind .strip absent entries).validatorUpTo n ctx (.fresh x)) d ∧
      Gathered (entries.map own) d := by
  have hshare : ∀ s ∈ objectSteps entries input, ObjectBrings ctx I (ctx.GivesUpTo I U n)
      (Schema.object m id kind .strip absent entries).label kind .strip absent input s
      (Sum.elim own (fun _ => .plain fun output => output) s) := by
    rw [List.forall_mem_append, List.forall_mem_map, List.forall_mem_map]
    exact ⟨fun e he => .declared (hown e he), fun _ _ => .extra (.dropped rfl)⟩
  obtain ⟨d, hcertain, hgathered, -⟩ := certain_of_shares h hfull hentries hreport hx id hshare
  rw [objectSteps, List.map_append, List.map_map, List.map_map, gathered_append_plain] at hgathered
  · exact ⟨d, hcertain, hgathered⟩
  · rw [List.forall_mem_map]
    exact fun _ _ => rfl

/-- Runs of an object, of some of its keys and of the others, in which equally many references may lie
on a path. -/
theorem splits_upTo (n id i j : Nat) (kind : ObjectKind) (absent : Absent) (keys : List Value) {w : World}
    (hI : I w.resolved) :
    Splits keys ((Schema.object m id kind .strip absent entries).validatorUpTo n ctx (.fresh x) w).1
      ((Schema.object m i kind .strip absent
        (entries.filter fun e => keys.any (·.keyEq e.1))).validatorUpTo n ctx (.fresh x) w).1
      ((Schema.object m j kind .strip absent
        (entries.filter fun e => !keys.any (·.keyEq e.1))).validatorUpTo n ctx (.fresh x) w).1 := by
  have hpart {keep : Value × Schema → Bool} : ∀ e ∈ entries.filter keep, U e.2 :=
    fun e he => hentries e (List.mem_of_mem_filter he)
  -- what the keys contribute to the object they contribute to its parts
  have hsplit {d : Dataset} (hd : ((Schema.object m id kind .strip absent entries).validatorUpTo n ctx
      (.fresh x) w).1 = .ok d) :
      ∃ p q, ((Schema.object m i kind .strip absent
          (entries.filter fun e => keys.any (·.keyEq e.1))).validatorUpTo n ctx (.fresh x) w).1 = .ok p ∧
        ((Schema.object m j kind .strip absent
          (entries.filter fun e => !keys.any (·.keyEq e.1))).validatorUpTo n ctx (.fresh x) w).1 =
            .ok q ∧ d.SplitBy keys p q := by
    obtain ⟨own, hown, hgathered⟩ :=
      exists_own_shares h hfull hentries hreport hx (gives_of_fst hI hd)
    obtain ⟨p, hp, hpgathered⟩ := certain_of_own_shares h hfull hpart hreport hx i
      fun e he => hown e (List.mem_of_mem_filter (p := fun e => keys.any (·.keyEq e.1)) he)
    obtain ⟨q, hq, hqgathered⟩ := certain_of_own_shares h hfull hpart hreport hx j
      fun e he => hown e (List.mem_of_mem_filter (p := fun e => !keys.any (·.keyEq e.1)) he)
    have hbrings : ∀ e ∈ entries, ObjectBrings ctx I (ctx.GivesUpTo I U n)
        (Schema.object m id kind .strip absent entries).label kind .strip absent input (.inl e) (own e) :=
      fun e he => .declared (hown e he)
    exact ⟨p, q, hp.fst hI, hq.fst hI, splitBy_of_shares (fun e he => (hbrings e he).at_stepKey)
      hgathered hpgathered hqgathered⟩
  refine ⟨⟨?_, ?_⟩, fun d p q hd hp hq => ?_⟩
  · rintro ⟨d, hd⟩
    obtain ⟨p, q, hp, hq, -⟩ := hsplit hd
    exact ⟨⟨p, hp⟩, q, hq⟩
  · rintro ⟨⟨p, hp⟩, q, hq⟩
    obtain ⟨picked, hpicked, -⟩ :=
      exists_own_shares h hfull hpart hreport hx (gives_of_fst hI hp)
    obtain ⟨left, hleft, -⟩ := exists_own_shares h hfull hpart hreport hx (gives_of_fst hI hq)
    have hown : ∀ e ∈ entries, DeclaredBrings ctx I (ctx.GivesUpTo I U n)
        (Schema.object m id kind .strip absent entries).label absent input e
        (if keys.any (·.keyEq e.1) then picked e else left e) := by
      intro e he
      split
      · next hkeep => exact hpicked e (List.mem_filter.mpr ⟨he, hkeep⟩)
      · next hkeep => exact hleft e (List.mem_filter.mpr ⟨he, by simpa using hkeep⟩)
    obtain ⟨d, hd, -⟩ := certain_of_own_shares h hfull hentries hreport hx id hown
    exact ⟨d, hd.fst hI⟩
  · obtain ⟨p', q', hp', hq', hresult⟩ := hsplit hd
    obtain rfl := Except.ok.inj (hp'.symm.trans hp)
    obtain rfl := Except.ok.inj (hq'.symm.trans hq)
    exact hresult

end

/-! ### Picking and leaving out -/

/-- The declared keys that are not among others. -/
def Schema.otherKeys (entries : List (Value × Schema)) (keys : List Value) : List Value :=
  (entries.filter fun e => !keys.any (·.keyEq e.1)).map (·.1)

section

variable {objects : Nat → Value} {entries : List (Value × Schema)} {keys : List Value}
  (hself : ∀ e ∈ entries, e.1.keyEq e.1 = true) (hentries : ∀ e ∈ entries, e.1.Keyable objects)
  (hkeys : ∀ k ∈ keys, k.Keyable objects)

include hself

/-- The other keys are declared. -/
theorem declared_otherKeys : Schema.Declared entries (Schema.otherKeys entries keys) := by
  intro k hk
  obtain ⟨e, he, rfl⟩ := List.mem_map.mp hk
  have he := List.mem_of_mem_filter he
  exact List.any_eq_true.mpr ⟨e, he, hself e he⟩

include hentries hkeys

/-- A declared key is among the other keys exactly when it is not among the keys. -/
theorem any_otherKeys {e : Value × Schema} (he : e ∈ entries) :
    (Schema.otherKeys entries keys).any (·.keyEq e.1) = !keys.any (·.keyEq e.1) := by
  cases hkeep : keys.any (·.keyEq e.1) with
  | true =>
    obtain ⟨k, hk, hke⟩ := List.any_eq_true.mp hkeep
    refine List.any_eq_false.mpr fun k' hk' hsame => ?_
    obtain ⟨f, hf, rfl⟩ := List.mem_map.mp hk'
    obtain ⟨hf, hother⟩ := List.mem_filter.mp hf
    have hkf := Value.keyEq_trans (hkeys k hk) (hentries e he) (hentries f hf) hke
      (Value.keyEq_symm (hentries f hf) (hentries e he) hsame)
    rw [Bool.not_eq_true', List.any_eq_false] at hother
    exact hother k hk hkf
  | false =>
    exact List.any_eq_true.mpr
      ⟨e.1, List.mem_map_of_mem (List.mem_filter.mpr ⟨he, by simpa using hkeep⟩), hself e he⟩

end

/-! ### Runs -/

/-- What is picked from an object and what is left of it split the object.

If keys that are not declared are dropped, when callables are pure and without early abort, the object
ends on a mapping exactly when both do, and accepts it exactly when both do.  The issues of what is picked
are those of the object that are under the picked keys, the issues of what is left are the others, and if
the mapping is accepted its output is the two outputs together, all in the order of the object.

Whatever is done with keys that are not declared, leaving out the other keys is as good as picking. -/
theorem pick_omit_split {objects : Nat → Value} {m : Value} {id : Nat} {kind : ObjectKind}
    {extra : Extra} {absent : Absent} {entries : List (Value × Schema)} {keys : List Value}
    (hentries : ∀ e ∈ entries, e.1.Keyable objects) (hself : ∀ e ∈ entries, e.1.keyEq e.1 = true)
    (hkeys : ∀ k ∈ keys, k.Keyable objects) (hdeclared : Schema.Declared entries keys) (i j : Nat) :
    let s := Schema.object m id kind extra absent entries
    ∃ p q, Schema.pickFrom i (.schema s) keys = .ok p ∧ Schema.omitFrom j (.schema s) keys = .ok q ∧
      (extra = .strip → ∀ (ctx : Context) (x : Value) (input : Value.Entries) (w : World),
        x.entries? = some input → ctx.config.abortEarly = false →
        ctx.PureCalls (ctx.Reaches w.resolved s) → Schema.NumberedApart (ctx.Reaches w.resolved s) →
        (∀ n, Splits keys (s.validatorUpTo n ctx (.fresh x) w).1 (p.validatorUpTo n ctx (.fresh x) w).1
          (q.validatorUpTo n ctx (.fresh x) w).1) ∧
        (ctx.Bounded s w → Splits keys (s.run ctx (.fresh x) w).1 (p.run ctx (.fresh x) w).1
          (q.run ctx (.fresh x) w).1)) ∧
      ∃ q', Schema.omitFrom j (.schema s) (Schema.otherKeys entries keys) = .ok q' ∧ q'.run = p.run := by
  intro s
  have hothers : ∀ k ∈ Schema.otherKeys entries keys, k.Keyable objects := by
    intro k hk
    obtain ⟨e, he, rfl⟩ := List.mem_map.mp hk
    exact hentries e (List.mem_of_mem_filter he)
  refine ⟨_, _, Schema.pickFrom_object hentries hkeys hdeclared i,
    Schema.omitFrom_object hentries hkeys hdeclared j, fun hextra ctx x input w hx hfull hpure hapart => ?_,
    _, Schema.omitFrom_object hentries hothers (declared_otherKeys hself) j, ?_⟩
  · subst hextra
    have hdefinite := Context.definite_reaches hpure hapart
    have hpins : ctx.Pins (ctx.Reaches w.resolved s) w.resolved w.resolved := fun _ _ _ _ => rfl
    have hsplits (n : Nat) := splits_upTo hdefinite hfull
      (fun e he => .part .start (List.mem_map_of_mem he)) (fun f => hdefinite.report .start f) hx n id i j
      kind absent keys hpins
    refine ⟨hsplits, fun hbounded => ?_⟩
    -- fewer keys need no more references on a path
    rw [← hbounded.run_of_sublist List.filter_sublist x, ← hbounded.run_of_sublist List.filter_sublist x]
    exact hsplits _
  · have hkept : entries.filter (fun e => !(Schema.otherKeys entries keys).any (·.keyEq e.1)) =
        entries.filter fun e => keys.any (·.keyEq e.1) := by
      refine List.filter_congr fun e he => ?_
      rw [any_otherKeys hself hentries hkeys he, Bool.not_not]
    rw [hkept]
    exact Schema.run_renumbered

/-- Of two texts one is a number, and a third key is not declared: the key that is picked is accepted, and
the issue is left. -/
theorem pick_omit_split_texts :
    let ctx : Context := ⟨.default, [], [], [], ⟨fun _ _ _ => .error .callable, 0⟩⟩
    let entries : List (Value × Schema) :=
      [(.str "a", .primitive .null .string), (.str "b", .primitive .null .string)]
    let s := Schema.object .null 0 .plain .strip .reject entries
    let keys : List Value := [.str "b"]
    let x : Value := .ofMapping [(.str "c", .null), (.str "b", .str "B"), (.str "a", .int 1)]
    Schema.Declared entries keys ∧ ctx.Bounded s .empty ∧ ctx.PureCalls (ctx.Reaches [] s) ∧
    ∃ p q d picked left, Schema.pickFrom 1 (.schema s) keys = .ok p ∧
      Schema.omitFrom 2 (.schema s) keys = .ok q ∧ (s.run ctx (.fresh x) .empty).1 = .ok d ∧
      (p.run ctx (.fresh x) .empty).1 = .ok picked ∧ (q.run ctx (.fresh x) .empty).1 = .ok left ∧
      d.issues.length = 1 ∧ picked.status = .success ∧ d.SplitBy keys picked left ∧
      ∃ q', Schema.omitFrom 2 (.schema s) (Schema.otherKeys entries keys) = .ok q' ∧
        q'.run = p.run := by
  intro ctx entries s keys x
  have hnames : ∀ k : String, (Value.str k).Keyable fun _ => .null := Value.keyable_str
  have hself : ∀ e ∈ entries, e.1.keyEq e.1 = true := by
    refine List.forall_mem_cons.mpr ⟨?_, List.forall_mem_singleton.mpr ?_⟩
    · decide +kernel
    · decide +kernel
  have hdeclared : Schema.Declared entries keys := List.forall_mem_singleton.mpr (by decide +kernel)
  obtain ⟨hbounded, hpure⟩ : ctx.Bounded s .empty ∧ ctx.PureCalls (ctx.Reaches [] s) :=
    Context.bounded_of_primitives (List.forall_mem_nil _) (fun _ _ _ => rfl)
    (List.forall_mem_cons.mpr ⟨⟨_, rfl⟩, List.forall_mem_singleton.mpr ⟨_, rfl⟩⟩)
  refine ⟨hdeclared, hbounded, hpure, ?_⟩
  obtain ⟨p, q, hp, hq, hsplit, q', hq', hsame⟩ := @pick_omit_split (fun _ => .null) .null 0 .plain
    .strip .reject entries keys
    (List.forall_mem_cons.mpr ⟨hnames _, List.forall_mem_singleton.mpr (hnames _)⟩) hself
    (List.forall_mem_singleton.mpr (hnames _)) hdeclared 1 2
  have hsplits := (hsplit rfl ctx x _ .empty rfl rfl hpure hbounded.apart).2 hbounded
  obtain ⟨d, hd, hone⟩ : ∃ d, (s.run ctx (.fresh x) .empty).1 = .ok d ∧ d.issues.length = 1 := by
    dsimp only [ctx, s, entries, x]
    exact ⟨_, rfl, rfl⟩
  obtain ⟨⟨picked, hpicked⟩, left, hleft⟩ := hsplits.ends.mp ⟨d, hd⟩
  have hparts := hsplits.results d picked left hd hpicked hleft
  refine ⟨p, q, d, picked, left, hp, hq, hd, hpicked, hleft, hone, ?_, hparts, q', hq', hsame⟩
  have hpick : Schema.pickFrom 1 (.schema s) keys =
      .ok (.object .null 1 .plain .strip .reject [(.str "b", .primitive .null .string)]) := rfl
  obtain rfl := Except.ok.inj (hp.symm.trans hpick)
  have hvalid : ((Schema.object .null 1 .plain .strip .reject [(.str "b", .primitive .null .string)]).run
      ctx (.fresh x) .empty).1 = .ok (.valid (.ofMapping [(.str "b", .str "B")])) := rfl
  obtain rfl := Except.ok.inj (hpicked.symm.trans hvalid)
  rfl

end Conform
