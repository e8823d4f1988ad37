/-
  Conform/Proofs/Isolation.lean
  =============================
  **Entries are validated in isolation.**  The parts of a container share one
  dataset, but without early abort each of them brings to it what depends on itself
  alone.  So leaving one part out of account leaves the contributions of the others
  (`flatMap_eq_of_kept`), and two runs on mappings that differ under one key agree
  besides it; so do two runs on lists or tuples around a place at which they differ.

  What a list or tuple is refused for as a whole, its size, depends on the number of
  its items only (`Schema.objection?_items`).  The order of the declared keys of an
  object is the order in which contributions are gathered, and of no more.
-/
import Conform.Proofs.Completeness
import Conform.Proofs.Contributions
import Conform.Proofs.Determinism
import Conform.Proofs.Keyable
import Mathlib.Data.List.Find
import Mathlib.Data.List.Perm.Basic

namespace Conform

open Validator

/-! ### Leaving out a key -/

/-- The path of the issue starts with the key. -/
def Issue.isUnder (key : Value) (i : Issue) : Bool :=
  match i.path with
  | [] => false
  | k :: _ => k.keyEq key

/-- The issues whose paths do not start with the key. -/
def Issue.besides (key : Value) (is : List Issue) : List Issue :=
  is.filter fun i => !i.isUnder key

/-- The entries under other keys. -/
def Value.Entries.besides (key : Value) (entries : Value.Entries) : Value.Entries :=
  entries.filter fun e => !e.1.keyEq key

/-- Two runs on mappings agree besides a key: in the issues that are not under it, and in the entries
that are not under it if both are typed. -/
structure Dataset.AgreeBesides (key : Value) (d e : Dataset) : Prop where
  issues : Issue.besides key d.issues = Issue.besides key e.issues
  outputs : d.isTyped = true → e.isTyped = true → ∃ output output',
    d.value.entries? = some output ∧ e.value.entries? = some output' ∧
      Value.Entries.besides key output = Value.Entries.besides key output'

/-- Two runs on lists or tuples agree around a place: in the issues that are not under its index, and
in the items before and after it if both are typed. -/
structure Dataset.AgreeAround (place : Nat) (d e : Dataset) : Prop where
  issues : Issue.besides (.int place) d.issues = Issue.besides (.int place) e.issues
  outputs : d.isTyped = true → e.isTyped = true → ∃ front v v' back,
    sequence? d.value = some (front ++ v :: back) ∧ sequence? e.value = some (front ++ v' :: back) ∧
      front.length = place

/-- Two runs are refused at once, with the same issue about the input as a whole: besides the input,
which it holds, only its message may be another. -/
def Dataset.RefusedAlike (x x' : Value) (d e : Dataset) : Prop :=
  ∃ i message, i.path = [] ∧ i.input = x ∧ d = .invalid x i [] ∧
    e = .invalid x' { i with input := x', message } []

/-- Two runs on a mapping come to the same in another order. -/
structure Dataset.Reorders (d e : Dataset) : Prop where
  status : d.status = e.status
  issues : d.issues.Perm e.issues
  outputs : d.isTyped = true → ∃ output output',
    d.value.entries? = some output ∧ e.value.entries? = some output' ∧ output.Perm output'

theorem Value.Entries.get?_besides {objects : Nat → Value} {key k : Value} {entries : Entries}
    (hkey : key.Keyable objects) (hk : k.Keyable objects)
    (hentries : ∀ e ∈ entries, e.1.Keyable objects) (hother : key.keyEq k = false) :
    (entries.besides k).get? key = entries.get? key := by
  unfold get? besides
  rw [List.find?_filter]
  congr 1
  refine List.find?_congr fun e he => ?_
  cases hsame : e.1.keyEq key with
  | false => simp
  | true =>
    have hek : e.1.keyEq k = false := by
      refine Bool.eq_false_iff.mpr fun hek => ?_
      have hback := Value.keyEq_symm (hentries e he) hkey hsame
      rw [Value.keyEq_trans hkey (hentries e he) hk hback hek] at hother
      cases hother
    simp [hek]

section

variable {σ α β : Type} {brings brings' : σ → α → Prop} {keep : σ → Bool} {f : α → List β}

/-- Of what parts bring, only that of the parts that are kept counts if the others bring nothing. -/
theorem exists_forall₂_filter (hdrop : ∀ s c, brings s c → keep s = false → f c = [])
    {xs : List σ} {cs : List α} (h : List.Forall₂ brings xs cs) :
    ∃ ks, List.Forall₂ brings (xs.filter keep) ks ∧ cs.flatMap f = ks.flatMap f := by
  induction h with
  | nil => exact ⟨[], .nil, rfl⟩
  | @cons s c xs cs hc _ ih =>
    obtain ⟨ks, hks, heq⟩ := ih
    cases hkeep : keep s with
    | true =>
      rw [List.filter_cons_of_pos hkeep]
      exact ⟨c :: ks, .cons hc hks, by rw [List.flatMap_cons, List.flatMap_cons, heq]⟩
    | false =>
      rw [List.filter_cons_of_neg (by simp [hkeep])]
      exact ⟨ks, hks, by rw [List.flatMap_cons, hdrop s c hc hkeep, heq, List.nil_append]⟩

/-- Two runs over parts bring the same if they have the same parts besides those that bring nothing. -/
theorem flatMap_eq_of_kept (hdrop : ∀ s c, brings s c → keep s = false → f c = [])
    (hdrop' : ∀ s c, brings' s c → keep s = false → f c = [])
    {xs xs' : List σ} (hsame : ∀ s ∈ xs, keep s = true → ∀ c c', brings s c → brings' s c' → f c = f c')
    {cs cs' : List α} (h : List.Forall₂ brings xs cs) (h' : List.Forall₂ brings' xs' cs')
    (heq : xs.filter keep = xs'.filter keep) :
    cs.flatMap f = cs'.flatMap f := by
  -- both come to what the kept parts bring, and those are the same parts
  obtain ⟨ks, hks, hcs⟩ := exists_forall₂_filter hdrop h
  obtain ⟨ks', hks', hcs'⟩ := exists_forall₂_filter hdrop' h'
  have hkept : ∀ s ∈ xs.filter keep, ∀ c c', brings s c → brings' s c' → f c = f c' :=
    fun s hs => hsame s (List.mem_of_mem_filter hs) (List.mem_filter.mp hs).2
  rw [← heq] at hks'
  rw [hcs, hcs']
  generalize xs.filter keep = kept at hks hks' hkept
  clear hcs hcs' h h' heq hsame
  induction hks generalizing ks' with
  | nil =>
    cases hks'
    rfl
  | cons hc _ ih =>
    cases hks' with
    | cons hc' hrest' =>
      rw [List.forall_mem_cons] at hkept
      rw [List.flatMap_cons, List.flatMap_cons, hkept.1 _ _ hc hc', ih _ hrest' hkept.2]

/-- What comes of a list with one place singled out. -/
theorem forall₂_append_cons {R : σ → α → Prop} {xs ys : List σ} {x : σ} {zs : List α}
    (h : List.Forall₂ R (xs ++ x :: ys) zs) :
    ∃ us z vs, zs = us ++ z :: vs ∧ List.Forall₂ R xs us ∧ R x z ∧ List.Forall₂ R ys vs := by
  induction xs generalizing zs with
  | nil =>
    cases h with
    | cons hz hvs => exact ⟨[], _, _, rfl, .nil, hz, hvs⟩
  | cons y xs ih =>
    cases h with
    | cons hu h =>
      obtain ⟨us, z, vs, rfl, hus, hz, hvs⟩ := ih h
      exact ⟨_ :: us, z, vs, rfl, .cons hu hus, hz, hvs⟩

end

/-! ### Issues under a key -/

theorem Issue.AllAt.isUnder {key k : Value} {is : List Issue} (h : Issue.AllAt key is) :
    ∀ i ∈ is, i.isUnder k = key.keyEq k := by
  intro i hi
  have hpath := h i hi
  unfold Issue.isUnder
  split
  · next hnil => rw [hnil] at hpath; cases hpath
  · next hcons => rw [hcons] at hpath; cases hpath; rfl

/-- Issues under a key are left out with it. -/
theorem Issue.AllAt.besides {key k : Value} {is : List Issue} (h : Issue.AllAt key is)
    (hsame : key.keyEq k = true) : Issue.besides k is = [] := by
  refine List.filter_eq_nil_iff.mpr fun i hi => ?_
  rw [h.isUnder i hi, hsame]
  exact Bool.false_ne_true

theorem Issue.besides_flatMap {α : Type} (key : Value) (f : α → List Issue) (xs : List α) :
    Issue.besides key (xs.flatMap f) = xs.flatMap fun x => Issue.besides key (f x) :=
  List.filter_flatMap

/-! ### What a part brings -/

section

variable {ctx : Context} {I : Found → Prop} {R : Runs}

/-- What is written under a key is left out with it. -/
theorem Contribution.At.besides {key k : Value} {c : Contribution Value.Entries} (h : c.At key)
    (hsame : key.keyEq k = true) : Value.Entries.besides k c.written = [] := by
  refine List.filter_eq_nil_iff.mpr fun e he => ?_
  rw [h.written he, hsame]
  exact Bool.false_ne_true

section

variable {l : Label} {kind : ObjectKind} {extra : Extra} {absent : Absent}
  {input input' : Value.Entries}
  (hreport : ∀ f i j, Gives I (ctx.report l.message f) i → Gives I (ctx.report l.message f) j → i = j)

include hreport

/-- A declared key brings one thing, which depends on what the mapping has under it. -/
theorem DeclaredBrings.unique (hR : ∀ t x d e, R t x d → R t x e → d = e) {e : Value × Schema}
    (hget : input.get? e.1 = input'.get? e.1) {c c' : Contribution Value.Entries}
    (h : DeclaredBrings ctx I R l absent input e c)
    (h' : DeclaredBrings ctx I R l absent input' e c') : c = c' := by
  cases h with
  | present hv hrun =>
    rw [hget] at hv
    cases h' with
    | present hv' hrun' =>
      cases hv.symm.trans hv'
      rw [hR _ _ _ _ hrun hrun']
    | validated hnone | skipped hnone | missing hnone => cases hv.symm.trans hnone
  | validated hnone habsent hrun =>
    rw [hget] at hnone
    cases h' with
    | present hv' => cases hnone.symm.trans hv'
    | validated _ _ hrun' => rw [hR _ _ _ _ hrun hrun']
    | skipped _ habsent' | missing _ habsent' => cases habsent.symm.trans habsent'
  | skipped hnone habsent =>
    rw [hget] at hnone
    cases h' with
    | present hv' => cases hnone.symm.trans hv'
    | skipped => rfl
    | validated _ habsent' | missing _ habsent' => cases habsent.symm.trans habsent'
  | missing hnone habsent hi =>
    rw [hget] at hnone
    cases h' with
    | present hv' => cases hnone.symm.trans hv'
    | missing _ _ hj => rw [hreport _ _ _ hi hj]
    | validated _ habsent' | skipped _ habsent' => cases habsent.symm.trans habsent'

theorem ExtraBrings.unique {e : Value × Value} {c c' : Contribution Value.Entries}
    (h : ExtraBrings ctx I l kind extra e c) (h' : ExtraBrings ctx I l kind extra e c') : c = c' := by
  cases h with
  | dropped hextra =>
    cases h' with
    | dropped => rfl
    | kept hextra' | unexpected hextra' => cases hextra.symm.trans hextra'
  | kept hextra =>
    cases h' with
    | kept => rfl
    | dropped hextra' | unexpected hextra' => cases hextra.symm.trans hextra'
  | unexpected hextra hi =>
    cases h' with
    | unexpected _ hj => rw [hreport _ _ _ hi hj]
    | dropped hextra' | kept hextra' => cases hextra.symm.trans hextra'

/-- A step brings one thing, whatever the mapping has under other keys. -/
theorem ObjectBrings.unique (hR : ∀ t x d e, R t x d → R t x e → d = e)
    {s : (Value × Schema) ⊕ (Value × Value)} (hget : input.get? (stepKey s) = input'.get? (stepKey s))
    {c c' : Contribution Value.Entries} (h : ObjectBrings ctx I R l kind extra absent input s c)
    (h' : ObjectBrings ctx I R l kind extra absent input' s c') : c = c' := by
  cases h with
  | declared h =>
    cases h' with
    | declared h' => exact h.unique hreport hR hget h'
  | extra h =>
    cases h' with
    | extra h' => exact h.unique hreport h'

end

end

/-! ### Objects -/

theorem filter_objectSteps (entries : List (Value × Schema)) (input : Value.Entries) (k : Value) :
    (objectSteps entries input).filter (fun s => !(stepKey s).keyEq k) =
      (entries.filter fun e => !e.1.keyEq k).map .inl ++
        (Schema.undeclared entries (input.besides k)).map .inr := by
  unfold objectSteps Schema.undeclared Value.Entries.besides
  rw [List.filter_append, List.filter_map, List.filter_map, List.filter_filter, List.filter_filter]
  simp only [Function.comp_def, stepKey, Sum.elim_inl, Sum.elim_inr, Bool.and_comm]

section

variable {ctx : Context} {I : Found → Prop} {R : Runs} {m : Value} {id : Nat} {kind : ObjectKind}
  {extra : Extra} {absent : Absent} {entries : List (Value × Schema)} {x : Value} {d : Dataset}

/-- Mappings that differ under one key come to datasets that agree besides it. -/
theorem agreeBesides_of_outcomes (hfull : ctx.config.abortEarly = false) {objects : Nat → Value}
    {k x' : Value} {d' : Dataset} {input input' : Value.Entries}
    (hR : ∀ t x d e, R t x d → R t x e → d = e)
    (hreport : ∀ f i j, Gives I (ctx.report m f) i → Gives I (ctx.report m f) j → i = j)
    (hk : k.Keyable objects) (hdeclared : ∀ e ∈ entries, e.1.Keyable objects)
    (hinput : ∀ e ∈ input, e.1.Keyable objects) (hinput' : ∀ e ∈ input', e.1.Keyable objects)
    (hx : x.entries? = some input) (hx' : x'.entries? = some input')
    (hbesides : input.besides k = input'.besides k)
    (h : (Schema.object m id kind extra absent entries).Outcome ctx I R x d)
    (h' : (Schema.object m id kind extra absent entries).Outcome ctx I R x' d') :
    d.AgreeBesides k d' := by
  obtain ⟨cs, hcs, hgathered⟩ := gathered_of_object hfull hx h
  obtain ⟨cs', hcs', hgathered'⟩ := gathered_of_object hfull hx' h'
  have hsteps : (objectSteps entries input).filter (fun s => !(stepKey s).keyEq k) =
      (objectSteps entries input').filter fun s => !(stepKey s).keyEq k := by
    rw [filter_objectSteps, filter_objectSteps, hbesides]
  -- under another key both mappings have the same, of which one thing is brought
  have hsame : ∀ s ∈ objectSteps entries input, (!(stepKey s).keyEq k) = true → ∀ c c',
      ObjectBrings ctx I R (Schema.object m id kind extra absent entries).label kind extra absent
        input s c →
      ObjectBrings ctx I R (Schema.object m id kind extra absent entries).label kind extra absent
        input' s c' → c = c' := by
    intro s hs hother c c' hc hc'
    have hkeyable : (stepKey s).Keyable objects := by
      rcases List.mem_append.mp hs with hs | hs
      · obtain ⟨e, he, rfl⟩ := List.mem_map.mp hs
        exact hdeclared e he
      · obtain ⟨e, he, rfl⟩ := List.mem_map.mp hs
        exact hinput e (List.mem_of_mem_filter he)
    rw [Bool.not_eq_true'] at hother
    refine hc.unique hreport hR ?_ hc'
    rw [← Value.Entries.get?_besides hkeyable hk hinput hother, hbesides,
      Value.Entries.get?_besides hkeyable hk hinput' hother]
  refine ⟨?_, fun htyped htyped' => ⟨_, _, hgathered.value htyped, hgathered'.value htyped', ?_⟩⟩
  · rw [hgathered.issues, hgathered'.issues, Issue.besides_flatMap, Issue.besides_flatMap]
    refine flatMap_eq_of_kept (fun s c hc hkey => ?_) (fun s c hc hkey => ?_)
      (fun s hs hother c c' hc hc' => ?_) hcs hcs' hsteps
    · exact hc.at_stepKey.issues.besides (by simpa using hkey)
    · exact hc.at_stepKey.issues.besides (by simpa using hkey)
    · rw [hsame s hs hother c c' hc hc']
  · rw [Value.Entries.besides, Value.Entries.besides, List.filter_flatMap, List.filter_flatMap]
    refine flatMap_eq_of_kept (fun s c hc hkey => ?_) (fun s c hc hkey => ?_)
      (fun s hs hother c c' hc hc' => ?_) hcs hcs' hsteps
    · exact hc.at_stepKey.besides (by simpa using hkey)
    · exact hc.at_stepKey.besides (by simpa using hkey)
    · rw [hsame s hs hother c c' hc hc']

end

/-! ### Lists and tuples -/

namespace Schema

/-- The items of a list or tuple, if it is of a type that the schema describes. -/
def items? : Schema → Value → Option (List Value)
  | .array .., .list _ _ items => some items
  | .tuple .., x => sequence? x
  | _, _ => none

theorem positions_nil_eq_mapIdx (item : Schema) (i : Nat) (xs : List Value) :
    positions [] (some item) i xs =
      xs.mapIdx fun j v => (⟨.int (i + j : Nat), v, item⟩ : Position) := by
  induction xs generalizing i with
  | nil => rfl
  | cons x xs ih =>
    rw [positions, ih, List.mapIdx_cons]
    simp only [Nat.add_zero, Nat.add_assoc, Nat.add_comm 1]

/-- The part at a place, and the parts before and after it, which do not depend on it. -/
theorem positions_append_cons {items : List Schema} {rest : Option Schema} {i : Nat}
    {before : List Value} (after : List Value) (h : rest = none → before.length < items.length) :
    ∃ c ss, ∀ a, positions items rest i (before ++ a :: after) =
      positions items rest i before ++
        ⟨.int (i + before.length : Nat), a, c⟩ :: positions ss rest (i + before.length + 1) after := by
  induction before generalizing items i with
  | nil =>
    cases items with
    | cons s ss => exact ⟨s, ss, fun a => rfl⟩
    | nil =>
      cases rest with
      | some r => exact ⟨r, [], fun a => rfl⟩
      | none => exact absurd (h rfl) (Nat.not_lt_zero _)
  | cons x before ih =>
    cases items with
    | cons s items =>
      obtain ⟨c, ss, hsplit⟩ := ih (i := i + 1) fun hrest => Nat.lt_of_succ_lt_succ (h hrest)
      refine ⟨c, ss, fun a => ?_⟩
      rw [List.cons_append, positions, hsplit, positions, List.length_cons, List.cons_append,
        Nat.add_right_comm i 1, Nat.add_assoc i]
    | nil =>
      cases rest with
      | some r =>
        obtain ⟨c, ss, hsplit⟩ := @ih [] (i + 1) fun hrest => by cases hrest
        refine ⟨c, ss, fun a => ?_⟩
        rw [List.cons_append, positions, hsplit, positions, List.length_cons, List.cons_append,
          Nat.add_right_comm i 1, Nat.add_assoc i]
      | none => exact absurd (h rfl) (Nat.not_lt_zero _)

end Schema

/-- The parts of two sequences that differ at one place. -/
structure Schema.Differ (s : Schema) (x x' a a' : Value) (front : List Position) (p : Position)
    (back : List Position) (make : List Value → Except Fault Value) : Prop where
  left : s.layout? x = some (front ++ { p with value := a } :: back, make)
  right : s.layout? x' = some (front ++ { p with value := a' } :: back, make)
  key : p.key = .int front.length
  make : ∀ output y, make output = .ok y → sequence? y = some output

/-- Parts by position, of two lists that differ at one place. -/
theorem Schema.differ_of_positions {s : Schema} {items : List Schema} {rest : Option Schema}
    {x x' a a' : Value} {before after : List Value} {make : List Value → Except Fault Value}
    (hroom : rest = none → before.length < items.length)
    (hx : s.layout? x = some (positions items rest 0 (before ++ a :: after), make))
    (hx' : s.layout? x' = some (positions items rest 0 (before ++ a' :: after), make))
    (hmake : ∀ output y, make output = .ok y → sequence? y = some output) :
    ∃ front p back, front.length = before.length ∧ s.Differ x x' a a' front p back make := by
  obtain ⟨c, ss, hsplit⟩ := positions_append_cons (i := 0) after hroom
  have hlength : (positions items rest 0 before).length = before.length :=
    length_positions fun hrest => (hroom hrest).le
  refine ⟨_, ⟨.int before.length, a, c⟩, positions ss rest (0 + before.length + 1) after, hlength,
    ?_, ?_, ?_, hmake⟩
  · rw [hx, hsplit, Nat.zero_add]
  · rw [hx', hsplit, Nat.zero_add]
  · rw [hlength]

theorem Value.keyEq_int (n : Int) : (Value.int n).keyEq (.int n) = true := by
  have hmeans : (Scalar.int .base n).Means (.number (.finite n)) := .real rfl (by simp)
  exact keyEq_iff.mpr (.inr (eq_scalar_iff.mpr (.inr (Scalar.eq_of_means hmeans hmeans))))

/-- Two sequences that differ at one place have parts that do, unless they are refused. -/
theorem Schema.exists_differ {s : Schema} {names : TypeNames} {x x' a a' : Value}
    {before after : List Value} (hx : s.items? x = some (before ++ a :: after))
    (hx' : s.items? x' = some (before ++ a' :: after)) (hnone : s.objection? names x = .ok none) :
    ∃ front p back make, front.length = before.length ∧ s.Differ x x' a a' front p back make := by
  cases s with
  | array m limits item =>
    cases x with
    | list id flavor xs =>
      cases x' with
      | list id' flavor' xs' =>
        cases hx
        cases hx'
        have hlayout (id : Identity) (flavor : Flavor) (xs : List Value) :
            (Schema.array m limits item).layout? (.list id flavor xs) =
              some (positions [] (some item) 0 xs, fun output => .ok (.ofList output)) := by
          simp only [layout?, positions_nil_eq_mapIdx, Nat.zero_add]
        obtain ⟨front, p, back, hfront, hdiffer⟩ := differ_of_positions (fun hrest => by cases hrest)
          (hlayout id flavor _) (hlayout id' flavor' _) fun output y hmake => by cases hmake; rfl
        exact ⟨front, p, back, _, hfront, hdiffer⟩
      | _ => cases hx'
    | _ => cases hx
  | tuple m items rest =>
    have hroom : rest = none → before.length < items.length := by
      intro hrest
      subst hrest
      have hvalues : sequence? x = some (before ++ a :: after) := hx
      simp only [objection?, hvalues] at hnone
      split at hnone
      · cases hnone
      · next hlength =>
        simp only [Option.isNone_none, Bool.true_and, bne_iff_ne, ne_eq, Decidable.not_not,
          List.length_append, List.length_cons] at hlength
        omega
    have hlayout {y : Value} {ys : List Value} (hy : sequence? y = some ys) :
        (Schema.tuple m items rest).layout? y =
          some (positions items rest 0 ys, fun output => .ok (.ofTuple output)) := by
      simp only [layout?, hy, Option.map_some]
    obtain ⟨front, p, back, hfront, hdiffer⟩ := differ_of_positions hroom (hlayout hx) (hlayout hx')
      fun output y hmake => by cases hmake; rfl
    exact ⟨front, p, back, _, hfront, hdiffer⟩
  | _ => cases hx

theorem sizeFinding?_input (l : Label) (limits : Limits) (v v' : Value) (size : Nat) :
    sizeFinding? l limits v' size =
      (sizeFinding? l limits v size).map (Option.map fun f => { f with input := v' }) := by
  have hfinding (type : String) (limit : Limit) : (sizeFinding l v' type limit size).map some =
      ((sizeFinding l v type limit size).map some).map
        (Option.map fun f => { f with input := v' }) := by
    unfold sizeFinding
    cases limit.requirement.text <;> rfl
  unfold sizeFinding?
  dsimp only
  repeat' split
  all_goals first | exact hfinding _ _ | rfl

/-- What is said against a list or tuple as a whole depends on how many items it has. -/
theorem Schema.objection?_items {s : Schema} (names : TypeNames) {x x' : Value} {xs xs' : List Value}
    (hx : s.items? x = some xs) (hx' : s.items? x' = some xs') (hlength : xs.length = xs'.length) :
    s.objection? names x' =
      (s.objection? names x).map (Option.map fun f => { f with input := x' }) := by
  cases s with
  | array m limits item =>
    cases x with
    | list id flavor items =>
      cases x' with
      | list id' flavor' items' =>
        cases hx
        cases hx'
        simp only [objection?, ← hlength]
        exact sizeFinding?_input _ _ _ _ _
      | _ => cases hx'
    | _ => cases hx
  | tuple m items rest =>
    have hvalues : sequence? x = some xs := hx
    have hvalues' : sequence? x' = some xs' := hx'
    simp only [objection?, hvalues, hvalues', ← hlength]
    repeat' split
    all_goals rfl
  | _ => cases hx

/-- A run that ends on a list or tuple has found whether there is something against it as a whole. -/
theorem Schema.Outcome.objection {ctx : Context} {I : Found → Prop} {R : Runs} {s : Schema} {x : Value}
    {d : Dataset} {xs : List Value} (hx : s.items? x = some xs) (h : s.Outcome ctx I R x d) :
    ∃ found, s.objection? ctx.typeNames x = .ok found := by
  cases h with
  | accepted hj | rejected hj => cases s <;> first | cases hj; done | cases hx
  | objected hobjection => exact ⟨_, hobjection⟩
  | sequence hnone => exact ⟨_, hnone⟩
  | _ => cases hx

section

variable {ctx : Context} {I : Found → Prop} {R : Runs}

theorem PartBrings.unique (hR : ∀ t x d e, R t x d → R t x e → d = e) :
    Relator.RightUnique (PartBrings R) := by
  intro p c c' h h'
  cases h with
  | run hrun =>
    cases h' with
    | run hrun' => rw [hR _ _ _ _ hrun hrun']

/-- Sequences that differ at one place come to datasets that agree around it, if they are gone
through. -/
theorem agreeAround_of_outcomes (hfull : ctx.config.abortEarly = false)
    (hR : ∀ t x d e, R t x d → R t x e → d = e) (hsettled : ∀ t x d, R t x d → d.Settled ctx)
    {s : Schema} {x x' a a' : Value} {d d' : Dataset} {front back : List Position} {p : Position}
    {make : List Value → Except Fault Value} (hdiffer : s.Differ x x' a a' front p back make)
    (hnone : s.objection? ctx.typeNames x = .ok none)
    (hnone' : s.objection? ctx.typeNames x' = .ok none) (h : s.Outcome ctx I R x d)
    (h' : s.Outcome ctx I R x' d') : d.AgreeAround front.length d' := by
  obtain ⟨cs, hcs, hissues, hvalue⟩ := gathered_of_layout hfull hsettled hnone hdiffer.left h
  obtain ⟨cs', hcs', hissues', hvalue'⟩ := gathered_of_layout hfull hsettled hnone' hdiffer.right h'
  obtain ⟨us, c, vs, rfl, hus, hc, hvs⟩ := forall₂_append_cons hcs
  obtain ⟨us', c', vs', rfl, hus', hc', hvs'⟩ := forall₂_append_cons hcs'
  -- the parts before the place and after it are the same, and so is what they bring
  obtain rfl : us = us' := List.right_unique_forall₂' (PartBrings.unique hR) hus hus'
  obtain rfl : vs = vs' := List.right_unique_forall₂' (PartBrings.unique hR) hvs hvs'
  refine ⟨?_, fun htyped htyped' => ?_⟩
  · have hself : p.key.keyEq (.int front.length) = true := by
      rw [hdiffer.key]
      exact Value.keyEq_int _
    rw [hissues, hissues', Issue.besides_flatMap, Issue.besides_flatMap, List.flatMap_append,
      List.flatMap_append, List.flatMap_cons, List.flatMap_cons, hc.allAt.besides hself,
      hc'.allAt.besides hself]
  · obtain ⟨hall, hmake⟩ := hvalue htyped
    obtain ⟨hall', hmake'⟩ := hvalue' htyped'
    obtain ⟨v, hv⟩ := hc.written (hall c (by simp))
    obtain ⟨v', hv'⟩ := hc'.written (hall' c' (by simp))
    refine ⟨us.flatMap (·.written), v, v', vs.flatMap (·.written), ?_, ?_, ?_⟩
    · rw [hdiffer.make _ _ hmake, List.flatMap_append, List.flatMap_cons, hv]
      rfl
    · rw [hdiffer.make _ _ hmake', List.flatMap_append, List.flatMap_cons, hv']
      rfl
    · exact length_written hus fun u hu => hall u (by simp [hu])

/-- Sequences that differ at one place come to datasets that agree around it, unless both are refused
alike. -/
theorem agreeAround_or_refusedAlike (hfull : ctx.config.abortEarly = false)
    (hR : ∀ t x d e, R t x d → R t x e → d = e) (hsettled : ∀ t x d, R t x d → d.Settled ctx)
    {s : Schema} {x x' a a' : Value} {d d' : Dataset} {before after : List Value}
    (hx : s.items? x = some (before ++ a :: after)) (hx' : s.items? x' = some (before ++ a' :: after))
    (h : s.Outcome ctx I R x d) (h' : s.Outcome ctx I R x' d') :
    d.AgreeAround before.length d' ∨ Dataset.RefusedAlike x x' d d' := by
  obtain ⟨found, hfound⟩ := h.objection hx
  have hfound' := Schema.objection?_items ctx.typeNames hx hx' (by simp)
  rw [hfound] at hfound'
  cases found with
  | none =>
    obtain ⟨front, p, back, make, hfront, hdiffer⟩ := Schema.exists_differ hx hx' hfound
    rw [← hfront]
    exact .inl (agreeAround_of_outcomes hfull hR hsettled hdiffer hfound hfound' h h')
  | some f =>
    obtain ⟨i, hi, rfl⟩ := h.of_objection hfound
    obtain ⟨i', hi', rfl⟩ := h'.of_objection hfound'
    obtain ⟨message, -, rfl⟩ := gives_report hi
    obtain ⟨message', -, rfl⟩ := gives_report hi'
    exact .inr ⟨_, message', rfl, (about_of_objection hfound).1, rfl, rfl⟩

end

/-! ### The order of declared keys -/

theorem objectSteps_perm {entries entries' : List (Value × Schema)} (h : entries.Perm entries')
    (input : Value.Entries) : (objectSteps entries input).Perm (objectSteps entries' input) := by
  have hundeclared : Schema.undeclared entries input = Schema.undeclared entries' input := by
    unfold Schema.undeclared
    refine List.filter_congr fun e _ => congrArg not (Bool.eq_iff_iff.mpr ?_)
    simp only [List.any_eq_true, h.mem_iff]
  rw [objectSteps, objectSteps, hundeclared]
  exact (h.map _).append_right _

/-- Contributions in another order come to the same in another order. -/
theorem Gathered.reorders {cs cs' : List (Contribution Value.Entries)} {d d' : Dataset}
    (h : cs.Perm cs') (hd : Gathered cs d) (hd' : Gathered cs' d') : d.Reorders d' := by
  have hissues : d.issues.Perm d'.issues := by
    rw [hd.issues, hd'.issues]
    exact h.flatMap_right _
  have hstatus : d.status = d'.status := by
    rw [hd.status, hd'.status, h.all_eq, hissues.isEmpty_eq]
  refine ⟨hstatus, hissues, fun htyped => ?_⟩
  have htyped' : d'.isTyped = true := by
    rwa [Dataset.isTyped, ← hstatus]
  exact ⟨_, _, hd.value htyped, hd'.value htyped', h.flatMap_right _⟩

theorem Context.bound_of_perm (ctx : Context) {m : Value} {id : Nat} (id' : Nat) {kind : ObjectKind}
    {extra : Extra} {absent : Absent} {entries entries' : List (Value × Schema)}
    (h : entries.Perm entries') (x : Value) :
    ctx.bound (.object m id kind extra absent entries) x =
      ctx.bound (.object m id' kind extra absent entries') x := by
  have hschemas := h.map Prod.snd
  unfold bound schemas
  simp only [Schema.roomOfAll, Schema.lazyCountAll, Schema.room, Schema.lazyCount,
    Schema.roomOfEntries_eq, Schema.lazyCountEntries_eq, Schema.total_perm hschemas]

section

variable {ctx : Context} {I : Found → Prop} {U : Schema → Prop} (h : ctx.Definite I U)

include h

/-- An object with its declared keys in another order comes to the same in another order, from
whatever world it starts. -/
theorem Context.Definite.reorders {id : Nat} (id' : Nat) (hfull : ctx.config.abortEarly = false)
    {m : Value} {kind : ObjectKind} {extra : Extra} {absent : Absent} {entries entries' : List (Value × Schema)}
    (hs : U (.object m id kind extra absent entries)) (hperm : entries.Perm entries') {n : Nat}
    {x : Value} {d : Dataset}
    (hd : Gives I ((Schema.object m id kind extra absent entries).validatorUpTo n ctx (.fresh x)) d) :
    ∃ d', Certain I ((Schema.object m id' kind extra absent entries').validatorUpTo n ctx (.fresh x))
      d' ∧ d.Reorders d' := by
  cases hx : x.entries? with
  | none =>
    -- what is no mapping is refused, whatever keys are declared
    have hrefused : (Schema.object m id kind extra absent entries).objection? ctx.typeNames x =
        .ok (some ((Schema.object m id kind extra absent entries).label.finding ctx.typeNames x)) := by
      simp [Schema.objection?, Value.isMapping, hx]
    obtain ⟨i, -, hinvalid⟩ := (outcome_of_yields h.closed hs ⟨n, hd⟩).of_objection hrefused
    have hsame : (Schema.object m id' kind extra absent entries').validatorUpTo n ctx (.fresh x) =
        (Schema.object m id kind extra absent entries).validatorUpTo n ctx (.fresh x) := by
      rw [Schema.validatorUpTo_eq, Schema.validatorUpTo_eq]
      cases x <;> first | rfl | cases hx
    rw [hsame]
    refine ⟨d, ((h.has hs n).run x).certain hd, rfl, .refl _, fun htyped => ?_⟩
    rw [hinvalid] at htyped
    cases htyped
  | some input =>
    have hhas : ∀ e ∈ entries, (Manner.alike I).Has ctx (e.2.validator (Schema.resolveUpTo n)) := by
      intro e he
      rw [← Schema.validatorUpTo_eq]
      exact h.has (h.closed.part hs (List.mem_map_of_mem he)) n
    rw [Schema.validatorUpTo_eq] at hd
    have houtcome := outcome_of_object (R := fun c y part =>
      Gives I (c.validator (Schema.resolveUpTo n) ctx (.fresh y)) part)
      (fun e he => ⟨(hhas e he).keeps, fun _ _ hrun => hrun⟩) hd
    obtain ⟨cs, hcs, hgathered⟩ := gathered_of_object hfull hx houtcome
    -- the contributions of the run, in the other order, make a path of their own
    obtain ⟨cs', hcs', hcontributions⟩ :=
      List.perm_comp_forall₂ (objectSteps_perm hperm input).symm hcs
    have hpath := Gathering.path_of_forall₂ hfull (fun _ _ hc => hc.at_stepKey.appends) hcs'
      (.start (.fresh x) [])
    obtain ⟨d', hfinished⟩ : ∃ d', Gathering.Finished (fun output => .ok (.ofMapping output))
        (.going (Gathering.takeAll (.start (.fresh x) []) cs')) d' := Gathering.exists_finished rfl
    refine ⟨d', ?_, hgathered.reorders hcontributions.symm (gathered_of_finished hfinished)⟩
    rw [Schema.validatorUpTo_eq]
    refine certain_object (fun e he y part hrun => ?_) (fun _ f i hi => (h.report hs f).certain hi) hx
      hpath hfinished
    exact (((hhas e (hperm.mem_iff.mpr he)).run y).certain hrun).toEffect

end

/-! ### Runs -/

/-- Entries are validated in isolation: without early abort, and when callables are pure.

Two runs of an object on mappings that differ under one key only agree besides it.  Two runs on lists
or tuples that differ at one place only agree around it, unless both are refused as a whole.  Declared
keys may stand in another order: then the run ends with the same status, the output lists the same
entries and the issues are the same, in another order. -/
theorem entries_isolated {ctx : Context} {s : Schema} {w w' u : World} {x : Value} {d : Dataset}
    (hfull : ctx.config.abortEarly = false) (hpure : ctx.PureCalls (ctx.Reaches w.resolved s))
    (hapart : Schema.NumberedApart (ctx.Reaches w.resolved s))
    (hpins : ctx.Pins (ctx.Reaches w.resolved s) w.resolved w'.resolved)
    (hrun : s.run ctx (.fresh x) w = (.ok d, u)) :
    (∀ m id kind extra absent entries, s = .object m id kind extra absent entries →
      (∀ (objects : Nat → Value) k x' input input' d' u', k.Keyable objects →
        (∀ e ∈ entries, e.1.Keyable objects) → (∀ e ∈ input ++ input', e.1.Keyable objects) →
        x.entries? = some input → x'.entries? = some input' →
        Value.Entries.besides k input = Value.Entries.besides k input' →
        s.run ctx (.fresh x') w' = (.ok d', u') → d.AgreeBesides k d') ∧
      ∀ id' entries', entries.Perm entries' → ∃ d' u',
        (Schema.object m id' kind extra absent entries').run ctx (.fresh x) w' = (.ok d', u') ∧
          d.Reorders d') ∧
    ∀ before a a' after x' d' u', s.items? x = some (before ++ a :: after) →
      s.items? x' = some (before ++ a' :: after) → s.run ctx (.fresh x') w' = (.ok d', u') →
      d.AgreeAround before.length d' ∨ Dataset.RefusedAlike x x' d d' := by
  have hdefinite : ctx.Definite (ctx.Pins (ctx.Reaches w.resolved s) w.resolved)
      (ctx.Reaches w.resolved s) :=
    Context.definite_of_pins hpure hapart (fun _ _ ht hc => .part ht hc)
      (ctx.leads_reaches w.resolved s)
  have hgives : Gives (ctx.Pins (ctx.Reaches w.resolved s) w.resolved)
      (s.validatorUpTo (ctx.bound s x) ctx (.fresh x)) d := ⟨w, u, fun _ _ _ _ => rfl, hrun⟩
  have houtcome := outcome_of_yields hdefinite.closed .start ⟨_, hgives⟩
  have houtcome' {x' : Value} {d' : Dataset} {u' : World}
      (hrun' : s.run ctx (.fresh x') w' = (.ok d', u')) :=
    outcome_of_yields hdefinite.closed .start (d := d') ⟨ctx.bound s x', w', u', hpins, hrun'⟩
  have hunique : ∀ t y d e, (ctx.Reaches w.resolved s t ∧ ctx.Yields _ t y d) →
      (ctx.Reaches w.resolved s t ∧ ctx.Yields _ t y e) → d = e :=
    fun _ _ _ _ hd he => hdefinite.unique hd.1 hd.2 he.2
  have hreport : ∀ f i j, Gives _ (ctx.report s.message f) i → Gives _ (ctx.report s.message f) j →
      i = j := fun f _ _ => (hdefinite.report .start f).unique
  constructor
  · rintro m id kind extra absent entries rfl
    constructor
    · intro objects k x' input input' d' u' hk hdeclared hkeys hx hx' hbesides hrun'
      rw [List.forall_mem_append] at hkeys
      exact agreeBesides_of_outcomes hfull hunique hreport hk hdeclared hkeys.1 hkeys.2 hx hx' hbesides
        houtcome (houtcome' hrun')
    · intro id' entries' hperm
      obtain ⟨d', hcertain, hreorders⟩ := hdefinite.reorders id' hfull .start hperm hgives
      obtain ⟨u', hrun', -⟩ := hcertain w' hpins
      rw [ctx.bound_of_perm id' hperm] at hrun'
      exact ⟨d', u', hrun', hreorders⟩
  · intro before a a' after x' d' u' hx hx' hrun'
    exact agreeAround_or_refusedAlike hfull hunique
      (fun t y e he => settled_of_yields hdefinite.closed he.1 he.2) hx hx' houtcome (houtcome' hrun')

/-- What is under the key "name" has no bearing on the rest, whichever key is declared first; and neither
has the first item of a list. -/
theorem entries_isolated_name :
    let ctx : Context := ⟨.default, [], [], [], ⟨fun _ _ _ => .error .callable, 0⟩⟩
    let text : Schema := .primitive .null .string
    let tags : Schema := .array .null .none text
    let s : Schema := .object .null 0 .plain .strip .reject [(.str "name", text), (.str "tags", tags)]
    let s' : Schema := .object .null 0 .plain .strip .reject [(.str "tags", tags), (.str "name", text)]
    let without : Value := .ofMapping [(.str "tags", .ofList [.str "a", .int 1])]
    let number : Value :=
      .ofMapping [(.str "name", .int 2), (.str "tags", .ofList [.str "a", .int 1])]
    (∃ d d' e u u' v, s.run ctx (.fresh without) .empty = (.ok d, u) ∧
      s.run ctx (.fresh number) .empty = (.ok d', u') ∧
      s'.run ctx (.fresh without) .empty = (.ok e, v) ∧ d.issues.length = 2 ∧
      d.AgreeBesides (.str "name") d' ∧ d.Reorders e) ∧
    ∃ d d' u u', tags.run ctx (.fresh (.ofList [.str "a", .str "b"])) .empty = (.ok d, u) ∧
      tags.run ctx (.fresh (.ofList [.str "c", .str "b"])) .empty = (.ok d', u') ∧
      d.status = .success ∧ d.AgreeAround 0 d' := by
  intro ctx text tags s s' without number
  have hreaches : ∀ r, r = tags ∨ r = s → ∀ t, ctx.Reaches [] r t → t = text ∨ t = tags ∨ t = s := by
    intro r hr t ht
    refine ht.closed (Q := fun t => t = text ∨ t = tags ∨ t = s) (.inr hr) ?_ ?_
    · rintro _ c (rfl | rfl | rfl) hc
      · cases hc
      · exact .inl (List.mem_singleton.mp hc)
      · rcases List.mem_pair.mp hc with rfl | rfl
        · exact .inl rfl
        · exact .inr (.inl rfl)
    · intro m id getter t h
      simp [text, tags, s] at h
  have hpure : ∀ r, r = tags ∨ r = s → ctx.PureCalls (ctx.Reaches [] r) := by
    refine fun r hr => ⟨fun {t} ht callee hcallee => ?_, fun _ _ _ => rfl⟩
    have hnull : t.callees = [.null] := by
      rcases hreaches r hr t ht with rfl | rfl | rfl <;> rfl
    rw [hnull, List.mem_singleton] at hcallee
    rw [hcallee]
    exact fun _ _ _ => rfl
  have hapart : ∀ r, r = tags ∨ r = s → Schema.NumberedApart (ctx.Reaches [] r) := by
    intro r hr m m' id getter getter' h
    have hlazy := hreaches r hr _ h
    simp [text, tags, s] at hlazy
  constructor
  · have hname : (Value.str "name").Keyable fun _ => .null :=
      Target.keyable_of_accepts (t := .string) rfl fun _ h => by cases h
    have htags : (Value.str "tags").Keyable fun _ => .null :=
      Target.keyable_of_accepts (t := .string) rfl fun _ h => by cases h
    obtain ⟨d, u, hd, htwo⟩ : ∃ d u, s.run ctx (.fresh without) .empty = (.ok d, u) ∧
        d.issues.length = 2 := by
      dsimp only [ctx, text, tags, s, without]
      refine ⟨_, _, rfl, ?_⟩
      rfl
    obtain ⟨d', u', hd'⟩ : ∃ d' u', s.run ctx (.fresh number) .empty = (.ok d', u') := by
      dsimp only [ctx, text, tags, s, number]
      exact ⟨_, _, rfl⟩
    obtain ⟨hbesides, hreorders⟩ := (@entries_isolated ctx s .empty .empty u without d rfl
      (hpure s (.inr rfl)) (hapart s (.inr rfl)) (fun _ _ _ _ => rfl) hd).1 _ _ _ _ _ _ rfl
    obtain ⟨e, v, he, hreorder⟩ := hreorders 0 [(.str "tags", tags), (.str "name", text)] (.swap _ _ _)
    refine ⟨d, d', e, u, u', v, hd, hd', he, htwo, ?_, hreorder⟩
    refine hbesides (fun _ => .null) (.str "name") number _ _ d' u' hname ?_ ?_ rfl rfl ?_ hd'
    · exact List.forall_mem_cons.mpr ⟨hname, List.forall_mem_singleton.mpr htags⟩
    · exact List.forall_mem_cons.mpr ⟨htags,
        List.forall_mem_cons.mpr ⟨hname, List.forall_mem_singleton.mpr htags⟩⟩
    · rfl
  · have hd : tags.run ctx (.fresh (.ofList [.str "a", .str "b"])) .empty =
        (.ok (.valid (.ofList [.str "a", .str "b"])), .empty) := rfl
    have hd' : tags.run ctx (.fresh (.ofList [.str "c", .str "b"])) .empty =
        (.ok (.valid (.ofList [.str "c", .str "b"])), .empty) := rfl
    have haround := (@entries_isolated ctx tags .empty .empty .empty _ _ rfl (hpure tags (.inl rfl))
      (hapart tags (.inl rfl)) (fun _ _ _ _ => rfl) hd).2 [] (.str "a") (.str "c") [.str "b"] _ _ _
      rfl rfl hd'
    refine ⟨_, _, _, _, hd, hd', rfl, haround.resolve_right ?_⟩
    rintro ⟨i, message, -, -, hinvalid, -⟩
    cases hinvalid

/-- What a list is refused for as a whole is reported with the list, so with all of its items. -/
theorem size_not_isolated :
    let ctx : Context := ⟨.default, [], [], [], ⟨fun _ _ _ => .error .callable, 0⟩⟩
    let s : Schema := .array .null ⟨some ⟨2, .int 2⟩, none⟩ (.primitive .null .string)
    ∃ d d' u u', s.run ctx (.fresh (.ofList [.int 1])) .empty = (.ok d, u) ∧
      s.run ctx (.fresh (.ofList [.int 2])) .empty = (.ok d', u') ∧
      Issue.besides (.int 0) d.issues ≠ Issue.besides (.int 0) d'.issues := by
  intro ctx s
  let alike (is : List Issue) : Bool := is.all fun i => i.input.keyEq (.ofList [.int 1])
  let reported (x : Value) : Option Bool :=
    (s.run ctx (.fresh x) .empty).1.toOption.map fun d => alike (Issue.besides (.int 0) d.issues)
  have hrun {x : Value} {b : Bool} (h : reported x = some b) : ∃ d u,
      s.run ctx (.fresh x) .empty = (.ok d, u) ∧ alike (Issue.besides (.int 0) d.issues) = b := by
    simp only [reported] at h
    rcases hx : s.run ctx (.fresh x) .empty with ⟨f | d, u⟩ <;> rw [hx] at h
    · cases h
    · exact ⟨d, u, rfl, Option.some.inj h⟩
  obtain ⟨d, u, hd, halike⟩ := hrun (x := .ofList [.int 1]) (b := true) (by decide +kernel)
  obtain ⟨d', u', hd', hother⟩ := hrun (x := .ofList [.int 2]) (b := false) (by decide +kernel)
  refine ⟨d, d', u, u', hd, hd', fun h => ?_⟩
  rw [h, hother] at halike
  cases halike

end Conform
