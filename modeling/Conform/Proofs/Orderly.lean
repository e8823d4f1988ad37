/-
  Conform/Proofs/Orderly.lean
  ===========================
  **Outputs are well formed.**  Of a mapping that someone has built it is known that
  its keys are told apart; of an output it has to be proved.  So the orderly values, which
  can be merged, are followed through a run.

  Whatever a schema comes to from a sound value is orderly (`orderly_of_yields`).  An
  object writes the keys that it declares, and keeps others; a map and a record write
  keys that have been accepted, which are regular (`regular_of_checked`).  Only
  transforms and defaults can bring other values in.
-/
import Conform.Proofs.Contributions
import Conform.Proofs.Lasting
import Conform.Proofs.Merging

namespace Conform

open Validator

/-- What defaults supply and what transforms make of orderly values is orderly, and the keys that an
object declares are told apart. -/
structure Context.Orderly (ctx : Context) (objects : Nat → Value) (U : Schema → Prop) : Prop where
  regular : ctx.Regular objects U
  supplies {m given : Value} {inner : Schema} : U (.wrapper m (.default given) inner) →
    ∀ y, Gives (fun _ => True) (supply ctx given) y → y.Held objects
  transforms {m transform : Value} {inner : Schema} : U (.overwrite m transform inner) →
    ∀ x y, x.Orderly objects → Gives (fun _ => True) (ctx.invoke transform [.value x]) y →
      y.Orderly objects
  declared {m : Value} {id : Nat} {kind : ObjectKind} {extra : Extra} {absent : Absent}
    {entries : List (Value × Schema)} : U (.object m id kind extra absent entries) →
    ((entries.map (·.1)).Pairwise fun k l => k.keyEq l = false) ∧
      ∀ e ∈ entries, e.1.Keyable objects

section

variable {ctx : Context} {objects : Nat → Value} {I : Found → Prop} {U : Schema → Prop}

namespace Value

theorem Sound.orderly {v : Value} (h : v.Sound objects) (hheld : v.Held objects) :
    v.Orderly objects where
  held := hheld
  keyed _ hentries := by
    obtain ⟨hapart, hkeys, -⟩ := h.entries hentries
    exact .of_forall hapart hkeys

theorem orderly_ofMapping {entries : Entries} (h : entries.Keyed objects) :
    (ofMapping entries).Orderly objects where
  held _ hi := by cases hi
  keyed _ hentries := by
    cases hentries
    exact h

/-- A value that was made and is no mapping is orderly. -/
theorem IsMade.orderly {v : Value} (h : v.IsMade) (hv : v.entries? = none) : v.Orderly objects where
  held i hi := (h i hi).elim
  keyed _ hentries := by cases hv.symm.trans hentries

end Value

theorem orderly_of_judgement {s : Schema} {j : Judgement} (hj : s.judgement? = some j)
    {names : TypeNames} {x y : Value} (hx : x.Orderly objects) (h : j names x = .ok (.inl y)) :
    y.Orderly objects := by
  rcases Schema.cases_of_judgement hj h with rfl | ⟨m, t, rfl, hcoerce⟩
  · exact hx
  · obtain ⟨haccepts, -, rfl | hmade⟩ := Target.coerce?_again hcoerce
    · exact hx
    · obtain ⟨id, s, rfl, -⟩ := Target.scalar_of_accepts haccepts
      exact hmade.orderly rfl

theorem orderly_of_layout {s : Schema} {x y : Value} {ys : List Value} {parts : List Position}
    {make : List Value → Except Fault Value} (hlayout : s.layout? x = some (parts, make))
    (hmake : make ys = .ok y) : y.Orderly objects := by
  cases Schema.makes_of_layout hlayout hmake with
  | list => exact Value.IsMade.orderly (fun _ h => by cases h) rfl
  | @set frozen members =>
    refine Value.IsMade.orderly (fun _ h => ?_) rfl
    cases frozen <;> cases members <;> cases h
  | tuple =>
    refine Value.IsMade.orderly (fun _ h => ?_) rfl
    cases ys <;> cases h

/-! ### Objects -/

/-- What a step of an object writes is under its key. -/
theorem ObjectBrings.sublist {R : Runs} {l : Label} {kind : ObjectKind} {extra : Extra}
    {absent : Absent} {input : Value.Entries} {s : (Value × Schema) ⊕ (Value × Value)}
    {c : Contribution Value.Entries} (h : ObjectBrings ctx I R l kind extra absent input s c)
    (output : Value.Entries) :
    (c.put output).keys.Sublist (output.keys ++ [stepKey s]) := by
  have append (e : Value × Value) :
      (output ++ [e] : Value.Entries).keys.Sublist (output.keys ++ [e.1]) := by
    rw [Value.Entries.keys, List.map_append]
    exact List.Sublist.refl _
  have put (key v : Value) : (putEntry key v output).keys.Sublist (output.keys ++ [key]) := by
    unfold putEntry
    split
    · exact List.sublist_append_left _ _
    · exact append (key, v)
  cases h with
  | declared h =>
    cases h with
    | present => exact put _ _
    | validated => exact put _ _
    | skipped => exact List.sublist_append_left _ _
    | missing => exact List.sublist_append_left _ _
  | extra h =>
    cases h with
    | dropped => exact List.sublist_append_left _ _
    | kept => exact append _
    | unexpected => exact List.sublist_append_left _ _

/-- The keys that have been written along a path are among those of its steps, in order. -/
theorem Gathering.keys_of_going {σ : Type} {key : σ → Value}
    {brings : σ → Contribution Value.Entries → Prop}
    (hput : ∀ s c, brings s c → ∀ output : Value.Entries,
      (c.put output).keys.Sublist (output.keys ++ [key s]))
    {xs : List σ} {g g' : Gathering Value.Entries} (h : Path ctx brings xs g (.going g')) :
    g'.output.keys.Sublist (g.output.keys ++ xs.map key) := by
  generalize hp : Progress.going g' = p at h
  induction h with
  | done =>
    cases hp
    exact List.sublist_append_left _ _
  | @next s rest c g g₁ p hc hreceive _ ih =>
    have hfirst : g₁.output.keys.Sublist (g.output.keys ++ [key s]) := by
      rw [eq_of_receive hreceive]
      dsimp only
      split
      · exact hput s c hc _
      · exact List.sublist_append_left _ _
    refine (ih hp).trans ?_
    rw [List.map_cons, List.append_cons]
    exact hfirst.append_right _
  | stop => cases hp

/-- The keys that an object declares and those that it does not are told apart. -/
theorem keyed_of_objectSteps {entries : List (Value × Schema)} {input : Value.Entries}
    (hapart : (entries.map (·.1)).Pairwise fun k l => k.keyEq l = false)
    (hkeyable : ∀ e ∈ entries, e.1.Keyable objects) (hinput : input.Keyed objects) :
    ((objectSteps entries input).map stepKey).Pairwise (fun k l => k.keyEq l = false) ∧
      ∀ k ∈ (objectSteps entries input).map stepKey, k.Keyable objects := by
  have hkeys : (objectSteps entries input).map stepKey =
      entries.map (·.1) ++ (Schema.undeclared entries input).keys := by
    rw [objectSteps, List.map_append, List.map_map, List.map_map]
    rfl
  have hundeclared : (Schema.undeclared entries input).Keyed objects :=
    hinput.sublist List.filter_sublist
  rw [hkeys, List.pairwise_append]
  refine ⟨⟨hapart, hundeclared.apart, fun k hk l hl => ?_⟩, ?_⟩
  · obtain ⟨e, he, rfl⟩ := List.mem_map.mp hk
    obtain ⟨f, hf, rfl⟩ := List.mem_map.mp hl
    have hnone := (List.mem_filter.mp hf).2
    simp only [Bool.not_eq_true', List.any_eq_false, Bool.not_eq_true] at hnone
    exact hnone e he
  · exact List.forall_mem_append.mpr ⟨List.forall_mem_map.mpr hkeyable, hundeclared.keyable⟩

/-! ### Maps and records -/

/-- A key that is accepted, possibly as another, is regular. -/
theorem regular_of_checked {R : Runs} {l : Label} {messageKey : String} {key x : Value} {s : Schema}
    {y : Value × Bool}
    (hR : ∀ d, R s x d → d.isTyped = true → d.value.Regular objects) (hx : x.Regular objects)
    (h : Checked ctx I R l messageKey key s x (.inr y)) : y.1.Regular objects := by
  generalize hr : (Sum.inr y : Issue ⊕ (Value × Bool)) = r at h
  cases h with
  | refused => cases hr
  | excused =>
    cases hr
    exact hx
  | @valid d hrun hstatus =>
    have hvalue := hR d hrun (by rw [Dataset.isTyped, hstatus]; rfl)
    split at hr
    · cases hr
      exact hx
    · cases hr
      exact hvalue

theorem Borrowed.orderly_own {b : Borrowed} (h : b.value.Orderly objects) :
    b.own.value.Orderly objects := by
  unfold own
  split
  · exact h
  · cases hentries : b.value.entries? with
    | none => exact Value.orderly_ofMapping (by rw [entries, hentries]; exact .nil)
    | some es => exact Value.orderly_ofMapping (by rw [entries, hentries]; exact h.keyed es hentries)

/-- A mapping that is written over stays orderly, also when a fault ends the writing. -/
theorem Borrowed.orderly_replace {b : Borrowed} (h : b.value.Orderly objects) (key v : Value)
    {newKey : Value} (hkey : newKey.Regular objects) :
    (b.replace key newKey v).1.value.Orderly objects := by
  have hentries : b.entries.Keyed objects := by
    rw [entries]
    cases hes : b.value.entries? with
    | none => exact .nil
    | some es => exact h.keyed es hes
  have herased : (b.entries.erase key).Keyed objects := by
    cases hcontains : b.entries.contains key with
    | false => rwa [Value.Entries.erase_of_not_contains hcontains]
    | true =>
      obtain ⟨before, e, after, heq, -, -, -, herase⟩ := Value.Entries.exists_split hcontains
      rw [herase]
      refine hentries.sublist ?_
      rw [heq]
      exact (List.Sublist.refl before).append (List.sublist_cons_self e after)
  rcases b.value_of_replace key newKey v with hown | herase | ⟨hhashable, es, hes, hinsert⟩
  · rw [hown]
    exact orderly_own h
  · rw [herase]
    exact Value.orderly_ofMapping herased
  · rw [hinsert]
    refine Value.orderly_ofMapping (Value.Entries.Keyed.insert ?_ (hkey hhashable) v)
    rcases hes with rfl | rfl
    · exact hentries
    · exact herased

/-! ### Operators -/

/-- What orderly values are merged into is orderly. -/
theorem orderly_of_merge {a b y : Value} (ha : a.Orderly objects) (hb : b.Orderly objects)
    (h : merge? a b = .ok (some y)) : y.Orderly objects := by
  by_cases hall : AllMappings [a, b]
  · obtain ⟨hmapping, hmapping'⟩ := allMappings_pair.mp hall
    obtain ⟨xs, hxs⟩ := exists_entries hmapping
    obtain ⟨ys, hys⟩ := exists_entries hmapping'
    cases (merge?_of_mappings hxs hys).symm.trans h
    exact Value.orderly_ofMapping ((ha.keyed xs hxs).insertAll fun e he => (hb.keyed ys hys).mem he)
  · rw [merge?_of_others hall] at h
    rcases hagree : a.strictEq b with f | (_ | _) <;> rw [hagree] at h <;> cases h
    exact ha

theorem orderly_of_mergeAll {first y : Value} {rest : List Value} (hfirst : first.Orderly objects)
    (hrest : ∀ v ∈ rest, v.Orderly objects) (h : mergeAll? first rest = .ok (some y)) :
    y.Orderly objects := by
  induction rest generalizing first with
  | nil =>
    cases h
    exact hfirst
  | cons b rest ih =>
    rw [List.forall_mem_cons] at hrest
    rcases hmerge : merge? first b with f | (_ | merged)
    · cases (mergeAll?_cons_error hmerge).symm.trans h
    · cases (mergeAll?_cons_none hmerge).symm.trans h
    · rw [mergeAll?_cons hmerge] at h
      exact ih (orderly_of_merge hfirst hrest.1 hmerge) hrest.2 h

/-! ### Runs -/

/-- The runs of the schemas under consideration, which come to orderly values. -/
def Context.RunsOrderly (ctx : Context) (objects : Nat → Value) (I : Found → Prop) (U : Schema → Prop) :
    Runs := fun s x d =>
  U s ∧ ctx.Yields I s x d ∧
    (x.Sound objects → x.Held objects → d.isTyped = true → d.value.Orderly objects)

theorem orderly_of_members {x : Value} (hx : x.Sound objects) (hheld : x.Held objects)
    {members : List Schema} {d : Dataset} {g : Gathering (List Value)}
    (hp : Gathering.Path ctx (MemberBrings (ctx.RunsOrderly objects I U) x) members (.start d [])
      (.going g)) : ∀ v ∈ g.output, v.Orderly objects := by
  refine Gathering.output_of_going (O := fun ys => ∀ v ∈ ys, v.Orderly objects)
    (fun s _ c hc htyped ys hys => ?_) hp fun v hv => by cases hv
  cases hc with
  | run hrun =>
    have hmember := hrun.2.2 hx hheld htyped
    exact List.forall_mem_append.mpr ⟨hys, List.forall_mem_singleton.mpr hmember⟩

section

variable (hclosed : ctx.Closed I U) (h : ctx.Orderly objects U)

include hclosed h

theorem orderly_of_map {key value : Schema} {x : Value}
    {input : Value.Entries} (hx : x.Sound objects) (hheld : x.Held objects)
    (hinput : x.entries? = some input) {l : Label} {p : Progress Borrowed} {d : Dataset}
    (hp : Gathering.Path ctx (MapBrings ctx I (ctx.RunsOrderly objects I U) l key value) input
      (.start (.fresh x) ⟨x, false⟩) p)
    (hfinished : MapFinished p d) (htyped : d.isTyped = true) : d.value.Orderly objects := by
  obtain ⟨-, hkeys, -⟩ := hx.entries hinput
  cases hfinished with
  | stopped | failed => cases htyped
  | @valid g =>
    refine Gathering.output_of_going (O := fun b : Borrowed => b.value.Orderly objects)
      (fun e he c hc _ b hb => ?_) hp (hx.orderly hheld)
    cases hc with
    | badKey | badValue => exact hb
    | accepted hchecked =>
      dsimp only [Contribution.plain]
      split
      · refine Borrowed.orderly_replace hb _ _ (regular_of_checked (fun d hd htyped => ?_)
          (hkeys e he).sound.regular hchecked)
        exact regular_of_yields hclosed h.regular hd.1 hd.2.1 (hkeys e he).sound htyped
      · exact hb

theorem orderly_of_record {key value : Schema} {x : Value} {input : Value.Entries}
    (hx : x.Sound objects) (hinput : x.entries? = some input) {l : Label}
    {g : Gathering Value.Entries}
    (hp : Gathering.Path ctx (RecordBrings ctx I (ctx.RunsOrderly objects I U) l key value) input
      (.start (.fresh x) []) (.going g)) : (Value.ofMapping g.output).Orderly objects := by
  obtain ⟨-, hkeys, -⟩ := hx.entries hinput
  refine Value.orderly_ofMapping (Gathering.output_of_going
    (O := fun output : Value.Entries => output.Keyed objects)
    (fun e he c hc htyped output houtput => ?_) hp .nil)
  cases hc with
  | badKey => cases htyped
  | @run newKey part hchecked hrun hhashable =>
    have hregular := regular_of_checked (fun d hd htyped =>
      regular_of_yields hclosed h.regular hd.1 hd.2.1 (hkeys e he).sound htyped)
      (hkeys e he).sound.regular hchecked
    have hjustified := (settled_of_yields hclosed hrun.1 hrun.2.1).justified
    refine houtput.insert (hregular (hhashable htyped ?_)) _
    by_cases hissues : part.issues = []
    · exact .inl hissues
    · exact .inr (hjustified.typed htyped hissues).1

/-- What the parts of a schema keep, the schema keeps: from a sound value it comes to an orderly one. -/
theorem orderly_of_outcome {s : Schema} (hs : U s) {x : Value} {d : Dataset}
    (houtcome : s.Outcome ctx I (ctx.RunsOrderly objects I U) x d) (hx : x.Sound objects)
    (hheld : x.Held objects) (htyped : d.isTyped = true) : d.value.Orderly objects := by
  have hself := hx.orderly hheld
  cases houtcome with
  | accepted hj hverdict => exact orderly_of_judgement hj hself hverdict
  | rejected | objected | noneOf => cases htyped
  | untyped _ huntyped => cases huntyped.symm.trans htyped
  | passed hrun => exact hrun.2.2 hx hheld htyped
  | violated hrun htyped' =>
    rw [Dataset.value_violate]
    exact hrun.2.2 hx hheld htyped'
  | spared hspared =>
    rcases (Wrapping.spared?_again hspared).2 with rfl | rfl
    · exact hself
    · exact Value.isMade_null.orderly rfl
  | wrapped _ _ hrun => exact hrun.2.2 hx hheld htyped
  | supplied hdefault hy hrun =>
    obtain rfl := Wrapping.eq_default_of_default? hdefault
    exact hrun.2.2 (h.regular.supplies hs _ hy.free) (h.supplies hs _ hy.free) htyped
  | overwritten hrun hstatus hy =>
    refine h.transforms hs _ _ (hrun.2.2 hx hheld ?_) hy.free
    rw [Dataset.isTyped, hstatus]
    rfl
  | untouched hrun => exact hrun.2.2 hx hheld htyped
  | behind _ hrun => exact hrun.2.2 hx hheld htyped
  | sequence _ hlayout hp hfinished =>
    obtain ⟨g, rfl, hmake⟩ := Gathering.made_of_finished hfinished htyped
    exact orderly_of_layout hlayout hmake
  | object hinput hp hfinished =>
    obtain ⟨g, rfl, hmake⟩ := Gathering.made_of_finished hfinished htyped
    obtain ⟨hapart, hkeyable⟩ := h.declared hs
    obtain ⟨hkeys, hkeyable⟩ := keyed_of_objectSteps hapart hkeyable (hself.keyed _ hinput)
    have hsublist := Gathering.keys_of_going (fun _ _ hc => hc.sublist) hp
    rw [← Except.ok.inj hmake]
    exact Value.orderly_ofMapping ⟨hkeys.sublist hsublist, fun k hk => hkeyable k (hsublist.subset hk)⟩
  | map hinput _ hp hfinished =>
    exact orderly_of_map hclosed h hx hheld hinput hp hfinished htyped
  | record hinput hp hfinished =>
    obtain ⟨g, rfl, hmake⟩ := Gathering.made_of_finished hfinished htyped
    rw [← Except.ok.inj hmake]
    exact orderly_of_record hclosed h hx hinput hp
  | first _ hrun hstatus =>
    refine hrun.2.2 hx hheld ?_
    rw [Dataset.isTyped, hstatus]
    rfl
  | intersection hp hmerged =>
    cases hmerged with
    | stopped | conflict | failed => cases htyped
    | valid _ houtput hmerge | partly _ houtput hmerge =>
      have hmembers := orderly_of_members hx hheld hp
      rw [houtput, List.forall_mem_cons] at hmembers
      exact orderly_of_mergeAll hmembers.1 hmembers.2 hmerge

/-- Whatever a schema comes to from a sound value is orderly, if it is typed. -/
theorem orderly_of_yields {s : Schema} (hs : U s) {x : Value} {d : Dataset}
    (hd : ctx.Yields I s x d) (hx : x.Sound objects) (hheld : x.Held objects)
    (htyped : d.isTyped = true) : d.value.Orderly objects :=
  yields_induction hclosed
    (P := fun _ x d => x.Sound objects → x.Held objects → d.isTyped = true → d.value.Orderly objects)
    (fun _ _ _ hs houtcome hx hheld htyped =>
      orderly_of_outcome hclosed h hs houtcome hx hheld htyped) hs hd hx hheld htyped

end

end

end Conform
