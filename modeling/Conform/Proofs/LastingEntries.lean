/-
  Conform/Proofs/LastingEntries.lean
  ==================================
  **What lasts of maps and records.**  A key or value that was accepted is accepted
  again, and stays what it is.  There is one exception: a new key that is equal to
  the old one and of its type is not written, so the old one is met again; but then
  it is accepted as the same new key as before (`Schema.Accepted`).

  A map is gone through twice.  The first time its entries are renamed, and every
  step leaves a copy in which the entries are done or still to come (`Copied`); the
  second time each entry is written in its own place (`answers_of_map`).
-/
import Conform.Proofs.LastingItems

namespace Conform

open Validator

/-! ### Keys and values -/

namespace Schema

/-- A key or value is accepted as something, in whatever mapping it is; the flag says whether it is
replaced by that. -/
def Takes (ctx : Context) (s : Schema) (x : Value) (y : Value × Bool) : Prop :=
  ∀ l messageKey key, Checked ctx (fun _ => True) ctx.Answers l messageKey key s x (.inr y)

/-- What a key or value has been accepted as, and what will be accepted the next time. -/
structure Accepted (ctx : Context) (objects : Nat → Value) (s : Schema) (x : Value)
    (y : Value × Bool) : Prop where
  regular : y.1.Regular objects
  stays : y.1.Whole → ∃ replaced, s.Takes ctx y.1 (y.1, replaced)
  again : y.1.isHashable = true → s.Takes ctx x y
  asIs : y.2 = false → y.1 = x ∧ (x.Whole → s.Takes ctx x (x, false))

theorem takes_of_answers {ctx : Context} {s : Schema} {x y : Value}
    (h : ctx.Answers s x (.valid y)) :
    s.Takes ctx x (if y.same x then (x, false) else (y, true)) :=
  fun _ _ _ => .valid (d := .valid y) h rfl

/-- A key that comes to a key which is written in its place. -/
def StaysInPlace (ctx : Context) (objects : Nat → Value) (s : Schema) (k : Value) : Prop :=
  ∃ y : Value × Bool, y.1.Keyable objects ∧ Borrowed.keeps k y.1 = .ok true ∧ s.Takes ctx k y

end Schema

section

variable {ctx : Context} {objects : Nat → Value} {U : Schema → Prop} (h : ctx.Repeats objects U)

include h

/-- A key or value that has been accepted once is accepted again. -/
theorem Context.Repeats.accepted_of_checked {s : Schema} (hs : U s) {x : Value}
    (hx : x.Sound objects) {l : Label} {messageKey : String} {key : Value} {y : Value × Bool}
    (hchecked : Checked ctx (fun _ => True) (ctx.Lasting objects U) l messageKey key s x (.inr y)) :
    s.Accepted ctx objects x y := by
  generalize hr : (Sum.inr y : Issue ⊕ (Value × Bool)) = r at hchecked
  cases hchecked with
  | refused => cases hr
  | @valid d hrun hstatus =>
    have hvalid := h.eq_valid hs hrun.2.1 hstatus
    have hlasts := hrun.2.2 hx _ hvalid
    have hregular := regular_of_yields h.closed h.regular hs hrun.2.1 hx (by rw [hvalid]; rfl)
    have hyields := hrun.2.1
    rw [hvalid] at hyields
    have hagain (hhashable : d.value.isHashable = true) :=
      Schema.takes_of_answers (h.answers_of_hashable hs hyields hhashable)
    cases hsame : d.value.same x with
    | true =>
      rw [hsame] at hr
      simp only [hsame, if_true] at hagain
      cases hr
      have heq := hlasts.same hsame
      rw [heq] at hlasts hregular hagain hsame
      have hstays (hwhole : x.Whole) : s.Takes ctx x (x, false) := by
        have htakes := Schema.takes_of_answers (hlasts.again hwhole)
        rwa [if_pos hsame] at htakes
      exact ⟨hregular, fun hwhole => ⟨false, hstays hwhole⟩, hagain, fun _ => ⟨rfl, hstays⟩⟩
    | false =>
      rw [hsame] at hr
      simp only [hsame] at hagain
      cases hr
      refine ⟨hregular, fun hwhole => ?_, hagain, fun hreplaced => by cases hreplaced⟩
      have htakes := Schema.takes_of_answers (hlasts.again hwhole)
      cases hself : d.value.same d.value with
      | true => exact ⟨false, by rwa [if_pos hself] at htakes⟩
      | false => exact ⟨true, by rwa [hself] at htakes⟩
  | @excused d i rest hrun hstatus hissues hexcused =>
    -- the message that excuses it is the same the next time, or there is no such message
    cases hr
    rcases h.messages with ⟨hmessages, hconfig⟩ | ⟨hspeaks, hconfig⟩
    · have htakes : s.Takes ctx x (x, false) := fun _ _ _ =>
        .excused ((h.steadies hmessages hconfig).answers hs hrun.2.1) hstatus hissues hexcused
      exact ⟨hx.regular, fun _ => ⟨false, htakes⟩, fun _ => htakes, fun _ => ⟨rfl, fun _ => htakes⟩⟩
    · have hnot := speaks_of_yields h.closed hconfig hspeaks hs hrun.2.1 i (by simp [hissues])
      cases hexcused.symm.trans hnot

omit h in
theorem realizes_answers (ctx : Context) (s : Schema) :
    Realizes ctx ctx.Answers (s.validator (Schema.resolveUpTo 0)) s := by
  intro x d hd
  rwa [← Schema.validatorUpTo_eq]

/-! ### Maps -/

/-- The copy of a map when its entries are done up to the rest.  Every key stays in its place, and
every value is accepted again; and if nothing was replaced, all is taken as it is. -/
structure Copied (ctx : Context) (objects : Nat → Value) (key value : Schema) (x : Value)
    (entries rest : Value.Entries) (b : Borrowed) : Prop where
  kept : Value.Entries.Kept objects
    (fun k => k.Whole → k.eq k = .ok true → key.StaysInPlace ctx objects k)
    (fun v => v.Whole → ∃ replaced, value.Takes ctx v (v, replaced)) entries.length rest b.entries
  value : b.value = .ofMapping b.entries ∨ b.value = x ∧ ∃ done, entries = done ++ rest ∧
    ∀ e ∈ done, (e.1.Whole → key.Takes ctx e.1 (e.1, false)) ∧
      (e.2.Whole → value.Takes ctx e.2 (e.2, false))

omit h in
theorem Copied.step {key value : Schema} {x : Value} {entries rest : Value.Entries}
    {e : Value × Value} {b b' : Borrowed} (hb : Copied ctx objects key value x entries (e :: rest) b)
    (hrest : Value.Entries.Keyed objects (e :: rest)) {newKey newValue : Value × Bool}
    (hkey : key.Accepted ctx objects e.1 newKey) (hvalue : value.Accepted ctx objects e.2 newValue)
    (hstep : if newKey.2 || newValue.2 then b.replace e.1 newKey.1 newValue.1 = (b', none)
      else b' = b) : Copied ctx objects key value x entries rest b' := by
  have he : e.1.Keyable objects := hrest.mem List.mem_cons_self
  split at hstep
  · obtain ⟨hhashable, hmapping, hentries⟩ := Borrowed.cases_of_replace hstep
    have hnew : newKey.1.Keyable objects := hkey.regular hhashable
    have hstays (hwhole : newKey.1.Whole) (hself : newKey.1.eq newKey.1 = .ok true) :
        key.StaysInPlace ctx objects newKey.1 := by
      obtain ⟨replaced, htakes⟩ := hkey.stays hwhole
      exact ⟨(newKey.1, replaced), hnew, Borrowed.keeps_iff.mpr ⟨rfl, hself⟩, htakes⟩
    refine ⟨?_, .inl hmapping⟩
    rcases hentries with ⟨hkeeps, heq⟩ | ⟨-, hcontains, heq⟩
    · -- the old key stays, and will come to the same new key again
      rw [heq]
      have hsame : e.1.keyEq newKey.1 = true :=
        Value.keyEq_symm hnew he (Value.keyEq_iff.mpr (.inr (Borrowed.keeps_iff.mp hkeeps).2))
      exact hb.kept.overwrite hrest hnew hsame
        (fun _ _ => ⟨newKey, hnew, hkeeps, hkey.again hhashable⟩) hstays hvalue.stays
    · rw [heq]
      exact hb.kept.move hrest hcontains hnew hstays hvalue.stays
  · next hnone =>
    rw [Bool.not_eq_true, Bool.or_eq_false_iff] at hnone
    obtain ⟨-, hkeyAsIs⟩ := hkey.asIs hnone.1
    obtain ⟨-, hvalueAsIs⟩ := hvalue.asIs hnone.2
    subst hstep
    refine ⟨hb.kept.skip (fun hwhole hself => ?_) fun hwhole => ⟨false, hvalueAsIs hwhole⟩, ?_⟩
    · exact ⟨_, he, Borrowed.keeps_iff.mpr ⟨rfl, hself⟩, hkeyAsIs hwhole⟩
    · rcases hb.value with hmapping | ⟨hvalue, done, hdone, hall⟩
      · exact .inl hmapping
      · refine .inr ⟨hvalue, done ++ [e], by simp [hdone], ?_⟩
        rw [List.forall_mem_append, List.forall_mem_singleton]
        exact ⟨hall, hkeyAsIs, hvalueAsIs⟩

/-- A map that is valid has gone through all its entries, and is the copy that is left. -/
theorem Context.Repeats.copied_of_map {m : Value} {limits : Limits} {key value : Schema}
    (hs : U (.map m limits key value)) {x y : Value} (hx : x.Sound objects) {n : Nat}
    (hkey : Follows ctx (fun _ => True) (ctx.Lasting objects U) (key.validatorUpTo n) key)
    (hvalue : Follows ctx (fun _ => True) (ctx.Lasting objects U) (value.validatorUpTo n) value)
    (hrun : Gives (fun _ => True)
      ((Schema.map m limits key value).validatorUpTo n ctx (.fresh x)) (.valid y)) :
    ∃ entries b, x.entries? = some entries ∧
      sizeFinding? (Schema.map m limits key value).label limits x entries.length = .ok none ∧
      b.value = y ∧ Copied ctx objects key value x entries [] b := by
  have hU : U key ∧ U value := ⟨h.part hs (by simp [Schema.children]), h.part hs (by simp [Schema.children])⟩
  rw [Schema.validatorUpTo_eq] at hkey hvalue hrun
  cases x with
  | mapping id kind entries =>
    obtain ⟨hapart, hkeys, hvalues⟩ := hx.entries rfl
    have hkeyed := Value.Entries.Keyed.of_forall hapart hkeys
    rcases gives_ifSized hrun with ⟨f, i, -, -, hd⟩ | ⟨hsize, hrun⟩
    · cases congrArg Dataset.status hd
    have hkeep : ∀ e ∈ entries, ∀ g, Keeps (fun _ => True)
        (mapStep (Schema.map m limits key value).label ⟨key.expects, _⟩ ⟨value.expects, _⟩ ctx e g) :=
      fun e _ => keeps_mapStep hkey.keeps hvalue.keeps _ e
    obtain ⟨p, hp, hend⟩ := gives_bind (Gathering.keeps_steps hkeep _) hrun
    cases p with
    | stopped d =>
      obtain ⟨-, hd⟩ := Gathering.gives_giveUp hend
      cases congrArg Dataset.status hd
    | going g =>
      have hclean : g.dataset.issues = [] ∧ y = g.output.value := by
        dsimp only at hend
        split at hend
        · next hclean => exact ⟨List.isEmpty_iff.mp hclean, congrArg Dataset.value (gives_pure hend)⟩
        · obtain ⟨-, hd⟩ := Gathering.gives_giveUp hend
          cases congrArg Dataset.status hd
      -- the invariant of the loop: without issues so far, the copy is done up to the rest
      let J (rest : Value.Entries) (g : Gathering Borrowed) : Prop :=
        g.dataset.issues = [] → (∃ done, entries = done ++ rest) ∧
          Copied ctx objects key value (.mapping id kind entries) entries rest g.output
      have hJ : J [] g := by
        refine Gathering.going_of_steps (J := J) hkeep (fun e rest g g' hg hstep => ?_) hp fun _ => ?_
        · rcases gives_mapStep_cases hkey hvalue hstep with ⟨i, -, hq⟩ |
            ⟨newKey, newValue, output, hchecked, hchecked', houtput, hq⟩
          · intro hclean'
            rw [Gathering.eq_of_receive hq.symm] at hclean'
            cases (List.append_eq_nil_iff.mp hclean').2
          · cases hq
            intro hclean'
            obtain ⟨⟨done, hdone⟩, hcopied⟩ := hg hclean'
            have he : e ∈ entries := by simp [hdone]
            have hrest : Value.Entries.Keyed objects (e :: rest) :=
              hkeyed.sublist (by rw [hdone]; exact List.sublist_append_right _ _)
            refine ⟨⟨done ++ [e], by simp [hdone]⟩, hcopied.step hrest ?_ ?_ houtput⟩
            · exact h.accepted_of_checked hU.1 (hkeys e he).sound hchecked
            · exact h.accepted_of_checked hU.2 (hvalues e he) hchecked'
        · exact ⟨⟨[], rfl⟩, .start hkeyed, .inr ⟨rfl, [], rfl, List.forall_mem_nil _⟩⟩
      exact ⟨entries, g.output, rfl, hsize, hclean.2.symm, (hJ hclean.1).2⟩
  | _ =>
    obtain ⟨i, -, hd⟩ := gives_reject hrun
    cases congrArg Dataset.status hd

omit h in
/-- An entry that is taken, and that changes nothing if it is written, leaves the mapping as it
is. -/
theorem returns_mapStep_of_takes {l : Label} {key value : Schema} {e : Value × Value}
    {newKey newValue : Value × Bool} (hkey : key.Takes ctx e.1 newKey)
    (hvalue : value.Takes ctx e.2 newValue) {g : Gathering Borrowed} {y : Value}
    (hg : g.dataset = .fresh y ∧ g.output.value = y)
    (hreplace : (newKey.2 || newValue.2) = true → ∃ b, b.value = g.output.value ∧
      g.output.replace e.1 newKey.1 newValue.1 = (b, none)) :
    Returns (mapStep l ⟨key.expects, key.validator (Schema.resolveUpTo 0)⟩
        ⟨value.expects, value.validator (Schema.resolveUpTo 0)⟩ ctx e g)
      (Progress.Holds (fun g => g.dataset = .fresh y ∧ g.output.value = y) fun _ => False) := by
  refine ((realizes_accepted (realizes_answers ctx key) (hkey _ _ _)).within _).next
    (((realizes_accepted (realizes_answers ctx value) (hvalue _ _ _)).within _).next ?_)
  dsimp only
  split
  · next hreplaced =>
    obtain ⟨b, hb, heq⟩ := hreplace hreplaced
    rw [heq]
    exact returns_pure ⟨hg.1, hb.trans hg.2⟩
  · exact returns_pure hg

omit h in
/-- A map whose keys stay in their places, and whose values are accepted as they are, is accepted
as it is. -/
theorem answers_of_map {m : Value} {limits : Limits} {key value : Schema} {y : Value}
    {entries : Value.Entries} (hy : y.entries? = some entries) (hkeyed : entries.Keyed objects)
    (hsize : sizeFinding? (Schema.map m limits key value).label limits y entries.length = .ok none)
    (hentries : (y = .ofMapping entries ∧ ∀ e ∈ entries, key.StaysInPlace ctx objects e.1 ∧
        ∃ replaced, value.Takes ctx e.2 (e.2, replaced)) ∨
      ∀ e ∈ entries, key.Takes ctx e.1 (e.1, false) ∧ value.Takes ctx e.2 (e.2, false)) :
    ctx.Answers (.map m limits key value) y (.valid y) := by
  unfold Context.Answers
  rw [Schema.validatorUpTo_eq]
  cases y with
  | mapping id kind es =>
    cases hy
    refine (returns_ok hsize _).next ?_
    have hsteps : Returns (Gathering.steps (mapStep (Schema.map m limits key value).label
        ⟨key.expects, key.validator (Schema.resolveUpTo 0)⟩
        ⟨value.expects, value.validator (Schema.resolveUpTo 0)⟩ ctx) entries
        (.start (.fresh (.mapping id kind entries)) ⟨.mapping id kind entries, false⟩))
        (Progress.Holds (fun g => g.dataset = .fresh (.mapping id kind entries) ∧
          g.output.value = .mapping id kind entries) fun _ => False) := by
      refine returns_each (E := (· ∈ entries)) (fun e he g hg => ?_) (fun _ he => he) ⟨rfl, rfl⟩
      rcases hentries with ⟨hmapping, hall⟩ | hall
      · obtain ⟨⟨newKey, hnew, hkeeps, hk⟩, replaced, hv⟩ := hall e he
        refine returns_mapStep_of_takes hk hv hg fun _ => ?_
        have hreplace := Borrowed.replace_self hkeyed he hnew hkeeps g.output.owned
        rw [← hmapping, ← hg.2] at hreplace
        exact ⟨⟨g.output.value, true⟩, rfl, hreplace⟩
      · exact returns_mapStep_of_takes (hall e he).1 (hall e he).2 hg fun hreplaced => by
          cases hreplaced
    refine hsteps.bind fun p hp => ?_
    cases p with
    | stopped d => exact hp.elim
    | going g =>
      obtain ⟨hdataset, houtput⟩ := hp
      dsimp only
      rw [hdataset, houtput]
      exact returns_pure rfl
  | _ => cases hy

theorem Context.Repeats.lasts_of_map {m : Value} {limits : Limits} {key value : Schema}
    (hs : U (.map m limits key value)) {x y : Value} (hx : x.Sound objects) {n : Nat}
    (hkey : Follows ctx (fun _ => True) (ctx.Lasting objects U) (key.validatorUpTo n) key)
    (hvalue : Follows ctx (fun _ => True) (ctx.Lasting objects U) (value.validatorUpTo n) value)
    (hrun : Gives (fun _ => True)
      ((Schema.map m limits key value).validatorUpTo n ctx (.fresh x)) (.valid y)) :
    (Schema.map m limits key value).Lasts ctx x y := by
  obtain ⟨entries, b, hentries, hsize, rfl, hcopied⟩ := h.copied_of_map hs hx hkey hvalue hrun
  have hisMapping : ∃ id kind, x = .mapping id kind entries := by
    cases x with
    | mapping id kind es =>
      cases hentries
      exact ⟨id, kind, rfl⟩
    | _ => cases hentries
  obtain ⟨id, kind, rfl⟩ := hisMapping
  have hleast : limits.least = none := h.repeats hs
  have hsizeFinding {y : Value} {size : Nat} (hle : size ≤ entries.length) :
      sizeFinding? (Schema.map m limits key value).label limits y size = .ok none :=
    sizeFinding?_of_le hsize hle (.inl hleast)
  rcases hcopied.value with hmapping | ⟨hvalue, done, hdone, hall⟩
  · -- something was replaced, so the map is a copy with its keys in place
    refine ⟨fun hwhole => ?_, fun hundefined => ?_, fun hsame => ?_⟩
    · refine answers_of_map (by rw [hmapping]; rfl) hcopied.kept.keyed (hsizeFinding hcopied.kept.size)
        (.inl ⟨hmapping, fun e he => ?_⟩)
      rw [hmapping] at hwhole
      cases hwhole with
      | mapping hselves hkeys hvalues =>
        have hk := (hcopied.kept.keys e he).resolve_right fun ⟨v, hv⟩ => by cases hv
        have hv := (hcopied.kept.values e he).resolve_right fun hv => by cases hv
        exact ⟨hk (hkeys e he) (hselves e he), hv (hvalues e he)⟩
    · rw [hmapping] at hundefined
      cases hundefined
    · rw [hmapping] at hsame ⊢
      exact Value.eq_of_made (.inl (Value.isMade_ofMapping _)) hsame
  · -- nothing was replaced, so it is the mapping itself
    rw [List.append_nil] at hdone
    subst hdone
    rw [hvalue]
    refine ⟨fun hwhole => ?_, fun hundefined => hundefined, fun _ => rfl⟩
    cases hwhole with
    | mapping _ hkeys hvalues =>
      obtain ⟨hapart, hkeyable, -⟩ := hx.entries rfl
      refine answers_of_map rfl (.of_forall hapart hkeyable) (hsizeFinding (Nat.le_refl _))
        (.inr fun e he => ?_)
      exact ⟨(hall e he).1 (hkeys e he), (hall e he).2 (hvalues e he)⟩

/-! ### Records -/

omit h in
theorem Value.Entries.foldl_insert {entries acc : Value.Entries}
    (hapart : Value.Entries.Apart (acc ++ entries)) :
    entries.foldl (fun output e => output.insert e.1 e.2) acc = acc ++ entries := by
  induction entries generalizing acc with
  | nil => simp
  | cons e rest ih =>
    have hnew : Value.Entries.contains acc e.1 = false := by
      refine List.any_eq_false.mpr fun d hd => ?_
      rw [Value.Entries.Apart, Value.Entries.keys, List.map_append, List.pairwise_append] at hapart
      rw [hapart.2.2 d.1 (List.mem_map_of_mem hd) e.1 (by simp)]
      exact Bool.false_ne_true
    rw [List.foldl_cons, Value.Entries.insert_of_not_contains e.2 hnew, ih (by simpa using hapart),
      List.append_assoc, List.singleton_append]

/-- An entry whose key and value are accepted as they are. -/
def Schema.StaysAs (ctx : Context) (key value : Schema) (f : Value × Value) : Prop :=
  (f.1.Whole → ∃ replaced, key.Takes ctx f.1 (f.1, replaced)) ∧
    (f.2.Whole → ctx.Answers value f.2 (.valid f.2))

omit h in
/-- What is written of entries that stay as they are are such entries. -/
theorem staysAs_of_inserts {key value : Schema} {input acc : Value.Entries}
    {puts : List (Value.Entries → Value.Entries)}
    (hputs : List.Forall₂ (fun _ put => ∃ f : Value × Value, f.1.Keyable objects ∧
      key.StaysAs ctx value f ∧ put = fun output => output.insert f.1 f.2) input puts)
    (hkeyed : Value.Entries.Keyed objects acc) (hstays : ∀ f ∈ acc, key.StaysAs ctx value f) :
    let output := puts.foldl (fun output put => put output) acc
    Value.Entries.Keyed objects output ∧ ∀ f ∈ output, key.StaysAs ctx value f := by
  induction hputs generalizing acc with
  | nil => exact ⟨hkeyed, hstays⟩
  | cons hput _ ih =>
    obtain ⟨f, hf, hkey, hvalue⟩ := hput
    subst hvalue
    refine ih (hkeyed.insert hf f.2) fun d hd => ?_
    rcases Value.Entries.mem_insert hd with hd | ⟨hvalue, heq | ⟨d', hd', heq⟩⟩
    · exact hstays d (hkeyed.mem_erase hf hd).1
    · exact ⟨heq ▸ hkey.1, hvalue ▸ hkey.2⟩
    · exact ⟨heq ▸ (hstays d' hd').1, hvalue ▸ hkey.2⟩

theorem Context.Repeats.lasts_of_record {m : Value} {key value : Schema}
    (hs : U (.record m key value)) {x y : Value} (hx : x.Sound objects) {input : Value.Entries}
    (hinput : x.entries? = some input) {p : Progress Value.Entries}
    (hp : Gathering.Path ctx (RecordBrings ctx (fun _ => True) (ctx.Lasting objects U)
      (Schema.record m key value).label key value) input (.start (.fresh x) []) p)
    (hfinished : Gathering.Finished (fun output => .ok (.ofMapping output)) p (.valid y)) :
    (Schema.record m key value).Lasts ctx x y := by
  have hkey : U key := h.part hs (by simp [Schema.children])
  obtain ⟨-, hkeys, hvalues⟩ := hx.entries hinput
  obtain ⟨g, rfl, hissues, hmake⟩ := Gathering.going_of_finished hfinished
  cases hmake
  have hput : ∀ e ∈ input, ∀ c, RecordBrings ctx (fun _ => True) (ctx.Lasting objects U)
      (Schema.record m key value).label key value e c → c.issues = [] →
      ∃ put, (∃ f : Value × Value, f.1.Keyable objects ∧ key.StaysAs ctx value f ∧
        put = fun output => output.insert f.1 f.2) ∧ c = .plain put := by
    intro e he c hc hclean
    cases hc with
    | badKey => cases hclean
    | @run newKey part hchecked hrun hhashable =>
      have haccepted := h.accepted_of_checked hkey (hkeys e he).sound hchecked
      have hclean := List.map_eq_nil_iff.mp hclean
      have hvalid := h.valid_of_clean hrun.1 hrun.2.1 hclean
      have hlasts := hrun.2.2 (hvalues e he) _ hvalid
      have hnew := haccepted.regular (hhashable (by rw [hvalid]; rfl) (.inl hclean))
      rw [hvalid]
      exact ⟨_, ⟨(newKey.1, part.value), hnew, ⟨haccepted.stays, hlasts.again⟩, rfl⟩, rfl⟩
  obtain ⟨puts, hputs, houtput⟩ := Gathering.puts_of_path hput hp hissues
  have houtput : g.output = puts.foldl (fun output put => put output) [] := houtput
  obtain ⟨hkeyed, hstays⟩ := staysAs_of_inserts hputs .nil (List.forall_mem_nil _)
  rw [← houtput] at hkeyed hstays
  refine ⟨fun hwhole => ?_, fun hundefined => (by cases hundefined),
    Value.eq_of_made (.inl (Value.isMade_ofMapping _))⟩
  cases hwhole with
  | mapping _ hwholeKeys hwholeValues =>
    have hagain : List.Forall₂ (fun f put => RecordBrings ctx (fun _ => True) ctx.Answers
        (Schema.record m key value).label key value f (.plain put)) g.output
        (g.output.map fun f output => output.insert f.1 f.2) := by
      rw [List.forall₂_map_right_iff, List.forall₂_same]
      intro f hf
      obtain ⟨replaced, htakes⟩ := (hstays f hf).1 (hwholeKeys f hf)
      exact RecordBrings.run (htakes _ _ _) ((hstays f hf).2 (hwholeValues f hf))
        fun _ _ => (hkeyed.mem hf).isHashable
    have hpath := Gathering.path_of_puts ctx hagain (.start (.fresh (.ofMapping g.output)) [])
    have hself := @Value.Entries.foldl_insert g.output [] hkeyed.apart
    rw [List.foldl_map, Gathering.start, hself, List.nil_append] at hpath
    exact h.answers_of_outcome hs rfl (.record rfl hpath (Gathering.finished_of_clean rfl))

end

end Conform
