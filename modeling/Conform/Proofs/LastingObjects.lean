/-
  Conform/Proofs/LastingObjects.lean
  ==================================
  **What lasts of objects.**  An object leaves, for each declared key in turn, an
  entry or none, and then the other entries if they are kept.  So what is left is
  found under its key the next time; and where nothing is left there is nothing to
  be found, which only comes to a value again if the key has to be there.
-/
import Conform.Proofs.LastingEntries

namespace Conform

open Validator

/-! ### Pieces of an output -/

namespace Gathering

variable {β σ : Type} {ctx : Context} {brings : σ → Contribution (List β) → Prop} {xs : List σ}

/-- Parts of a path without issues that append pieces have appended them all. -/
theorem pieces_of_path {B : σ → List β → Prop}
    (hpiece : ∀ s ∈ xs, ∀ c, brings s c → c.issues = [] →
      ∃ piece, B s piece ∧ c = .plain fun output => output ++ piece)
    {g g' : Gathering (List β)} (h : Path ctx brings xs g (.going g'))
    (hclean : g'.dataset.issues = []) :
    ∃ pieces, List.Forall₂ B xs pieces ∧ g'.output = g.output ++ pieces.flatten := by
  have hput : ∀ s ∈ xs, ∀ c, brings s c → c.issues = [] →
      ∃ put, (∃ piece, B s piece ∧ put = fun output => output ++ piece) ∧ c = .plain put := by
    intro s hs c hc hissues
    obtain ⟨piece, hB, hplain⟩ := hpiece s hs c hc hissues
    exact ⟨_, ⟨piece, hB, rfl⟩, hplain⟩
  obtain ⟨puts, hputs, houtput⟩ := puts_of_path hput h hclean
  have hpieces : ∃ pieces, List.Forall₂ B xs pieces ∧
      puts = pieces.map fun piece output => output ++ piece := by
    clear houtput hput hpiece h
    induction hputs with
    | nil => exact ⟨[], .nil, rfl⟩
    | cons hput _ ih =>
      obtain ⟨piece, hB, rfl⟩ := hput
      obtain ⟨pieces, hpieces, rfl⟩ := ih
      exact ⟨piece :: pieces, .cons hB hpieces, rfl⟩
  obtain ⟨pieces, hpieces, rfl⟩ := hpieces
  rw [foldl_appends (fun piece => piece), List.flatMap_id'] at houtput
  exact ⟨pieces, hpieces, houtput⟩

variable (ctx) in
/-- Parts that append pieces make a path. -/
theorem path_of_pieces {pieces : List (List β)}
    (h : List.Forall₂ (fun s piece => brings s (.plain fun output => output ++ piece)) xs pieces)
    (d : Dataset) : Path ctx brings xs (.start d []) (.going ⟨d, pieces.flatten, true⟩) := by
  have hputs : List.Forall₂ (fun s put => brings s (.plain put)) xs
      (pieces.map fun piece output => output ++ piece) := by
    rwa [List.forall₂_map_right_iff]
  have hpath := path_of_puts ctx hputs (.start d [])
  rwa [foldl_appends (fun piece => piece), List.flatMap_id', start, List.nil_append] at hpath

end Gathering

section

variable {ctx : Context} {objects : Nat → Value} {U : Schema → Prop}

/-! ### Declared keys -/

/-- What a declared key leaves in the output, of which it makes the same the next time. -/
inductive KeyLeaves (ctx : Context) (absent : Absent) (e : Value × Schema) : Value.Entries → Prop where
  | entry {v : Value} : v.isUndefined = false → (v.Whole → ctx.Answers e.2 v (.valid v)) →
      KeyLeaves ctx absent e [(e.1, v)]
  | skipped : absent = .skip → KeyLeaves ctx absent e []
  | nothing : absent = .validate → ctx.Answers e.2 .undefined (.valid .undefined) →
      KeyLeaves ctx absent e []

theorem KeyLeaves.key {absent : Absent} {e : Value × Schema} {piece : Value.Entries}
    (h : KeyLeaves ctx absent e piece) {f : Value × Value} (hf : f ∈ piece) : f.1 = e.1 := by
  cases h with
  | entry => rw [List.mem_singleton.mp hf]
  | skipped | nothing => cases hf

theorem putEntry_of_isUndefined (key : Value) {v : Value} (h : v.isUndefined = true) :
    putEntry key v = fun output => output ++ [] := by
  funext output
  rw [putEntry, if_pos h, List.append_nil]

theorem putEntry_of_not_isUndefined (key : Value) {v : Value} (h : v.isUndefined = false) :
    putEntry key v = fun output => output ++ [(key, v)] := by
  funext output
  rw [putEntry, h]
  rfl

theorem leaves_of_lasts {absent : Absent} {e : Value × Schema} {u v : Value}
    (hlasts : e.2.Lasts ctx u v) (hv : v.Regular objects) (habsent : absent ≠ .reject) :
    ∃ piece, KeyLeaves ctx absent e piece ∧ putEntry e.1 v = fun output => output ++ piece := by
  cases hundefined : v.isUndefined with
  | false => exact ⟨_, .entry hundefined hlasts.again, putEntry_of_not_isUndefined _ hundefined⟩
  | true =>
    refine ⟨[], ?_, putEntry_of_isUndefined _ hundefined⟩
    have heq := hv.eq_undefined hundefined
    subst heq
    cases absent with
    | skip => exact .skipped rfl
    | validate => exact .nothing rfl (hlasts.again .scalar)
    | reject => exact (habsent rfl).elim

/-- A declared key leaves the same again, if it is there when it has left an entry, and if nothing
is under it when it has left none. -/
theorem KeyLeaves.brings {absent : Absent} {e : Value × Schema} {piece : Value.Entries}
    (h : KeyLeaves ctx absent e piece) {l : Label} {output : Value.Entries}
    (hwhole : ∀ f ∈ piece, f.2.Whole) (hthere : ∀ f ∈ piece, output.get? e.1 = some f.2)
    (hgone : piece = [] → output.get? e.1 = none) :
    DeclaredBrings ctx (fun _ => True) ctx.Answers l absent output e
      (.plain fun output => output ++ piece) := by
  cases h with
  | @entry v hundefined hagain =>
    rw [← putEntry_of_not_isUndefined e.1 hundefined]
    have hv := List.mem_singleton_self (e.1, v)
    exact DeclaredBrings.present (hthere _ hv) (hagain (hwhole _ hv))
  | skipped habsent =>
    have hid : (fun output : Value.Entries => output ++ []) = id := funext List.append_nil
    rw [hid]
    exact .skipped (hgone rfl) habsent
  | nothing habsent hagain =>
    rw [← putEntry_of_isUndefined e.1 (v := .undefined) rfl]
    exact DeclaredBrings.validated (hgone rfl) habsent hagain

/-! ### All declared keys -/

section

variable {absent : Absent} {entries : List (Value × Schema)} {pieces : List Value.Entries}
  (hpieces : List.Forall₂ (KeyLeaves ctx absent) entries pieces)

include hpieces

theorem keys_sublist_of_leaves : (Value.Entries.keys pieces.flatten).Sublist (entries.map (·.1)) := by
  induction hpieces with
  | nil => exact .slnil
  | cons hpiece _ ih =>
    cases hpiece with
    | entry => exact ih.cons_cons _
    | skipped | nothing => exact ih.cons _

theorem exists_of_mem_leaves {f : Value × Value} (hf : f ∈ pieces.flatten) :
    ∃ e ∈ entries, f.1 = e.1 := by
  have hkey := (keys_sublist_of_leaves hpieces).subset (List.mem_map_of_mem hf)
  obtain ⟨e, he, heq⟩ := List.mem_map.mp hkey
  exact ⟨e, he, heq.symm⟩

theorem keyEq_of_leaves_nil
    (hapart : (entries.map (·.1)).Pairwise fun k l => k.keyEq l = false)
    (hkeyable : ∀ e ∈ entries, e.1.Keyable objects) {i : Nat} (hi : i < entries.length)
    (hi' : i < pieces.length) (hnil : pieces[i] = []) {f : Value × Value}
    (hf : f ∈ pieces.flatten) : f.1.keyEq entries[i].1 = false := by
  obtain ⟨piece, hpiece, hmem⟩ := List.mem_flatten.mp hf
  obtain ⟨j, hj, rfl⟩ := List.getElem_of_mem hpiece
  have hjlt : j < entries.length := hpieces.length_eq ▸ hj
  have hkey : f.1 = entries[j].1 := (List.forall₂_iff_get.mp hpieces).2 j hjlt hj |>.key hmem
  rw [List.pairwise_map, List.pairwise_iff_getElem] at hapart
  rw [hkey]
  rcases lt_trichotomy i j with hlt | heq | hgt
  · refine Bool.eq_false_iff.mpr fun hsame => ?_
    have hother := Value.keyEq_symm (hkeyable _ (List.getElem_mem hjlt))
      (hkeyable _ (List.getElem_mem hi)) hsame
    rw [hapart i j hi hjlt hlt] at hother
    cases hother
  · subst heq
    rw [hnil] at hmem
    cases hmem
  · exact hapart j i hjlt hi hgt

end

/-! ### Objects -/

/-- The entries of which an object says nothing, if it keeps them. -/
def Extra.kept (extra : Extra) (entries : List (Value × Schema)) (input : Value.Entries) :
    Value.Entries :=
  if extra = .loose then Schema.undeclared entries input else []

theorem not_declared_of_kept {extra : Extra} {entries : List (Value × Schema)}
    {input : Value.Entries} {f : Value × Value} (hf : f ∈ extra.kept entries input) :
    extra = .loose ∧ f ∈ input ∧ ∀ e ∈ entries, e.1.keyEq f.1 = false := by
  unfold Extra.kept at hf
  split at hf
  · next hloose =>
    obtain ⟨hmem, hnone⟩ := List.mem_filter.mp hf
    refine ⟨hloose, hmem, fun e he => ?_⟩
    simp only [Bool.not_eq_true', List.any_eq_false, Bool.not_eq_true] at hnone
    exact hnone e he
  · cases hf

theorem kept_sublist (extra : Extra) (entries : List (Value × Schema)) (input : Value.Entries) :
    (extra.kept entries input).Sublist input := by
  unfold Extra.kept
  split
  · exact List.filter_sublist
  · exact List.nil_sublist input

/-- What declared keys leave and what is kept besides is under different keys. -/
theorem keyed_of_leaves (extra : Extra) {absent : Absent} {entries : List (Value × Schema)}
    {pieces : List Value.Entries} {input : Value.Entries}
    (hpieces : List.Forall₂ (KeyLeaves ctx absent) entries pieces)
    (hapart : (entries.map (·.1)).Pairwise fun k l => k.keyEq l = false)
    (hkeyable : ∀ e ∈ entries, e.1.Keyable objects) (hinput : input.Keyed objects) :
    Value.Entries.Keyed objects (pieces.flatten ++ extra.kept entries input) := by
  have hkept := hinput.sublist (kept_sublist extra entries input)
  refine .of_forall ?_ (List.forall_mem_append.mpr ⟨fun f hf => ?_, fun f hf => hkept.mem hf⟩)
  · rw [Value.Entries.Apart, Value.Entries.keys, List.map_append, List.pairwise_append]
    refine ⟨hapart.sublist (keys_sublist_of_leaves hpieces), hkept.apart, fun k hk l hl => ?_⟩
    obtain ⟨f, hf, rfl⟩ := List.mem_map.mp hk
    obtain ⟨g, hg, rfl⟩ := List.mem_map.mp hl
    obtain ⟨e, he, heq⟩ := exists_of_mem_leaves hpieces hf
    rw [heq]
    exact (not_declared_of_kept hg).2.2 e he
  · obtain ⟨e, he, heq⟩ := exists_of_mem_leaves hpieces hf
    exact heq ▸ hkeyable e he

/-- Of what was left, what is not declared is what was kept. -/
theorem undeclared_of_leaves (extra : Extra) (input : Value.Entries) {absent : Absent}
    {entries : List (Value × Schema)} {pieces : List Value.Entries}
    (hpieces : List.Forall₂ (KeyLeaves ctx absent) entries pieces)
    (hself : ∀ f ∈ pieces.flatten, f.1.keyEq f.1 = true) :
    Schema.undeclared entries (pieces.flatten ++ extra.kept entries input) =
      extra.kept entries input := by
  have hdeclared : Schema.undeclared entries pieces.flatten = [] := by
    refine List.filter_eq_nil_iff.mpr fun f hf => ?_
    obtain ⟨e, he, heq⟩ := exists_of_mem_leaves hpieces hf
    have hany : (entries.any fun d => d.1.keyEq f.1) = true :=
      List.any_eq_true.mpr ⟨e, he, heq ▸ hself f hf⟩
    simp [hany]
  have hkept : Schema.undeclared entries (extra.kept entries input) = extra.kept entries input := by
    refine List.filter_eq_self.mpr fun f hf => ?_
    have hnone : (entries.any fun d => d.1.keyEq f.1) = false :=
      List.any_eq_false.mpr fun e he => by simp [(not_declared_of_kept hf).2.2 e he]
    simp [hnone]
  unfold Schema.undeclared at hdeclared hkept ⊢
  rw [List.filter_append, hdeclared, hkept, List.nil_append]

/-- The declared keys find in the output what they have left there, and leave it again. -/
theorem brings_of_leaves {l : Label} {kind : ObjectKind} {extra : Extra} {absent : Absent}
    {entries : List (Value × Schema)} {pieces : List Value.Entries} {input : Value.Entries}
    (hpieces : List.Forall₂ (KeyLeaves ctx absent) entries pieces)
    (hapart : (entries.map (·.1)).Pairwise fun k l => k.keyEq l = false)
    (hkeyable : ∀ e ∈ entries, e.1.Keyable objects) (hinput : input.Keyed objects)
    (hself : ∀ f ∈ pieces.flatten, f.1.keyEq f.1 = true) (hwhole : ∀ f ∈ pieces.flatten, f.2.Whole) :
    List.Forall₂ (fun e piece => ObjectBrings ctx (fun _ => True) ctx.Answers l kind extra absent
        (pieces.flatten ++ extra.kept entries input) (.inl e) (.plain fun output => output ++ piece))
      entries pieces := by
  have hkeyed := keyed_of_leaves extra hpieces hapart hkeyable hinput
  refine List.forall₂_iff_get.mpr ⟨hpieces.length_eq, fun i hi hi' => .declared ?_⟩
  have hmem : ∀ f ∈ pieces[i], f ∈ pieces.flatten := fun f hf =>
    List.mem_flatten.mpr ⟨_, List.getElem_mem hi', hf⟩
  have hleaves : KeyLeaves ctx absent entries[i] pieces[i] := (List.forall₂_iff_get.mp hpieces).2 i hi hi'
  refine hleaves.brings (fun f hf => hwhole f (hmem f hf)) (fun f hf => ?_) fun hnil => ?_
  · rw [← hleaves.key hf]
    exact hkeyed.get?_of_mem (List.mem_append_left _ (hmem f hf)) (hself f (hmem f hf))
  · refine Value.Entries.get?_eq_none (List.forall_mem_append.mpr ⟨fun d hd => ?_, fun d hd => ?_⟩)
    · exact keyEq_of_leaves_nil hpieces hapart hkeyable hi hi' hnil hd
    · obtain ⟨-, hd, hother⟩ := not_declared_of_kept hd
      refine Bool.eq_false_iff.mpr fun hsame => ?_
      have hdeclared := Value.keyEq_symm (hinput.mem hd) (hkeyable _ (List.getElem_mem hi)) hsame
      rw [hother _ (List.getElem_mem hi)] at hdeclared
      cases hdeclared

/-- What a step of an object appends: what the declared key leaves, or what is kept. -/
def Appends (ctx : Context) (extra : Extra) (absent : Absent) :
    (Value × Schema) ⊕ (Value × Value) → Value.Entries → Prop
  | .inl e, piece => KeyLeaves ctx absent e piece
  | .inr f, piece => extra ≠ .strict ∧ piece = if extra = .loose then [f] else []

/-- What is appended for entries that are not declared is what is kept of them. -/
theorem flatten_of_appends {extra : Extra} {absent : Absent} {rest : Value.Entries}
    {pieces : List Value.Entries}
    (h : List.Forall₂ (Appends ctx extra absent) (rest.map .inr) pieces) :
    pieces.flatten = if extra = .loose then rest else [] := by
  induction rest generalizing pieces with
  | nil =>
    cases h
    split <;> rfl
  | cons f rest ih =>
    cases h with
    | cons hf hrest =>
      rw [List.flatten_cons, hf.2, ih hrest]
      split <;> rfl

theorem Contribution.plain_id {β : Type} :
    (Contribution.plain id : Contribution (List β)) = .plain fun output => output ++ [] :=
  congrArg Contribution.plain (funext fun output => (List.append_nil output).symm)

theorem Value.sound_undefined : Value.undefined.Sound objects :=
  .scalar (fun _ h => by cases h) ⟨fun h => (by cases h), fun _ => rfl⟩

variable (h : ctx.Repeats objects U)

include h

/-- What a step of an object brings without an issue is appended. -/
theorem Context.Repeats.appends_of_brings {l : Label} {kind : ObjectKind} {extra : Extra}
    {absent : Absent} (habsent : absent ≠ .reject) {input : Value.Entries}
    (hinput : ∀ e ∈ input, e.2.Sound objects) {s : (Value × Schema) ⊕ (Value × Value)}
    {c : Contribution Value.Entries}
    (hc : ObjectBrings ctx (fun _ => True) (ctx.Lasting objects U) l kind extra absent input s c)
    (hclean : c.issues = []) :
    ∃ piece, Appends ctx extra absent s piece ∧ c = .plain fun output => output ++ piece := by
  have hvalidated {e : Value × Schema} {u : Value} (hu : u.Sound objects) {part : Dataset}
      (hrun : ctx.Lasting objects U e.2 u part) (hclean : part.issues.map (·.under e.1) = []) :
      ∃ piece, KeyLeaves ctx absent e piece ∧
        part.contribution e.1 (putEntry e.1) = .plain fun output => output ++ piece := by
    have hvalid := h.valid_of_clean hrun.1 hrun.2.1 (List.map_eq_nil_iff.mp hclean)
    have hregular := regular_of_yields h.closed h.regular hrun.1 hrun.2.1 hu (by rw [hvalid]; rfl)
    obtain ⟨piece, hleaves, hput⟩ := leaves_of_lasts (hrun.2.2 hu _ hvalid) hregular habsent
    refine ⟨piece, hleaves, ?_⟩
    rw [← hput, hvalid]
    rfl
  cases hc with
  | declared hc =>
    cases hc with
    | present hget hrun =>
      obtain ⟨e', he', rfl⟩ := Option.map_eq_some_iff.mp hget
      exact hvalidated (hinput e' (List.mem_of_find?_eq_some he')) hrun hclean
    | validated _ _ hrun => exact hvalidated Value.sound_undefined hrun hclean
    | skipped _ hskip => exact ⟨[], .skipped hskip, Contribution.plain_id⟩
    | missing => cases hclean
  | extra hc =>
    cases hc with
    | dropped hextra =>
      subst hextra
      exact ⟨[], ⟨by decide, rfl⟩, Contribution.plain_id⟩
    | kept hextra =>
      subst hextra
      exact ⟨_, ⟨by decide, rfl⟩, rfl⟩
    | unexpected => cases hclean

theorem Context.Repeats.lasts_of_object {m : Value} {id : Nat} {kind : ObjectKind} {extra : Extra}
    {absent : Absent} {entries : List (Value × Schema)}
    (hs : U (.object m id kind extra absent entries)) {x y : Value} (hx : x.Sound objects)
    {input : Value.Entries} (hinput : x.entries? = some input) {p : Progress Value.Entries}
    (hp : Gathering.Path ctx (ObjectBrings ctx (fun _ => True) (ctx.Lasting objects U)
        (Schema.object m id kind extra absent entries).label kind extra absent input)
      (entries.map .inl ++ (Schema.undeclared entries input).map .inr) (.start (.fresh x) []) p)
    (hfinished : Gathering.Finished (fun output => .ok (.ofMapping output)) p (.valid y)) :
    (Schema.object m id kind extra absent entries).Lasts ctx x y := by
  obtain ⟨hinputApart, hinputKeys, hinputValues⟩ := hx.entries hinput
  obtain ⟨habsent, hapart, hkeyable⟩ := h.repeats hs
  obtain ⟨g, rfl, hissues, hmake⟩ := Gathering.going_of_finished hfinished
  cases hmake
  obtain ⟨all, hall, houtput⟩ := Gathering.pieces_of_path
    (fun _ _ _ hc => h.appends_of_brings habsent hinputValues hc) hp hissues
  obtain ⟨pieces, hpieces, hflatten⟩ : ∃ pieces, List.Forall₂ (KeyLeaves ctx absent) entries pieces ∧
      g.output = pieces.flatten ++ extra.kept entries input := by
    have hpieces := List.forall₂_take entries.length hall
    have hrest := List.forall₂_drop entries.length hall
    rw [List.take_left' (List.length_map _), List.forall₂_map_left_iff] at hpieces
    rw [List.drop_left' (List.length_map _)] at hrest
    refine ⟨all.take entries.length, hpieces, ?_⟩
    rw [houtput, Extra.kept, ← flatten_of_appends hrest, ← List.flatten_append,
      List.take_append_drop]
    rfl
  rw [hflatten]
  refine ⟨fun hwhole => ?_, fun hundefined => (by cases hundefined),
    Value.eq_of_made (.inl (Value.isMade_ofMapping _))⟩
  cases hwhole with
  | mapping hselves hwholeKeys hwholeValues =>
    have hself : ∀ f ∈ pieces.flatten, f.1.keyEq f.1 = true :=
      fun f hf => Value.keyEq_iff.mpr (.inr (hselves f (List.mem_append_left _ hf)))
    -- the entries that are not declared are now those that were kept
    have hkept := undeclared_of_leaves extra input hpieces hself
    have hagain : List.Forall₂ (fun s piece => ObjectBrings ctx (fun _ => True) ctx.Answers
        (Schema.object m id kind extra absent entries).label kind extra absent
        (pieces.flatten ++ extra.kept entries input) s (.plain fun output => output ++ piece))
        (entries.map .inl ++ (Schema.undeclared entries
          (pieces.flatten ++ extra.kept entries input)).map .inr)
        (pieces ++ (extra.kept entries input).map ([·])) := by
      rw [hkept]
      refine List.rel_append ?_ ?_
      · rw [List.forall₂_map_left_iff]
        exact brings_of_leaves hpieces hapart hkeyable (.of_forall hinputApart hinputKeys) hself
          fun f hf => hwholeValues f (List.mem_append_left _ hf)
      · rw [List.forall₂_map_left_iff, List.forall₂_map_right_iff, List.forall₂_same]
        exact fun f hf => .extra (.kept (not_declared_of_kept hf).1)
    have hpath := Gathering.path_of_pieces ctx hagain
      (.fresh (.ofMapping (pieces.flatten ++ extra.kept entries input)))
    rw [List.flatten_append, ← List.flatMap_def, List.flatMap_singleton'] at hpath
    exact h.answers_of_outcome hs rfl (.object rfl hpath (Gathering.finished_of_clean rfl))

end

end Conform
