/-
  Conform/Proofs/Wording.lean
  ===========================
  **Wording.**  A default message can be put together when every field of its
  template can be rendered (`Message.exists_default`); which fields a template
  has is computed from the catalog (`Message.asks`).  So a finding can be put
  into words as soon as what it mentions can be shown, and a report can be made
  of issues whose paths can be shown.
-/
import Conform.Proofs.Data
import Conform.Proofs.Returns
import Conform.Result

namespace Conform

namespace Message

/-! ### Fields -/

/-- The text of what is expected. -/
def Field.expects : Field := ⟨"expects".toList, false, []⟩

/-- The text of what was found. -/
def Field.received : Field := ⟨"received".toList, false, []⟩

/-- The text of the requirement. -/
def Field.requirement : Field := ⟨"requirement".toList, false, []⟩

/-- The quoted text of the requirement. -/
def Field.quotedRequirement : Field := ⟨"requirement".toList, true, []⟩

/-- The pattern of the requirement. -/
def Field.pattern : Field := ⟨"requirement.pattern".toList, false, []⟩

/-- The requirement as a moment. -/
def Field.moment : Field := ⟨"requirement".toList, false, "%Y-%m-%dT%H:%M:%S".toList⟩

/-- The template with a key has no fields but some. -/
def asks (key : String) (fields : List Field) : Bool :=
  match default? key with
  | none => false
  | some template => (pieces template.toList).all fun
    | .char _ => true
    | .field body => (Field.ofBody? body).any (fields.contains ·)
    | .broken => false

/-- The template with a key has a field. -/
def has (key : String) (field : Field) : Bool :=
  match default? key with
  | none => false
  | some template => template.toList.contains '\x7b' && (pieces template.toList).any fun
    | .field body => Field.ofBody? body == some field
    | _ => false

variable {mentions : Mentions}

theorem exists_renderAll {ps : List Piece} (h : ∀ p ∈ ps, ∃ t, p.render mentions = .ok t)
    (start : String) :
    ∃ text, ps.foldlM (fun text p => (p.render mentions).map (text ++ ·)) start = .ok text := by
  induction ps generalizing start with
  | nil => exact ⟨_, rfl⟩
  | cons p rest ih =>
    rw [List.forall_mem_cons] at h
    obtain ⟨t, ht⟩ := h.1
    rw [List.foldlM_cons, ht]
    exact ih h.2 _

theorem error_renderAll {ps : List Piece} (h : ∃ p ∈ ps, ∃ f, p.render mentions = .error f)
    (start : String) :
    ∃ f, ps.foldlM (fun text p => (p.render mentions).map (text ++ ·)) start = .error f := by
  induction ps generalizing start with
  | nil =>
    obtain ⟨p, hp, -⟩ := h
    cases hp
  | cons p rest ih =>
    rw [List.foldlM_cons]
    rcases hrender : p.render mentions with f | t
    · exact ⟨f, rfl⟩
    · refine ih ?_ _
      obtain ⟨q, hq, f, hf⟩ := h
      rcases List.mem_cons.mp hq with rfl | hq
      · cases hrender.symm.trans hf
      · exact ⟨q, hq, f, hf⟩

/-- Without translations a template stays as it is. -/
theorem translate_nil {language : Value} (template : String)
    (h : language.isNull = true ∨ language.toStr?.isSome = true) :
    Translations.translate [] template language = .ok template := by
  unfold Translations.translate
  cases language with
  | scalar id s =>
    cases s with
    | null => rfl
    | str flavor s =>
      by_cases hs : s.isEmpty = true <;> simp [Value.isTrue, hs] <;> rfl
    | _ => simp [Value.isNull, Value.toStr?] at h
  | _ => simp [Value.isNull, Value.toStr?] at h

/-- There is a default message when every field of its template can be rendered. -/
theorem exists_default {key : String} {fields : List Field} {language : Value}
    (hasks : asks key fields = true)
    (hlanguage : language.isNull = true ∨ language.toStr?.isSome = true)
    (h : ∀ f ∈ fields, ∃ t, f.render mentions = .ok t) :
    ∃ text, Message.default [] language key mentions = .ok text := by
  unfold asks at hasks
  unfold Message.default
  split at hasks
  · cases hasks
  · next template htemplate =>
    simp only [htemplate, translate_nil template hlanguage]
    change ∃ text, render template mentions = .ok text
    unfold render
    dsimp only
    split
    · refine exists_renderAll (fun p hp => ?_) ""
      have hpiece := List.all_eq_true.mp hasks p hp
      cases p with
      | char c => exact ⟨_, rfl⟩
      | field body =>
        rcases hbody : Field.ofBody? body with _ | f
        · simp [hbody] at hpiece
        · simp only [hbody, Option.any_some, List.contains_iff_mem] at hpiece
          simp only [Piece.render, hbody]
          exact h f hpiece
      | broken => cases hpiece
    · exact ⟨_, rfl⟩

/-- There is no default message when a field of its template cannot be rendered. -/
theorem error_default {key : String} {field : Field} {language : Value} (hhas : has key field = true)
    (hlanguage : language.isNull = true ∨ language.toStr?.isSome = true) {f : Fault}
    (h : field.render mentions = .error f) :
    ∃ f, Message.default [] language key mentions = .error f := by
  unfold has at hhas
  unfold Message.default
  split at hhas
  · cases hhas
  · next template htemplate =>
    rw [Bool.and_eq_true] at hhas
    simp only [htemplate, translate_nil template hlanguage]
    change ∃ f, render template mentions = .error f
    unfold render
    dsimp only
    rw [if_pos hhas.1]
    refine error_renderAll ?_ ""
    obtain ⟨p, hp, hfield⟩ := List.any_eq_true.mp hhas.2
    cases p with
    | char c => cases hfield
    | field body => exact ⟨_, hp, f, by simp only [Piece.render, eq_of_beq hfield, h]⟩
    | broken => cases hfield

/-! ### Keys -/

/-- Keys of messages that mention at most what was expected and what was found. -/
def shapeKeys : List String :=
  ["string", "number", "integer", "boolean", "bigint", "date", "symbol", "null", "undefined", "void",
    "never", "enum", "native_enum", "keyof", "object", "array", "tuple", "record", "map", "set",
    "union", "intersection", "coerce_string", "coerce_number", "coerce_bigint", "coerce_date",
    "coerce_none_bigint", "coerce_undefined_bigint", "coerce_none_date", "coerce_undefined_date",
    "unsized_length", "lowercase", "uppercase", "email", "url", "uuid", "positive", "negative"]

/-- Keys of messages that mention the requirement as it is. -/
def requirementKeys : List String :=
  ["tuple_length", "tuple_min_length", "strict_object", "required", "map_key", "map_value",
    "includes", "starts_with", "ends_with", "number_min_value", "number_max_value", "greater_than",
    "less_than", "multiple_of"]

/-- Keys of messages that mention the requirement as a moment. -/
def momentKeys : List String :=
  ["date_min_value", "date_max_value", "date_greater_than", "date_less_than"]

theorem asks_shape : ∀ key ∈ shapeKeys, asks key [.expects, .received] = true := by
  decide

theorem asks_requirement :
    ∀ key ∈ requirementKeys, asks key [.received, .requirement] = true := by
  decide

theorem asks_size : ∀ unit ∈ ["string", "array", "set", "map"],
    ∀ bound ∈ ["min_length", "max_length", "length"],
      asks (unit ++ "_" ++ bound) [.received, .requirement] = true := by
  decide

theorem asks_moment : ∀ key ∈ momentKeys, asks key [.moment] = true := by
  decide

theorem has_moment : ∀ key ∈ momentKeys, has key .moment = true := by
  decide

theorem asks_literal : asks "literal" [.received, .quotedRequirement] = true := by
  decide

theorem asks_pattern : asks "regex" [.pattern] = true := by
  decide

end Message

/-! ### Findings -/

/-- The value is a text, or null in place of one. -/
def Value.isOptionalText (v : Value) : Bool := v.isNull || v.toStr?.isSome

/-- There are words for a finding: the template of its message asks for nothing that it cannot
show. -/
def Finding.Worded (f : Finding) : Prop :=
  ∃ fields, Message.asks f.messageKey fields = true ∧ ∀ field ∈ fields,
    ∃ t, field.render ⟨.str f.expects, .str f.received, f.requirement⟩ = .ok t

theorem Finding.worded_of_shape {f : Finding} (hkey : f.messageKey ∈ Message.shapeKeys) :
    f.Worded :=
  ⟨_, Message.asks_shape _ hkey,
    List.forall_mem_cons.mpr ⟨⟨_, rfl⟩, List.forall_mem_singleton.mpr ⟨_, rfl⟩⟩⟩

theorem Finding.worded_of_requirement {f : Finding}
    (hasks : Message.asks f.messageKey [.received, .requirement] = true)
    (htext : ∃ t, f.requirement.text = .ok t) : f.Worded :=
  ⟨_, hasks, List.forall_mem_cons.mpr ⟨⟨_, rfl⟩, List.forall_mem_singleton.mpr htext⟩⟩

/-- No words of a context come from elsewhere: there are no translations, and no callable makes
messages. -/
structure Context.Plain (ctx : Context) : Prop where
  translations : ctx.translations = []
  language : ctx.config.language.isOptionalText = true
  message : ctx.config.message.isOptionalText = true

/-- An issue with a text: its path can be shown, and its message is a text. -/
structure Issue.Shown (i : Issue) : Prop where
  path : ∀ key ∈ i.path, key.Legible
  message : i.message.toStr?.isSome = true

theorem Issue.Shown.under {i : Issue} (h : i.Shown) {key : Value} (hkey : key.Legible) :
    (i.under key).Shown :=
  ⟨List.forall_mem_cons.mpr ⟨hkey, h.path⟩, h.message⟩

theorem isTrue_of_isOptionalText {v : Value} (h : v.isOptionalText = true) :
    ∃ b, v.isTrue = .ok b ∧ (b = true → v.toStr?.isSome = true) := by
  cases v with
  | scalar id s =>
    cases s with
    | null => exact ⟨false, rfl, fun hb => by cases hb⟩
    | str flavor s => exact ⟨_, rfl, fun _ => rfl⟩
    | _ => cases h
  | _ => cases h

/-- In a plain context a report puts a finding into words, if there are any. -/
theorem returns_report {ctx : Context} (hctx : ctx.Plain) {own : Value}
    (hown : own.isOptionalText = true) {f : Finding} (hf : f.Worded) :
    Returns (ctx.report own f) Issue.Shown := by
  obtain ⟨fields, hasks, hfields⟩ := hf
  have hlanguage := hctx.language
  rw [Value.isOptionalText, Bool.or_eq_true] at hlanguage
  obtain ⟨text, htext⟩ := Message.exists_default hasks hlanguage hfields
  obtain ⟨hasOwn, hown, htrue⟩ := isTrue_of_isOptionalText hown
  unfold Context.report
  rw [hctx.translations]
  refine (returns_ofExcept ⟨text, htext, rfl⟩).bind fun _ h => ?_
  subst h
  refine (returns_ofExcept ⟨hasOwn, hown, rfl⟩).bind fun _ h => ?_
  subst h
  dsimp only
  have hcustom : (if hasOwn then own else ctx.config.message).isNull = true ∨
      (if hasOwn then own else ctx.config.message).toStr?.isSome = true := by
    cases hasOwn with
    | true => exact .inr (htrue rfl)
    | false => exact Bool.or_eq_true_iff.mp hctx.message
  generalize (if hasOwn then own else ctx.config.message) = custom at hcustom
  have hpath : ∀ message key, key ∈ (f.toIssue message).path → key.Legible :=
    fun _ _ hkey => by cases hkey
  split
  · exact returns_pure ⟨hpath _, rfl⟩
  · next hnull =>
    have htextual : custom.toStr?.isSome = true := hcustom.resolve_left hnull
    have hcallable : custom.isCallable = false := by
      cases custom with
      | scalar id s => cases s <;> first | rfl | cases htextual
      | _ => rfl
    rw [hcallable]
    exact returns_pure ⟨hpath (.str text), htextual⟩

/-- In a plain context there is no report when the template of a message asks for what cannot be
rendered. -/
theorem faults_report {ctx : Context} (hctx : ctx.Plain) (own : Value) {f : Finding}
    {field : Message.Field} (hhas : Message.has f.messageKey field = true) {e : Fault}
    (h : field.render ⟨.str f.expects, .str f.received, f.requirement⟩ = .error e) :
    Faults (ctx.report own f) := by
  have hlanguage := hctx.language
  rw [Value.isOptionalText, Bool.or_eq_true] at hlanguage
  obtain ⟨e, he⟩ := Message.error_default hhas hlanguage h
  unfold Context.report
  rw [hctx.translations]
  exact (faults_ofExcept he).bind _

/-! ### Reports -/

theorem exists_pathText {path : List Value} (h : ∀ key ∈ path, key.Legible) :
    ∃ t, Issue.pathText path = .ok t := by
  induction path with
  | nil => exact ⟨_, rfl⟩
  | cons key rest ih =>
    rw [List.forall_mem_cons] at h
    obtain ⟨s, hs⟩ := h.1
    obtain ⟨more, hmore⟩ := ih h.2
    unfold Issue.pathText
    rw [hs, hmore]
    exact ⟨_, rfl⟩

theorem Issue.Shown.exists_text {i : Issue} (h : i.Shown) : ∃ t, i.text = .ok t := by
  obtain ⟨path, hpath⟩ := exists_pathText h.path
  obtain ⟨message, hmessage⟩ : ∃ t, i.message.text = .ok t := by
    have htext := h.message
    cases hvalue : i.message with
    | scalar id s =>
      rw [hvalue] at htext
      cases s with
      | str flavor s => exact ⟨_, rfl⟩
      | _ => cases htext
    | _ =>
      rw [hvalue] at htext
      cases htext
  unfold Issue.text
  rw [hpath, hmessage]
  exact ⟨_, rfl⟩

/-- A report can be made of issues with a text. -/
theorem Report.exists_ofIssues {issues : List Issue} (hne : issues ≠ [])
    (h : ∀ i ∈ issues, i.Shown) : ∃ r, Report.ofIssues issues = .ok r := by
  obtain ⟨lines, hlines⟩ : ∃ ts, Report.lines issues = .ok ts := by
    clear hne
    induction issues with
    | nil => exact ⟨_, rfl⟩
    | cons i rest ih =>
      rw [List.forall_mem_cons] at h
      obtain ⟨t, ht⟩ := h.1.exists_text
      obtain ⟨more, hmore⟩ := ih h.2
      unfold Report.lines
      rw [ht, hmore]
      exact ⟨_, rfl⟩
  unfold Report.ofIssues
  rw [dif_neg hne, hlines]
  exact ⟨_, rfl⟩

end Conform
