/-
  Conform/Proofs/Indifference.lean
  ================================
  **Messages and languages do not influence validation.**  Two runs of a schema
  on one value, with different languages, translations and messages, come to the
  same status, the same value and the same issues, up to the words that the
  issues are put into (`Issue.Rewords`).

  Words come back into a result at one place only: the issue of an invalid entry
  of a mapping requires what the first issue of the key or value says.  A message
  that is a text is never read as the signal of a valid value, so nothing is
  decided by it.
-/
import Conform.Proofs.Node
import Conform.Proofs.TotalKeys

namespace Conform

/-! ### The same issue in other words -/

/-- The issue of an invalid entry of a mapping, with the message of its key or value. -/
def Issue.IsEntry (i : Issue) : Prop :=
  i.kind = "schema" ∧ (i.type = "map" ∨ i.type = "record") ∧ i.requirement.toStr?.isSome = true

/-- Issues that are equal but for their messages, which may be quoted in the requirements of issues
of entries, and but for the messages of their nested issues. -/
inductive Issue.Rewords : Issue → Issue → Prop where
  | intro {i j : Issue} (kind : i.kind = j.kind) (type : i.type = j.type)
    (input : i.input = j.input) (expects : i.expects = j.expects)
    (received : i.received = j.received) (path : i.path = j.path)
    (requirement : i.requirement = j.requirement ∨ i.IsEntry ∧ j.IsEntry)
    (reasons : Option.Rel (List.Forall₂ Rewords) i.reasons j.reasons) : Rewords i j

namespace Issue

mutual

theorem Rewords.refl : ∀ i : Issue, i.Rewords i
  | ⟨_, _, _, _, _, _, _, _, none⟩ => .intro rfl rfl rfl rfl rfl rfl (.inl rfl) .none
  | ⟨_, _, _, _, _, _, _, _, some is⟩ =>
    .intro rfl rfl rfl rfl rfl rfl (.inl rfl) (.some (rewords_refl is))
termination_by structural i => i

theorem rewords_refl : ∀ is : List Issue, List.Forall₂ Rewords is is
  | [] => .nil
  | i :: rest => .cons (Rewords.refl i) (rewords_refl rest)
termination_by structural is => is

end

theorem rewords_reasons : ∀ reasons : Option (List Issue),
    Option.Rel (List.Forall₂ Rewords) reasons reasons
  | none => .none
  | some is => .some (rewords_refl is)

theorem Rewords.under {i j : Issue} (h : i.Rewords j) (key : Value) :
    (i.under key).Rewords (j.under key) := by
  obtain ⟨hkind, htype, hinput, hexpects, hreceived, hpath, hrequirement, hreasons⟩ := h
  exact .intro hkind htype hinput hexpects hreceived (congrArg (key :: ·) hpath) hrequirement hreasons

end Issue

/-- A message that is a text. -/
abbrev Value.isText (v : Value) : Prop := v.toStr?.isSome = true

/-- The runs differ in the words of their issues, which are texts. -/
def Pairing.wording : Pairing where
  issue i j := i.Rewords j ∧ i.message.isText ∧ j.message.isText
  reason m n := m.isText ∧ n.isText
  lenient := True
  under key h := ⟨h.1.under key, h.2⟩
  signal h := by
    rw [Validator.Signal.ofMessage_of_text h.2.1, Validator.Signal.ofMessage_of_text h.2.2]
    exact .failed h.2

section

variable {ctx : Context} {a b : Wording} {I : Found → Prop} {U : Schema → Prop}

/-! ### Reports -/

/-- Results of which one may be a fault. -/
theorem abreast_ofExcept {α β : Type} {R : α → β → Prop} {r : Except Fault α} {s : Except Fault β}
    (h : ∀ x y, r = .ok x → s = .ok y → R x y) :
    Pairing.wording.Effects I R (Effect.ofExcept r) (Effect.ofExcept s) := by
  intro w hI
  cases r with
  | error f => exact .left trivial
  | ok x =>
    cases s with
    | error f => exact .right trivial
    | ok y => exact .done hI (h x y rfl rfl)

/-- The issue of a finding when its message, if there is one, is a text. -/
theorem issue_of_text (ctx : Context) {custom : Value} (h : custom.isOptionalText = true) (f : Finding)
    (text : String) :
    ∃ message : Value, message.isText ∧
      (if custom.isNull then return f.toIssue (.str text)
        else if custom.isCallable then do
          let message ← ctx.invoke custom [.issue (f.toIssue (.str text))]
          return { f.toIssue (.str text) with message }
        else return { f.toIssue (.str text) with message := custom } : Effect Issue) =
      pure (f.toIssue message) := by
  cases custom with
  | scalar id s =>
    cases s with
    | null => exact ⟨.str text, rfl, rfl⟩
    | str flavor t => exact ⟨_, rfl, rfl⟩
    | _ => cases h
  | _ => cases h

variable (ha : a.message.isOptionalText = true) (hb : b.message.isOptionalText = true)

include ha hb

/-- Reports with texts for messages differ in words when the findings do. -/
theorem effects_report {own : Value} (hown : own.isOptionalText = true) {f g : Finding}
    (hfg : ∀ m n, (f.toIssue m).Rewords (g.toIssue n)) :
    Pairing.wording.Effects I Pairing.wording.issue ((ctx.worded a).report own f)
      ((ctx.worded b).report own g) := by
  have htexts : ∀ t t', Pairing.wording.Effects I (fun _ _ => True)
      (Effect.ofExcept t : Effect String) (Effect.ofExcept t' : Effect String) :=
    fun t t' => abreast_ofExcept fun _ _ _ _ => trivial
  unfold Context.report
  -- Nothing is asked of the texts: two translations have nothing in common.
  refine abreast_bind (htexts _ _) fun text text' _ => ?_
  refine abreast_bind (Pairing.effect_same (keeps_ofExcept own.isTrue)) fun hasOwn hasOwn' heq => ?_
  subst heq
  dsimp only
  have hcustom : ∀ c : Wording, c.message.isOptionalText = true →
      (if hasOwn then own else (ctx.worded c).config.message).isOptionalText = true := by
    intro c hc
    cases hasOwn
    · exact hc
    · exact hown
  obtain ⟨m, hm, hleft⟩ := issue_of_text (ctx.worded a) (hcustom a ha) f text
  obtain ⟨n, hn, hright⟩ := issue_of_text (ctx.worded b) (hcustom b hb) g text'
  rw [hleft, hright]
  exact abreast_pure ⟨hfg m n, hm, hn⟩

theorem reports_of_text {own : Value} (hown : own.isOptionalText = true) :
    Pairing.wording.Reports ctx a b I own where
  same f := by
    refine effects_report ha hb hown fun m n => ?_
    exact .intro rfl rfl rfl rfl rfl rfl (.inl rfl) (Issue.rewords_reasons f.reasons)
  nested f is js hij := by
    refine effects_report ha hb hown fun m n => ?_
    exact .intro rfl rfl rfl rfl rfl rfl (.inl rfl) (.some (hij.imp fun _ _ h => h.1))
  entry {f m n} hf hmn := by
    refine effects_report ha hb hown fun m' n' => ?_
    refine .intro rfl rfl rfl rfl rfl rfl (.inr ⟨⟨hf.1, hf.2, hmn.1⟩, hf.1, hf.2, hmn.2⟩) ?_
    exact Issue.rewords_reasons f.reasons

/-! ### Runs -/

/-- With texts for messages, two runs with different words are paired. -/
theorem validators_upTo (hclosed : ctx.Closed I U)
    (hown : ∀ s, U s → s.message.isOptionalText = true) (n : Nat) {s : Schema} (hs : U s)
    (x : Value) :
    Pairing.wording.Validators ctx a b I x (s.validatorUpTo n) (s.validatorUpTo n) :=
  Pairing.validators_upTo trivial hclosed (fun t ht => reports_of_text ha hb (hown t ht)) n n hs x

end

/-- Validation is indifferent to words: from one world, two runs of a schema whose own messages are
texts or missing, with any two languages, translations and messages that are texts or missing,
have made the same calls when they end, and end with the same status, the same value and the same
issues in other words. -/
theorem run_indifferent {ctx : Context} {a b : Wording} {s : Schema} {x : Value} {w : World}
    (ha : a.message.isOptionalText = true) (hb : b.message.isOptionalText = true)
    (hown : ∀ t, ctx.Reaches w.resolved s t → t.message.isOptionalText = true)
    {d e : Dataset} {u v : World} (hleft : s.run (ctx.worded a) (.fresh x) w = (.ok d, u))
    (hright : s.run (ctx.worded b) (.fresh x) w = (.ok e, v)) :
    d.status = e.status ∧ d.value = e.value ∧ List.Forall₂ Issue.Rewords d.issues e.issues ∧
      u = v := by
  have hbeside := validators_upTo ha hb (ctx.closed_reaches w.resolved s) hown (ctx.bound s x)
    .start x w (ctx.leads_reaches w.resolved s)
  unfold Schema.run at hleft hright
  rw [show s.validatorUpTo (ctx.bound s x) (ctx.worded a) (.fresh x) w = (.ok d, u) from hleft,
    show s.validatorUpTo (ctx.bound s x) (ctx.worded b) (.fresh x) w = (.ok e, v) from hright]
    at hbeside
  cases hbeside with
  | done _ hde => exact ⟨hde.status, hde.value, hde.issues.imp fun _ _ h => h.1, rfl⟩

/-- An invalid value of a map, in two languages: the issues require what the union says, one in
German and one in the words of the configuration. -/
theorem run_indifferent_entry :
    let ctx : Context := ⟨.default, [], [], [], ⟨fun _ _ _ => .error .callable, 0⟩⟩
    let german : Wording := ⟨.str "de", .null,
      [("de", [("Value does not match any of the expected types", "Kein Typ passt")])]⟩
    let plain : Wording := ⟨.null, .str "wrong", []⟩
    let union : Schema := .union .null [.primitive .null .number, .primitive .null .boolean]
    let s : Schema := .map .null .none (.primitive .null .string) union
    let input : Value := .ofMapping [(.str "a", .int 1), (.str "b", .str "x")]
    ∃ d e u v, s.run (ctx.worded german) (.fresh input) .empty = (.ok d, u) ∧
      s.run (ctx.worded plain) (.fresh input) .empty = (.ok e, v) ∧
      d.issues.map (·.requirement) = [.str "Kein Typ passt"] ∧
      e.issues.map (·.requirement) = [.str "wrong"] ∧
      d.status = e.status ∧ d.value = e.value ∧ List.Forall₂ Issue.Rewords d.issues e.issues := by
  intro ctx german plain union s input
  have hreaches : ∀ t, ctx.Reaches [] s t → t ∈ [s, .primitive .null .string, union,
      .primitive .null .number, .primitive .null .boolean] := by
    intro t ht
    refine ht.closed List.mem_cons_self (fun r c hr hc => ?_) fun m id getter t hr => ?_
    · simp only [List.mem_cons, List.not_mem_nil, or_false] at hr
      rcases hr with rfl | rfl | rfl | rfl | rfl <;>
        simp only [Schema.children, List.mem_cons, List.not_mem_nil, or_false, s, union] at hc ⊢ <;>
        tauto
    · simp [s, union] at hr
  have hown : ∀ t, ctx.Reaches [] s t → t.message.isOptionalText = true := by
    intro t ht
    have hmem := hreaches t ht
    simp only [List.mem_cons, List.not_mem_nil, or_false] at hmem
    rcases hmem with rfl | rfl | rfl | rfl | rfl <;> rfl
  obtain ⟨d, u, hleft, hgerman⟩ : ∃ d u,
      s.run (ctx.worded german) (.fresh input) .empty = (.ok d, u) ∧
        d.issues.map (·.requirement) = [.str "Kein Typ passt"] := by
    dsimp only [ctx, german, union, s, input]
    refine ⟨_, _, rfl, ?_⟩
    rfl
  obtain ⟨e, v, hright, hplain⟩ : ∃ e v,
      s.run (ctx.worded plain) (.fresh input) .empty = (.ok e, v) ∧
        e.issues.map (·.requirement) = [.str "wrong"] := by
    dsimp only [ctx, plain, union, s, input]
    refine ⟨_, _, rfl, ?_⟩
    rfl
  have hsame := run_indifferent (a := german) (b := plain) rfl rfl hown hleft hright
  exact ⟨d, e, u, v, hleft, hright, hgerman, hplain, hsame.1, hsame.2.1, hsame.2.2.1⟩

end Conform
