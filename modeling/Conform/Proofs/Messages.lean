/-
  Conform/Proofs/Messages.lean
  ============================
  **Whose message an issue has.**  Every issue begins as a finding of one schema
  (`Schema.Finds`), which that schema puts into words when it reports it: with
  the message that is picked for it (`Context.picked`), or with the default text
  if none is (`Context.Puts`).

  What is told from one world to another is accounted for issue by issue
  (`Context.Told`): each is put into words once, by the schema that has found
  it; later it may be dropped, or moved under a key, but its message stays.

  A computation `Tells` what it adds to the issues so far.  Sequences of
  computations tell what their parts tell (`tells_bind`).
-/
import Conform.Proofs.Outcome
import Conform.Schema.Build

namespace Conform

/-! ### Findings -/

/-- A schema may find something wrong: with a value as a whole, with a key or value of a mapping, or
with what its members have come to. -/
inductive Schema.Finds (names : TypeNames) : Schema → Finding → Prop where
  | rejected {s : Schema} {j : Judgement} {x : Value} {f : Finding} : s.judgement? = some j →
      j names x = .ok (.inr f) → Finds names s f
  | objected {s : Schema} {x : Value} {f : Finding} : s.objection? names x = .ok (some f) →
      Finds names s f
  | violated {m : Value} {check : Check} {name : String} {abort : Bool} {inner : Schema} {x : Value}
      {f : Finding} : check.finding names name x = .ok f →
      Finds names (.constraint m check name abort inner) f
  | missing {m : Value} {id : Nat} {kind : ObjectKind} {extra : Extra} {absent : Absent}
      {entries : List (Value × Schema)} {e : Value × Schema} : e ∈ entries →
      Finds names (.object m id kind extra absent entries)
        ((Schema.object m id kind extra absent entries).label.missing names e.1 e.2.expects)
  | unexpected {m : Value} {id : Nat} {kind : ObjectKind} {absent : Absent}
      {entries : List (Value × Schema)} {key x : Value} :
      Finds names (.object m id kind .strict absent entries)
        ((Schema.object m id kind .strict absent entries).label.unexpected names key x)
  | mapKey {m : Value} {limits : Limits} {key value : Schema} {x reason : Value} :
      Finds names (.map m limits key value)
        ((Schema.map m limits key value).label.invalidEntry names "map_key" x key.expects reason)
  | mapValue {m : Value} {limits : Limits} {key value : Schema} {x reason : Value} :
      Finds names (.map m limits key value)
        ((Schema.map m limits key value).label.invalidEntry names "map_value" x value.expects reason)
  | recordKey {m : Value} {key value : Schema} {x reason : Value} :
      Finds names (.record m key value)
        ((Schema.record m key value).label.invalidEntry names "map_key" x key.expects reason)
  | noMember {m : Value} {members : List Schema} {x : Value} {reasons : List Issue} :
      Finds names (.union m members)
        { (Schema.union m members).label.finding names x with reasons := some reasons }
  | conflict {m : Value} {members : List Schema} {x : Value} :
      Finds names (.intersection m members) ((Schema.intersection m members).label.finding names x)

/-! ### Words -/

/-- The message that is picked in place of the default text: the schema's own, unless that is null or
the empty text, and else that of the configuration. -/
def Context.picked (ctx : Context) (own : Value) : Value :=
  if own.isNull || own.toStr? == some "" then ctx.config.message else own

/-- The default text of a finding, in the language of the configuration. -/
def Context.defaultText (ctx : Context) (f : Finding) : Except Fault String :=
  Message.default ctx.translations ctx.config.language f.messageKey
    ⟨.str f.expects, .str f.received, f.requirement⟩

/-- A finding is put into words by a schema with a message of its own: the message of the issue, and
the world after.  A callable is called once, with the issue that has the default text for a message
and an empty path. -/
inductive Context.Puts (ctx : Context) (own : Value) (f : Finding) (w : World) :
    Value → World → Prop where
  | default {text : String} : (ctx.picked own).isNull = true → ctx.defaultText f = .ok text →
      Puts ctx own f w (.str text) w
  | given : (ctx.picked own).isNull = false → (ctx.picked own).isCallable = false →
      Puts ctx own f w (ctx.picked own) w
  | called {text : String} {id : Identity} {c : Callable} {message : Value} :
      ctx.picked own = .scalar id (.callable c) → ctx.defaultText f = .ok text →
      ctx.host.call c [.issue (f.toIssue (.str text))] w.calls = .ok message →
      Puts ctx own f w message
        { w with calls := .callable c [.issue (f.toIssue (.str text))] :: w.calls }
  | constructed {text : String} {id : Identity} {t : ValueType} {message : Value} :
      ctx.picked own = .scalar id (.type t) → ctx.defaultText f = .ok text →
      t.construct [(f.toIssue (.str text)).toValue] = .ok message → Puts ctx own f w message w

/-- The call is about an issue. -/
def Call.isTelling : Call → Bool
  | .callable _ arguments => arguments.any fun
    | .issue _ => true
    | .value _ => false
  | .getter _ => false

/-- From one world to another nothing has been called with an issue. -/
def World.Quiet (w u : World) : Prop :=
  ∃ calls, u.calls = calls ++ w.calls ∧ ∀ c ∈ calls, c.isTelling = false

theorem World.Quiet.refl (w : World) : w.Quiet w := ⟨[], rfl, List.forall_mem_nil _⟩

theorem World.Quiet.trans {w v u : World} (h : w.Quiet v) (h' : v.Quiet u) : w.Quiet u := by
  obtain ⟨cs, hcs, hquiet⟩ := h
  obtain ⟨cs', hcs', hquiet'⟩ := h'
  refine ⟨cs' ++ cs, by rw [hcs', hcs, List.append_assoc], fun c hc => ?_⟩
  exact (List.mem_append.mp hc).elim (hquiet' c) (hquiet c)

/-- A computation that starts where `I` holds keeps it, and calls nothing with an issue. -/
structure Silent (I : Found → Prop) {ε α : Type} (x : ExceptT ε (StateM World) α) : Prop where
  keeps : Keeps I x
  quiet : ∀ w a u, x w = (.ok a, u) → w.Quiet u

section

variable {ε α β : Type} {ctx : Context} {I : Found → Prop}

theorem Silent.bind {x : ExceptT ε (StateM World) α} {f : α → ExceptT ε (StateM World) β}
    (hx : Silent I x) (hf : ∀ a, Silent I (f a)) : Silent I (x >>= f) where
  keeps := keeps_bind hx.keeps fun a _ => (hf a).keeps
  quiet w b u h := by
    obtain ⟨a, v, ha, h⟩ := bind_eq_ok h
    exact (hx.quiet w a v ha).trans ((hf a).quiet v b u h)

theorem Silent.within {e : Effect α} (h : Silent I e) (d : Dataset) : Silent I (within d e) where
  keeps := keeps_within d h.keeps
  quiet w a u hrun := h.quiet w a u (within_eq_ok hrun)

end

/-! ### What is told -/

/-- The account of the issues that have been told from one world to another, by schemas of `U`, in the
order in which they have been reported.  The reasons of an issue have been told before it. -/
inductive Context.Told (ctx : Context) (U : Schema → Prop) : World → List Issue → World → Prop where
  | quiet {w u : World} : w.Quiet u → Told ctx U w [] u
  | reported {w v u : World} {t : Schema} {f : Finding} {message : Value} {path : List Value} :
      U t → t.Finds ctx.typeNames f → Told ctx U w (f.reasons.getD []) v →
      ctx.Puts t.message f v message u → Told ctx U w [{ f.toIssue message with path }] u
  | append {w v u : World} {is js : List Issue} : Told ctx U w is v → Told ctx U v js u →
      Told ctx U w (is ++ js) u
  | dropped {w u : World} {is js : List Issue} : Told ctx U w is u → js.Sublist is →
      Told ctx U w js u

section

variable {ctx : Context} {I : Found → Prop} {U : Schema → Prop} {w u : World} {is : List Issue}

/-- Issues that are moved under a key are told as before. -/
theorem Context.Told.under (h : ctx.Told U w is u) (key : Value) :
    ctx.Told U w (is.map (·.under key)) u := by
  induction h with
  | quiet hquiet => exact .quiet hquiet
  -- the paths of the reasons start where the path of the issue ends, so they stay
  | reported ht hf hreasons hputs _ => exact .reported ht hf hreasons hputs
  | append _ _ ih ih' =>
    rw [List.map_append]
    exact .append ih ih'
  | dropped _ hsub ih => exact .dropped ih (hsub.map _)

/-- A computation that starts where `I` holds tells what it adds to the issues before. -/
def Context.Tells (ctx : Context) (I : Found → Prop) (U : Schema → Prop) {ε α : Type}
    (x : ExceptT ε (StateM World) α) (before : List Issue) (after : α → List Issue) : Prop :=
  ∀ w a u, I w.resolved → x w = (.ok a, u) →
    I u.resolved ∧ ∃ told, after a = before ++ told ∧ ctx.Told U w told u

variable {ε α β : Type} {before : List Issue}

theorem tells_of_silent {x : ExceptT ε (StateM World) α} {after : α → List Issue} (hx : Silent I x)
    (hafter : ∀ a, Gives I x a → after a = before) : ctx.Tells I U x before after := by
  intro w a u hI h
  have hkept := hx.keeps w hI
  rw [h] at hkept
  refine ⟨hkept, [], ?_, .quiet (hx.quiet w a u h)⟩
  rw [List.append_nil]
  exact hafter a ⟨w, u, hI, h⟩

/-- A sequence tells what its parts tell. -/
theorem tells_bind {x : ExceptT ε (StateM World) α} {f : α → ExceptT ε (StateM World) β}
    {mid : α → List Issue} {after : β → List Issue} (hx : ctx.Tells I U x before mid)
    (hf : ∀ a, Gives I x a → ctx.Tells I U (f a) (mid a) after) :
    ctx.Tells I U (x >>= f) before after := by
  intro w b u hI h
  obtain ⟨a, v, ha, h⟩ := bind_eq_ok h
  obtain ⟨hI', told, hmid, htold⟩ := hx w a v hI ha
  obtain ⟨hI'', told', hafter, htold'⟩ := hf a ⟨w, v, hI, ha⟩ v b u hI' h
  refine ⟨hI'', told ++ told', ?_, .append htold htold'⟩
  rw [hafter, hmid, List.append_assoc]

/-- What is silent tells nothing before what follows. -/
theorem Silent.andThen {x : ExceptT ε (StateM World) α} {f : α → ExceptT ε (StateM World) β}
    {after : β → List Issue} (hx : Silent I x)
    (hf : ∀ a, Gives I x a → ctx.Tells I U (f a) before after) : ctx.Tells I U (x >>= f) before after :=
  tells_bind (tells_of_silent hx fun _ _ => rfl) hf

theorem Context.Tells.within {e : Effect α} {after : α → List Issue}
    (h : ctx.Tells I U e before after) (d : Dataset) : ctx.Tells I U (within d e) before after :=
  fun w a u hI hrun => h w a u hI (within_eq_ok hrun)

theorem Context.Tells.toEffect {r : Run α} {after : α → List Issue}
    (h : ctx.Tells I U r before after) : ctx.Tells I U r.toEffect before after :=
  fun w a u hI hrun => h w a u hI (toEffect_eq_ok hrun)

/-- Of what is told, some may be dropped, and the rest added to the issues before. -/
theorem Context.Tells.kept {x : ExceptT ε (StateM World) α} {after kept : α → List Issue}
    (h : ctx.Tells I U x [] after) (hsub : ∀ a, (kept a).Sublist (after a)) :
    ctx.Tells I U x before fun a => before ++ kept a := by
  intro w a u hI hrun
  obtain ⟨hI', told, hafter, htold⟩ := h w a u hI hrun
  obtain rfl : after a = told := hafter
  exact ⟨hI', kept a, rfl, .dropped htold (hsub a)⟩

/-- What is told may be moved under a key, and added to the issues before. -/
theorem Context.Tells.under {x : ExceptT ε (StateM World) α} {after : α → List Issue}
    (h : ctx.Tells I U x [] after) (key : Value) :
    ctx.Tells I U x before fun a => before ++ (after a).map (·.under key) := by
  intro w a u hI hrun
  obtain ⟨hI', told, hafter, htold⟩ := h w a u hI hrun
  obtain rfl : after a = told := hafter
  exact ⟨hI', _, rfl, htold.under key⟩

end

end Conform
