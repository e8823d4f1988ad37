/-
  Conform/Message/Translation.lean
  ================================
  **Translations.**  A language may have translations of messages, by their
  exact text; a message without one is shown as it is.  The default message of
  an issue is the translated template of its key, rendered.
-/
import Conform.Message.Catalog
import Conform.Message.Template

namespace Conform

/-- Translations of messages, by language. -/
abbrev Translations := List (String × List (String × String))

/-- Adds the translations of a language in place of those that it had. -/
def Translations.register (t : Translations) (language : String) (messages : List (String × String)) :
    Translations :=
  (language, messages) :: t

/-- A message in a language. -/
def Translations.inLanguage (t : Translations) (language message : String) : String :=
  match t.lookup language with
  | some messages => (messages.lookup message).getD message
  | none => message

@[simp] theorem Translations.inLanguage_nil (language message : String) :
    Translations.inLanguage [] language message = message := rfl

/-- The translations that were registered last for a language are the ones that count. -/
theorem Translations.inLanguage_register (t : Translations) (language message : String)
    (messages : List (String × String)) :
    (t.register language messages).inLanguage language message =
      (messages.lookup message).getD message := by
  simp [register, inLanguage]

/-- A message in a language that is given as a value.  Nothing and the empty text stand for the
language of the message itself; what is no text is no language. -/
def Translations.translate (t : Translations) (message : String) (language : Value) :
    Except Fault String := do
  if !(← language.isTrue) then .ok message
  else match language with
    | .scalar _ (.str _ name) => .ok (t.inLanguage name message)
    | .scalar _ (.bytes _) => .error .arguments
    | v => if v.isHashable then .error .missingAttribute else .error .unhashable

/-- Anything in a language: what is no message has no translation. -/
def Translations.translateValue (t : Translations) (message language : Value) :
    Except Fault Value := do
  match message.toStr? with
  | some s => (t.translate s language).map fun r => if r == s then message else .str r
  | none =>
    let _ ← t.translate "" language
    .ok message

/-- The default message with a key that is given as a value. -/
def Message.defaultFor (t : Translations) (key language : Value) (mentions : Mentions) :
    Except Fault String :=
  match key.toStr? with
  | some s =>
    match Message.default? s with
    | none => .error .missingKey
    | some template => do Message.render (← t.translate template language) mentions
  | none => .error (if key.isHashable then .missingKey else .unhashable)

/-- The default message with a key. -/
def Message.default (t : Translations) (language : Value) (key : String) (mentions : Mentions) :
    Except Fault String := do
  match Message.default? key with
  | none => .error .missingKey
  | some template => Message.render (← t.translate template language) mentions

end Conform
