/-
  Conform/Message/Template.lean
  =============================
  **Templates of messages.**  A template is a text with fields in braces; a
  doubled brace stands for itself.  A field names one of the three things that
  a message can mention, what is asked of it, and how it is written:
  quoted after an exclamation mark, by a date format after a colon.

  A template is read from left to right and stops at the first piece that
  cannot be rendered (`render`).
-/
import Conform.Value.Text
import Conform.Calendar.Format

namespace Conform.Message

/-- What a message can mention. -/
structure Mentions where
  expects : Value
  received : Value
  requirement : Value

/-- A piece of a template. -/
inductive Piece where
  | char (c : Char)
  | field (body : List Char)
  /-- From here on the template is malformed. -/
  | broken
deriving DecidableEq, Repr

/-- The pieces of a template, given the part of a field that has been read, backwards. -/
def piecesFrom : Option (List Char) → List Char → List Piece
  | none, [] => []
  | some _, [] => [.broken]
  | none, '\x7b' :: '\x7b' :: rest => .char '\x7b' :: piecesFrom none rest
  | none, '\x7d' :: '\x7d' :: rest => .char '\x7d' :: piecesFrom none rest
  | none, '\x7b' :: rest => piecesFrom (some []) rest
  | none, '\x7d' :: _ => [.broken]
  | none, c :: rest => .char c :: piecesFrom none rest
  | some body, '\x7d' :: rest => .field body.reverse :: piecesFrom none rest
  | some _, '\x7b' :: _ => [.broken]
  | some body, c :: rest => piecesFrom (some (c :: body)) rest

/-- The pieces of a template. -/
def pieces (template : List Char) : List Piece :=
  piecesFrom none template

/-- A field: what it names, whether it is quoted, and its format. -/
structure Field where
  name : List Char
  quoted : Bool
  format : List Char
deriving DecidableEq, Repr

/-- Reads the body of a field. -/
def Field.ofBody? (body : List Char) : Option Field :=
  let stops (c : Char) : Bool := c == '!' || c == ':'
  let name := body.takeWhile (!stops ·)
  match body.dropWhile (!stops ·) with
  | [] => some ⟨name, false, []⟩
  | ':' :: format => some ⟨name, false, format⟩
  | '!' :: c :: rest =>
    let format? := match rest with
      | [] => some []
      | ':' :: format => some format
      | _ => none
    match format? with
    | some format =>
      if c == 'r' then some ⟨name, true, format⟩
      else if c == 's' then some ⟨name, false, format⟩ else none
    | none => none
  | _ => none

/-- The pattern of a regular expression as a value. -/
def sourceOf (r : Regex) : Value :=
  match r.bytes with
  | some b => .scalar .fresh (.bytes b)
  | none => .str r.source

/-- What a name refers to: something mentioned, or the pattern of a regular expression. -/
def lookup (mentions : Mentions) (name : List Char) : Except Fault Value :=
  let stops (c : Char) : Bool := c == '.' || c == '['
  let head := name.takeWhile (!stops ·)
  let base : Except Fault Value :=
    if head.all Text.isDecimal then .error .missingIndex
    else match asText head with
      | "expects" => .ok mentions.expects
      | "received" => .ok mentions.received
      | "requirement" => .ok mentions.requirement
      | _ => .error .missingKey
  match base, name.dropWhile (!stops ·) with
  | .error f, _ => .error f
  | .ok v, [] => .ok v
  | .ok (.scalar _ (.regex r)), '.' :: part =>
    if asText part = "pattern" then .ok (sourceOf r) else .error .missingAttribute
  | .ok _, '.' :: _ => .error .missingAttribute
  | .ok _, _ => .error .arguments

/-- The text of a value in a format: the plain text in the empty format; dates and times, and they
alone, take a date format.  A time is shown on the first day of 1900. -/
def formatted (v : Value) (format : List Char) : Except Fault String :=
  if format.isEmpty then v.text
  else match v with
    | .scalar _ s => match s with
      | .date d => .ok (asText (Calendar.formatDateTime ⟨d, .midnight, none⟩ format))
      | .time t =>
        .ok (asText (Calendar.formatDateTime ⟨⟨1900, 1, 1⟩, t.clock, t.offset⟩ format))
      | .dateTime d => .ok (asText (Calendar.formatDateTime d format))
      | .bool _ | .int .. | .float .. | .complex .. | .decimal _ | .str .. | .member _ =>
        .error .template
      | _ => .error .arguments
    | _ => .error .arguments

/-- The text of a field. -/
def Field.render (mentions : Mentions) (f : Field) : Except Fault String := do
  let v ← lookup mentions f.name
  if f.quoted then
    let s ← v.quoted
    if f.format.isEmpty then .ok s else .error .template
  else formatted v f.format

/-- The text of a piece. -/
def Piece.render (mentions : Mentions) : Piece → Except Fault String
  | .char c => .ok (String.singleton c)
  | .field body =>
    match Field.ofBody? body with
    | some f => f.render mentions
    | none => .error .template
  | .broken => .error .template

/-- The text of a template.  A template without a brace that opens a field is its own text. -/
def render (template : String) (mentions : Mentions) : Except Fault String :=
  let chars := template.toList
  if chars.contains '\x7b' then
    (pieces chars).foldlM (fun text p => (p.render mentions).map (text ++ ·)) ""
  else .ok template

/-- A template without a field is its own text. -/
theorem render_of_plain {template : String} (mentions : Mentions)
    (h : '\x7b' ∉ template.toList) : render template mentions = .ok template := by
  simp [render, h]

end Conform.Message
