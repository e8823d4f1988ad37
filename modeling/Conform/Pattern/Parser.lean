/-
  Conform/Pattern/Parser.lean
  ===========================
  **Reading regular expressions.**  A pattern is either read completely or
  refused with a reason and the position of the offending part.

  The reader looks one token ahead; a token is a character, or a backslash and
  the character behind it.  Every step consumes a token or opens a nested
  reader behind one, so a fuel of a few steps per character never runs out.
-/
import Conform.Pattern.Match
import Conform.Number.Numeral
import Conform.Text.Quoted

namespace Conform.Pattern

open Text

/-- Why a pattern is refused. -/
inductive Refusal where
  /-- The pattern is malformed, at a position when one is to blame. -/
  | malformed (reason : String) (position : Option Nat)
  /-- A count in a repetition is too large. -/
  | countTooLarge
  /-- The flags for ASCII and for all letters are both on. -/
  | conflictingFlags
deriving DecidableEq, Repr

/-- A pattern as it is given: characters, or bytes seen as characters. -/
structure Source where
  text : Array Char
  isBytes : Bool
deriving Repr

/-- The text of a refusal: the reason, the position, and line and column when the pattern has
several lines. -/
def Refusal.message (source : Source) : Refusal → String
  | .malformed reason none => reason
  | .malformed reason (some position) =>
    let before := source.text.toList.take position
    let line := before.count '\n' + 1
    let column := (before.reverse.takeWhile (· != '\n')).length + 1
    let place := " at position " ++ toString position
    if source.text.toList.contains '\n' then
      reason ++ place ++ " (line " ++ toString line ++ ", column " ++ toString column ++ ")"
    else reason ++ place
  | .countTooLarge => "the repetition number is too large"
  | .conflictingFlags => "ASCII and UNICODE flags are incompatible"

/-- The state of the reader. -/
structure Reader where
  source : Source
  /-- The index behind the next token. -/
  index : Nat
  /-- The next token; empty at the end. -/
  token : List Char
  /-- Flags that hold for the whole pattern. -/
  flags : Flags
  /-- The widths of the groups opened so far; none while a group is open. -/
  widths : Array (Option Width)
  names : List (List Char × Nat)
  /-- Within a text that has to precede: the number of groups opened before it. -/
  behindGroups : Option Nat
  /-- Groups that conditions refer to by number, with positions. -/
  conditions : List (Nat × Nat)
  /-- Some text that has to precede has no fixed width. -/
  looseBehind : Bool

/-- A step of the reader. -/
abbrev Read := StateT Reader (Except Refusal)

namespace Read

/-- The number of groups opened so far, the whole pattern included. -/
def groupCount : Read Nat := do
  return (← get).widths.size + 1

/-- The position of the next token. -/
def tell : Read Nat := do
  let r ← get
  return r.index - r.token.length

/-- Refuses the pattern, `back` characters before the next token. -/
def refuse {α : Type} (reason : String) (back : Nat) : Read α := do
  throw (.malformed reason (some ((← tell) - back)))

/-- Moves to the token that begins at an index. -/
def seek (index : Nat) : Read Unit := do
  let r ← get
  match r.source.text[index]? with
  | none => set { r with token := [], index := index }
  | some '\\' =>
    match r.source.text[index + 1]? with
    | some c => set { r with token := ['\\', c], index := index + 2 }
    | none => throw (.malformed "bad escape (end of pattern)" (some (r.source.text.size - 1)))
  | some c => set { r with token := [c], index := index + 1 }

/-- The next token, and moves on. -/
def take : Read (List Char) := do
  let r ← get
  if r.token.isEmpty then return [] else
  seek r.index
  return r.token

/-- Moves on if the next token is this character. -/
def accept (c : Char) : Read Bool := do
  if (← get).token = [c] then
    discard take
    return true
  else return false

/-- At most `n` tokens that are single characters of a class. -/
def takeWhileUpTo (allowed : Char → Bool) : Nat → Read (List Char)
  | 0 => return []
  | n + 1 => do
    match (← get).token with
    | [c] =>
      if allowed c then
        discard take
        return c :: (← takeWhileUpTo allowed n)
      else return []
    | _ => return []

/-- All tokens up to a closing character; `what` names them in a refusal. -/
def takeUntil (close : Char) (what : String) : Nat → List Char → Read (List Char)
  | 0, name => return name
  | fuel + 1, name => do
    let token ← take
    if token.isEmpty then
      if name.isEmpty then refuse ("missing " ++ what) 0
      else refuse ("missing " ++ String.singleton close ++ ", unterminated name") name.length
    else if token = [close] then
      if name.isEmpty then refuse ("missing " ++ what) 1 else return name
    else takeUntil close what fuel (name ++ token)

/-- A name up to a closing character. -/
def takeName (close : Char) (what : String) : Read (List Char) := do
  takeUntil close what ((← get).source.text.size + 1) []

end Read

open Read

def isOctal (c : Char) : Bool := '0' ≤ c ∧ c ≤ '7'

def isAsciiDigit (c : Char) : Bool := '0' ≤ c ∧ c ≤ '9'

def isHex (c : Char) : Bool := (hexValue? c).isSome

def isAsciiLetter (c : Char) : Bool := ('a' ≤ c ∧ c ≤ 'z') || ('A' ≤ c ∧ c ≤ 'Z')

/-- The value of digits in a base. -/
def baseValue (base : Nat) (ds : List Char) : Nat :=
  ds.foldl (fun n c => n * base + (hexValue? c).getD 0) 0

/-- A text between quotation marks. -/
def quoted (s : List Char) : String := String.ofList (quote s)

/-- Escapes for control characters and the backslash. -/
def simpleEscape? : Char → Option Nat
  | 'a' => some 7
  | 'b' => some 8
  | 'f' => some 12
  | 'n' => some 10
  | 'r' => some 13
  | 't' => some 9
  | 'v' => some 11
  | '\\' => some 92
  | _ => none

/-- Escapes for categories, and whether they are negated. -/
def categoryEscape? : Char → Option (Category × Bool)
  | 'd' => some (.digit, false)
  | 'D' => some (.digit, true)
  | 's' => some (.space, false)
  | 'S' => some (.space, true)
  | 'w' => some (.word, false)
  | 'W' => some (.word, true)
  | _ => none

/-- Escapes for positions. -/
def anchorEscape? : Char → Option Anchor
  | 'A' => some .textStart
  | 'b' => some .boundary
  | 'B' => some .notBoundary
  | 'Z' => some .textEnd
  | _ => none

/-- A character given by exactly `count` hexadecimal digits. -/
def readHex (c : Char) (count : Nat) : Read Nat := do
  let ds ← takeWhileUpTo isHex count
  if ds.length = count then
    let code := baseValue 16 ds
    if code < 0x110000 then return code
    else refuse ("bad escape \\" ++ String.ofList (c :: ds)) (count + 2)
  else refuse ("incomplete escape \\" ++ String.ofList (c :: ds)) (2 + ds.length)

/-- A character given by its name; no names are known. -/
def readNamed : Read Nat := do
  if ← accept '{' then
    let name ← takeName '}' "character name"
    refuse ("undefined character name " ++ quoted name) (name.length + 4)
  else refuse "missing \x7b" 0

/-- The escapes that stand for one character both inside and outside sets. -/
def readCharEscape? (c : Char) : Read (Option Nat) := do
  let isBytes := (← get).source.isBytes
  if c == 'x' then return some (← readHex c 2)
  else if c == 'u' && !isBytes then return some (← readHex c 4)
  else if c == 'U' && !isBytes then return some (← readHex c 8)
  else if c == 'N' && !isBytes then return some (← readNamed)
  else return none

/-- A backslash and a character without a meaning of its own. -/
def plainEscape (c : Char) : Read Nat := do
  if isAsciiLetter c || isAsciiDigit c then refuse ("bad escape \\" ++ String.singleton c) 2
  else return c.toNat

/-- An octal escape is out of range. -/
def refuseOctal {α : Type} (ds : List Char) : Read α :=
  refuse ("octal escape value \\" ++ String.ofList ds ++ " outside of range 0-0o377") (ds.length + 1)

/-- An escape inside a character set. -/
def readSetEscape (c : Char) : Read SetItem := do
  match simpleEscape? c, categoryEscape? c with
  | some code, _ => return .char code
  | none, some (kind, negated) => return .category kind negated
  | none, none =>
    match ← readCharEscape? c with
    | some code => return .char code
    | none =>
      if isOctal c then
        let ds := c :: (← takeWhileUpTo isOctal 2)
        let code := baseValue 8 ds
        if 0o377 < code then refuseOctal ds else return .char code
      else return .char (← plainEscape c)

/-- A reference to an earlier group, when it may be referred to here. -/
def checkGroup (index back : Nat) : Read Unit := do
  match (← get).widths[index - 1]? with
  | some (some _) => pure ()
  | _ => refuse "cannot refer to an open group" back

/-- A group that was opened within the text that has to precede cannot be referred to there. -/
def checkBehind (index : Nat) : Read Unit := do
  match (← get).behindGroups with
  | none => pure ()
  | some limit =>
    checkGroup index 0
    if limit ≤ index then
      refuse "cannot refer to group defined in the same lookbehind subpattern" 0

/-- A backslash and a digit other than zero: a group, or a character in three octal digits. -/
def readNumberEscape (c : Char) : Read Node := do
  let second ← takeWhileUpTo isAsciiDigit 1
  let third ←
    if second ≠ [] ∧ (c :: second).all isOctal then takeWhileUpTo isOctal 1 else pure []
  let ds := c :: (second ++ third)
  if ds.length = 3 then
    let code := baseValue 8 ds
    if 0o377 < code then refuseOctal ds else return .char code
  else
    let index := baseValue 10 ds
    if index < (← groupCount) then
      checkGroup index (ds.length + 1)
      checkBehind index
      return .backreference index
    else refuse ("invalid group reference " ++ toString index) ds.length

/-- An escape outside of character sets. -/
def readEscape (c : Char) : Read Node := do
  match anchorEscape? c, categoryEscape? c, simpleEscape? c with
  | some kind, _, _ => return .anchor kind
  | none, some (kind, negated), _ => return .set false [.category kind negated]
  | none, none, some code => return .char code
  | none, none, none =>
    match ← readCharEscape? c with
    | some code => return .char code
    | none =>
      if c == '0' then
        return .char (baseValue 8 (c :: (← takeWhileUpTo isOctal 2)))
      else if isAsciiDigit c then readNumberEscape c
      else return .char (← plainEscape c)

/-! ### Character sets -/

/-- A member of a set from its first token. -/
def readSetMember (token : List Char) : Read SetItem :=
  match token with
  | ['\\', c] => readSetEscape c
  | [c] => return .char c.toNat
  | _ => return .char 0

/-- The members of a set whose opening bracket is at `start`. -/
def readSetItems (start : Nat) : Nat → List SetItem → Read (List SetItem)
  | 0, items => return items
  | fuel + 1, items => do
    let unterminated {α : Type} : Read α := do
      refuse "unterminated character set" ((← tell) - start)
    let this ← take
    if this.isEmpty then unterminated
    else if this = [']'] ∧ items ≠ [] then return items
    else
      let first ← readSetMember this
      if ← accept '-' then
        let that ← take
        if that.isEmpty then unterminated
        else if that = [']'] then return items ++ [first, .char '-'.toNat]
        else
          let second ← readSetMember that
          let bad {α : Type} : Read α :=
            refuse ("bad character range " ++ String.ofList this ++ "-" ++ String.ofList that)
              (this.length + 1 + that.length)
          match first, second with
          | .char lo, .char hi =>
            if hi < lo then bad else readSetItems start fuel (items ++ [.range lo hi])
          | _, _ => bad
      else readSetItems start fuel (items ++ [first])

/-- A character set behind its opening bracket. -/
def readSet : Read Node := do
  let start := (← tell) - 1
  let negated ← accept '^'
  let items ← readSetItems start ((← get).source.text.size + 1) []
  match items.eraseDups, negated with
  | [.char code], true => return .notChar code
  | [.char code], false => return .char code
  | items, negated => return .set negated items

/-! ### Repetitions -/

/-- The largest count of a repetition, exclusive. -/
def maxCount : Nat := 4294967295

/-- Reads a count; an empty one is left open. -/
def readCount : Read (Option Nat) := do
  let ds ← takeWhileUpTo isAsciiDigit ((← get).source.text.size)
  if ds.isEmpty then return none
  else
    let n := baseValue 10 ds
    return some n

/-- The bounds of a repetition from its first character, or nothing when the character stands for
itself. -/
def readBounds (c : Char) (start : Nat) : Read (Option (Nat × Option Nat)) := do
  match c with
  | '?' => return some (0, some 1)
  | '*' => return some (0, none)
  | '+' => return some (1, none)
  | _ =>
    let here ← tell
    if (← get).token = ['}'] then return none
    else
      let lo ← readCount
      let hi ← if ← accept ',' then readCount else pure lo
      if ← accept '}' then
        let tooLarge (n : Option Nat) : Bool := match n with
          | some n => maxCount ≤ n
          | none => false
        if tooLarge lo || tooLarge hi then throw .countTooLarge
        match lo, hi with
        | some lo', some hi' =>
          if hi' < lo' then
            refuse "min repeat greater than max repeat" ((← tell) - start)
          else return some (lo', some hi')
        | lo, hi => return some (lo.getD 0, hi)
      else
        seek here
        return none

/-- The mark behind a repetition that says how it chooses its count. -/
def readGreed : Read Greed := do
  if ← accept '?' then return .least
  if ← accept '+' then return .possessive
  return .most

/-- The last node of a sequence repeated; `start` is the position of the repetition, whose first
token is `length` characters long. -/
def repeatLast (nodes : List Node) (bounds : Nat × Option Nat) (start length : Nat) :
    Read (List Node) := do
  let back := (← tell) - start + length
  match nodes.getLast? with
  | none => refuse "nothing to repeat" back
  | some (.anchor _) => refuse "nothing to repeat" back
  | some (.repeated ..) => refuse "multiple repeat" back
  | some node =>
    let body := match node with
      | .group none added removed body =>
        if added = Flags.none ∧ removed = Flags.none then body else [node]
      | node => [node]
    let greed ← readGreed
    return nodes.dropLast ++ [.repeated greed bounds.1 bounds.2 body]

/-! ### Flags -/

/-- The flag that a letter stands for; two letters have no effect here. -/
def flag? : Char → Option Flags
  | 'i' => some { Flags.none with ignoreCase := true }
  | 'm' => some { Flags.none with multiline := true }
  | 's' => some { Flags.none with dotAll := true }
  | 'x' => some { Flags.none with verbose := true }
  | 'a' => some { Flags.none with ascii := true }
  | 'u' => some { Flags.none with unicode := true }
  | 'L' => some Flags.none
  | 't' => some Flags.none
  | _ => none

/-- A letter that chooses the classes of characters. -/
def choosesClasses (c : Char) : Bool := c == 'a' || c == 'u' || c == 'L'

/-- A wrong character among flags: a letter is an unknown flag, all else means that something is
missing. -/
def refuseFlag {α : Type} (token : List Char) (missing : String) : Read α :=
  let isLetter := match token with
    | [c] => isWord c && !isDigit c && c != '_'
    | _ => false
  refuse (if isLetter then "unknown flag" else missing) token.length

/-- The letters of the flags that are turned on, from `c` on, and the character behind them. -/
def readAdded : Nat → Char → List Char → Read (List Char × Char)
  | 0, c, letters => return (letters, c)
  | fuel + 1, c, letters => do
    let isBytes := (← get).source.isBytes
    if c == 'L' && !isBytes then
      refuse "bad inline flags: cannot use 'L' flag with a str pattern" 0
    if c == 'u' && isBytes then
      refuse "bad inline flags: cannot use 'u' flag with a bytes pattern" 0
    let letters := letters ++ [c]
    if choosesClasses c && letters.any (fun d => choosesClasses d && d != c) then
      refuse "bad inline flags: flags 'a', 'u' and 'L' are incompatible" 0
    let token ← take
    match token with
    | [] => refuse "missing -, : or )" 0
    | [d] =>
      if d == ')' || d == '-' || d == ':' then return (letters, d)
      else if (flag? d).isSome then readAdded fuel d letters
      else refuseFlag token "missing -, : or )"
    | _ => refuseFlag token "missing -, : or )"

/-- The letters of the flags that are turned off, from `c` on. -/
def readRemoved : Nat → Char → List Char → Read (List Char)
  | 0, _, letters => return letters
  | fuel + 1, c, letters => do
    if choosesClasses c then
      refuse "bad inline flags: cannot turn off flags 'a', 'u' and 'L'" 0
    let letters := letters ++ [c]
    let token ← take
    match token with
    | [] => refuse "missing :" 0
    | [d] =>
      if d == ':' then return letters
      else if (flag? d).isSome then readRemoved fuel d letters
      else refuseFlag token "missing :"
    | _ => refuseFlag token "missing :"

/-- All flags of some letters. -/
def flagsOf (letters : List Char) : Flags :=
  letters.foldl (fun flags c => flags.union ((flag? c).getD Flags.none)) Flags.none

/-- Flags behind `(?`, from their first character: none when they hold for the whole pattern, or
those turned on and off for a group. -/
def readFlags (c : Char) : Read (Option (Flags × Flags)) := do
  let fuel := (← get).source.text.size + 1
  let (added, stop) ← if c == '-' then pure ([], '-') else readAdded fuel c []
  if stop == ')' then
    modify fun r => { r with flags := r.flags.union (flagsOf added) }
    return none
  else
    if added.contains 't' then refuse "bad inline flags: cannot turn on global flag" 1
    let removed ← if stop == '-' then
        let token ← take
        match token with
        | [] => refuse "missing flag" 0
        | [d] =>
          if (flag? d).isSome then readRemoved fuel d [] else refuseFlag token "missing flag"
        | _ => refuseFlag token "missing flag"
      else pure []
    if removed.contains 't' then refuse "bad inline flags: cannot turn off global flag" 1
    if added.any removed.contains then
      refuse "bad inline flags: flag turned on and off" 1
    return some (flagsOf added, flagsOf removed)

/-! ### Groups -/

/-- What kind of group an opening bracket begins. -/
inductive Opening where
  /-- A comment: nothing is added to the sequence. -/
  | comment
  /-- Flags for the whole pattern: nothing is added to the sequence. -/
  | globalFlags
  /-- A node without contents. -/
  | complete (node : Node)
  | plain (capture : Bool) (name : Option (List Char)) (added removed : Flags)
  | atomic
  | look (ahead negated : Bool)
  | conditional (index : Nat)

/-- A name of a group is a name. -/
def checkName (name : List Char) (back : Nat) : Read Unit := do
  if !isName name then
    refuse ("bad character in group name " ++ quoted name) (name.length + back)

/-- The group with a name. -/
def namedGroup (name : List Char) : Read Nat := do
  match (← get).names.find? (·.1 = name) with
  | some (_, index) => return index
  | none => refuse ("unknown group name " ++ quoted name) (name.length + 1)

/-- Skips a comment that began at `start`. -/
def skipComment (start : Nat) : Nat → Read Unit
  | 0 => return ()
  | fuel + 1 => do
    if (← get).token.isEmpty then
      refuse "missing ), unterminated comment" ((← tell) - start)
    if (← take) = [')'] then return () else skipComment start fuel

/-- The group that a condition refers to. -/
def readCondition : Read Nat := do
  let name ← takeName ')' "group name"
  let index ←
    if isName name then namedGroup name
    else match Number.parseInt? name with
      | none => refuse ("bad character in group name " ++ quoted name) (name.length + 1)
      | some n =>
        if n < 0 then refuse ("bad character in group name " ++ quoted name) (name.length + 1)
        else if n = 0 then refuse "bad group number" (name.length + 1)
        else
          let position := (← tell) - name.length - 1
          modify fun r =>
            if r.conditions.any (·.1 = n.toNat) then r
            else { r with conditions := r.conditions ++ [(n.toNat, position)] }
          pure n.toNat
  checkBehind index
  return index

/-- What follows `(?P`. -/
def readNamedOpening : Read Opening := do
  if ← accept '<' then
    let name ← takeName '>' "group name"
    checkName name 1
    return .plain true (some name) Flags.none Flags.none
  else if ← accept '=' then
    let name ← takeName ')' "group name"
    checkName name 1
    let index ← namedGroup name
    checkGroup index (name.length + 1)
    checkBehind index
    return .complete (.backreference index)
  else
    let token ← take
    if token.isEmpty then refuse "unexpected end of pattern" 0
    else refuse ("unknown extension ?P" ++ String.ofList token) (token.length + 2)

/-- What follows an opening bracket at `start`. `first` says that nothing precedes it. -/
def readOpening (start : Nat) (first : Bool) : Read Opening := do
  if !(← accept '?') then return .plain true none Flags.none Flags.none
  else
    let token ← take
    match token with
    | [] => refuse "unexpected end of pattern" 0
    | ['P'] => readNamedOpening
    | [':'] => return .plain false none Flags.none Flags.none
    | ['#'] =>
      skipComment start ((← get).source.text.size + 1)
      return .comment
    | ['='] => return .look true false
    | ['!'] => return .look true true
    | ['<'] =>
      let token ← take
      match token with
      | [] => refuse "unexpected end of pattern" 0
      | ['='] => return .look false false
      | ['!'] => return .look false true
      | token => refuse ("unknown extension ?<" ++ String.ofList token) (token.length + 2)
    | ['('] => return .conditional (← readCondition)
    | ['>'] => return .atomic
    | [c] =>
      if (flag? c).isSome || c == '-' then
        match ← readFlags c with
        | some (added, removed) => return .plain false none added removed
        | none =>
          if first then return .globalFlags
          else refuse "global flags not at the start of the expression" ((← tell) - start)
      else refuse ("unknown extension ?" ++ String.singleton c) 2
    | token => refuse ("unknown extension ?" ++ String.ofList token) (token.length + 1)

/-- Opens a group, with a name or without. -/
def openGroup (name : Option (List Char)) : Read Nat := do
  let index ← groupCount
  modify fun r => { r with widths := r.widths.push none }
  match name with
  | none => pure ()
  | some name =>
    match (← get).names.find? (·.1 = name) with
    | some (_, old) =>
      refuse ("redefinition of group name " ++ quoted name ++ " as group " ++ toString index ++
        "; was group " ++ toString old) (name.length + 1)
    | none => modify fun r => { r with names := (name, index) :: r.names }
  return index

/-- The widths of the groups read so far. -/
def Reader.groupWidth (r : Reader) (index : Nat) : Width :=
  ((r.widths[index - 1]?).getD none).getD ⟨0, 0⟩

/-- The bracket that closes the group opened at `start`. -/
def expectClose (start : Nat) : Read Unit := do
  if !(← accept ')') then
    refuse "missing ), unterminated subpattern" ((← tell) - start)

/-- The first node of each branch, when all branches begin with the same one. -/
def commonHead? : List (List Node) → Option Node
  | [] => none
  | [] :: _ => none
  | (head :: _) :: rest =>
    if rest.all fun branch => match branch with
      | node :: _ => node.sameLeaf head
      | [] => false
    then some head else none

/-- A choice of single characters as one set. -/
def asSet? : List (List Node) → Option (List SetItem)
  | [] => some []
  | [.char code] :: rest => (asSet? rest).map (.char code :: ·)
  | [.set false items] :: rest => (asSet? rest).map (items ++ ·)
  | _ => none

/-- A choice: a beginning common to all branches comes first, and single characters become a
set. -/
def choice : Nat → List (List Node) → List Node
  | 0, branches => [.alternatives branches]
  | fuel + 1, branches =>
    match commonHead? branches with
    | some head => head :: choice fuel (branches.map List.tail)
    | none => match asSet? branches with
      | some items => [.set false items.eraseDups]
      | none => [.alternatives branches]

/-- Groups that only bracket are replaced by their contents. -/
def unpack (nodes : List Node) : List Node :=
  nodes.flatMap fun node => match node with
    | .group none added removed body =>
      if added = Flags.none ∧ removed = Flags.none then body else [node]
    | node => [node]

/-- White space that a verbose pattern skips. -/
def isPatternBlank (c : Char) : Bool :=
  c == ' ' || (9 ≤ c.toNat && c.toNat ≤ 13)

/-- Skips to the end of a line. -/
def skipLine : Nat → Read Unit
  | 0 => return ()
  | fuel + 1 => do
    let token ← take
    if token.isEmpty || token = ['\n'] then return () else skipLine fuel

mutual

/-- A choice of sequences.  `top` says that it is the whole pattern. -/
def readChoice (top verbose : Bool) : Nat → List (List Node) → Read (List Node)
  | 0, _ => return []
  | fuel + 1, branches => do
    let branch ← readSequence (top && branches.isEmpty) verbose fuel []
    let branches := branches ++ [branch]
    if ← accept '|' then
      let r ← get
      readChoice top (if top then r.flags.verbose else verbose) fuel branches
    else
      let r ← get
      match branches with
      | [branch] => return branch
      | branches => return choice (r.source.text.size + 1) branches

/-- A sequence of nodes, behind the nodes already read. -/
def readSequence (first verbose : Bool) : Nat → List Node → Read (List Node)
  | 0, nodes => return nodes
  | fuel + 1, nodes => do
    let token := (← get).token
    if token.isEmpty || token = ['|'] || token = [')'] then return unpack nodes
    else
      discard take
      match token with
      | ['\\', c] => readSequence first verbose fuel (nodes ++ [← readEscape c])
      | [c] =>
        if verbose && isPatternBlank c then readSequence first verbose fuel nodes
        else if verbose && c == '#' then
          skipLine ((← get).source.text.size + 1)
          readSequence first verbose fuel nodes
        else match c with
          | '[' => readSequence first verbose fuel (nodes ++ [← readSet])
          | '.' => readSequence first verbose fuel (nodes ++ [.any])
          | '^' => readSequence first verbose fuel (nodes ++ [.anchor .lineStart])
          | '$' => readSequence first verbose fuel (nodes ++ [.anchor .lineEnd])
          | '(' =>
            let start := (← tell) - 1
            let opening ← readOpening start (first && nodes.isEmpty)
            let globalVerbose := (← get).flags.verbose
            let verbose := match opening with
              | .globalFlags => globalVerbose
              | _ => verbose
            let more ← readGroup opening start verbose fuel
            readSequence first verbose fuel (nodes ++ more)
          | _ =>
            if c == '?' || c == '*' || c == '+' || c == '{' then
              let here ← tell
              match ← readBounds c here with
              | some bounds =>
                readSequence first verbose fuel (← repeatLast nodes bounds here 1)
              | none => readSequence first verbose fuel (nodes ++ [.char c.toNat])
            else readSequence first verbose fuel (nodes ++ [.char c.toNat])
      | _ => return nodes

/-- The contents and the end of a group. -/
def readGroup (opening : Opening) (start : Nat) (verbose : Bool) : Nat → Read (List Node)
  | 0 => return []
  | fuel + 1 => do
    match opening with
    | .comment | .globalFlags => return []
    | .complete node => return [node]
    | .atomic =>
      let body ← readChoice false verbose fuel []
      expectClose start
      return [.atomic body]
    | .plain capture name added removed =>
      let index ← if capture then some <$> openGroup name else pure none
      let body ← readChoice false ((verbose || added.verbose) && !removed.verbose) fuel []
      expectClose start
      match index with
      | some index =>
        modify fun r =>
          { r with widths := r.widths.setIfInBounds (index - 1)
                               (some (bodyWidth r.groupWidth body)) }
      | none => pure ()
      return [.group index added removed body]
    | .look ahead negated =>
      let outer := (← get).behindGroups
      if !ahead && outer.isNone then
        let count ← groupCount
        modify fun r => { r with behindGroups := some count }
      let body ← readChoice false verbose fuel []
      if !ahead && outer.isNone then
        modify fun r => { r with behindGroups := none }
      expectClose start
      if ahead then return [.look none negated body]
      else
        let r ← get
        let width := bodyWidth r.groupWidth body
        if width.least ≠ width.most then
          modify fun r => { r with looseBehind := true }
        return [.look (some width.least) negated body]
    | .conditional index =>
      let yes ← readSequence false verbose fuel []
      let no ← if ← accept '|' then
          let no ← readSequence false verbose fuel []
          if (← get).token = ['|'] then
            refuse "conditional backref with more than two branches" 0
          pure no
        else pure []
      expectClose start
      return [.conditional index yes no]

end

/-- Reads a whole pattern. -/
def readPattern : Read Program := do
  seek 0
  let r ← get
  let body ← readChoice true r.flags.verbose (4 * r.source.text.size + 8) []
  let r ← get
  if !r.source.isBytes && r.flags.ascii && r.flags.unicode then throw .conflictingFlags
  if !r.token.isEmpty then refuse "unbalanced parenthesis" 0
  for (index, position) in r.conditions do
    if r.widths.size < index then
      throw (.malformed ("invalid group reference " ++ toString index) (some position))
  if r.looseBehind then
    throw (.malformed "look-behind requires fixed-width pattern" none)
  return ⟨body, r.flags, r.names⟩

/-- The program of a pattern under flags. -/
def compile (source : Source) (flags : Flags) : Except Refusal Program :=
  (readPattern.run
    { source, index := 0, token := [], flags, widths := #[], names := [], behindGroups := none,
      conditions := [], looseBehind := false }).map (·.1)

end Conform.Pattern
