/-
  Conform/Pattern/Match.lean
  ==========================
  **Matching** by backtracking.  A node is run with a continuation that
  receives each position it can end at, the preferred one first, until the
  continuation succeeds.

  A repetition goes on only from a position other than the one its last round
  began at, so it ends: the number of further rounds is bounded by the rounds
  still required and the characters still ahead.
-/
import Conform.Pattern.Basic
import Conform.Text.Case

namespace Conform.Pattern

open Text

/-! ### Single characters -/

/-- Groups of characters that differ in simple lower case and yet match without regard to case. -/
def caseFamilies : List (List Nat) :=
  [[0x69, 0x131], [0x73, 0x17F], [0xB5, 0x3BC], [0x345, 0x3B9, 0x1FBE], [0x390, 0x1FD3],
   [0x3B0, 0x1FE3], [0x3B2, 0x3D0], [0x3B5, 0x3F5], [0x3B8, 0x3D1], [0x3BA, 0x3F0],
   [0x3C0, 0x3D6], [0x3C1, 0x3F1], [0x3C2, 0x3C3], [0x3C6, 0x3D5], [0x432, 0x1C80],
   [0x434, 0x1C81], [0x43E, 0x1C82], [0x441, 0x1C83], [0x442, 0x1C84, 0x1C85],
   [0x44A, 0x1C86], [0x463, 0x1C87], [0x1C88, 0xA64B], [0x1E61, 0x1E9B], [0xFB05, 0xFB06]]

/-- The other members of a character's family. -/
def relatives (code : Nat) : List Nat :=
  match caseFamilies.find? (·.contains code) with
  | some family => family.filter (· != code)
  | none => []

/-- How letter case is disregarded: not at all, for ASCII, or for all letters. -/
inductive Folding where
  | exact
  | ascii
  | full
deriving DecidableEq, Repr

/-- The folding that flags ask for. -/
def Flags.folding (flags : Flags) : Folding :=
  if !flags.ignoreCase then .exact else if flags.ascii then .ascii else .full

/-- The representative of a character. -/
def Folding.fold : Folding → Nat → Nat
  | .exact, c => c
  | .ascii, c => if 65 ≤ c ∧ c ≤ 90 then c + 32 else c
  | .full, c => lowerCode c

/-- The character has other forms under the folding. -/
def Folding.moves : Folding → Nat → Bool
  | .exact, _ => false
  | .ascii, c => (65 ≤ c && c ≤ 90) || (97 ≤ c && c ≤ 122)
  | .full, c => hasCase c

/-- Some character of a range has other forms under the folding. -/
def Folding.movesRange : Folding → Nat → Nat → Bool
  | .exact, _, _ => false
  | .ascii, lo, hi => (lo ≤ 90 && 65 ≤ hi) || (lo ≤ 122 && 97 ≤ hi)
  | .full, lo, hi => rangeHasCase lo hi

/-- A character matches a literal one. -/
def matchesChar (flags : Flags) (literal c : Nat) : Bool :=
  let folding := flags.folding
  if !folding.moves literal then c == literal
  else
    let l := folding.fold literal
    let c := folding.fold c
    c == l || (folding == .full && (relatives l).contains c)

/-- A character belongs to a category. -/
def Category.holds (flags : Flags) (code : Nat) : Category → Bool
  | .digit =>
    if flags.ascii then 48 ≤ code && code ≤ 57 else isDecimal (Char.ofNat code)
  | .space =>
    if flags.ascii then code == 32 || (9 ≤ code && code ≤ 13) else isBlank (Char.ofNat code)
  | .word =>
    if flags.ascii then code < 128 && isWord (Char.ofNat code) else isWord (Char.ofNat code)

/-- Characters that are their own lower case or have it in a range: those of the range whose lower
case is `code`. -/
def rangeFoldsTo (folding : Folding) (lo hi code : Nat) : Bool :=
  let inRange (c : Nat) : Bool := lo ≤ c && c ≤ hi
  match folding with
  | .exact => inRange code
  | .ascii =>
    (inRange code && !(65 ≤ code && code ≤ 90)) || (97 ≤ code && code ≤ 122 && inRange (code - 32))
  | .full =>
    (inRange code && lowerCode code == code) || (sources toLowerRuns code).any inRange

/-- The last character of the basic plane: ranges beyond it are not folded member by member. -/
def basicPlane : Nat := 0xFFFF

/-- A folded character matches a member of a set under a folding. -/
def SetItem.holds (flags : Flags) (folding : Folding) (code : Nat) : SetItem → Bool
  | .char c =>
    let l := folding.fold c
    if folding != .exact && basicPlane < l then code == c
    else code == l || (folding == .full && (relatives l).contains code)
  | .range lo hi =>
    let top := min hi basicPlane
    rangeFoldsTo folding lo top code
      || (folding == .full && (relatives code).any (rangeFoldsTo folding lo top))
      || (basicPlane < hi && ((lo ≤ code && code ≤ hi)
        || (folding != .exact && lo ≤ mapCode toUpperRuns code && mapCode toUpperRuns code ≤ hi)))
  | .category kind negated => kind.holds flags code != negated

/-- A member of a set has other forms under the folding. -/
def SetItem.moves (folding : Folding) : SetItem → Bool
  | .char c => folding.moves c || (folding != .exact && basicPlane < folding.fold c)
  | .range lo hi => folding.movesRange lo hi || (folding != .exact && basicPlane < hi)
  | .category .. => false

/-- A character matches a set.  Only a set with a letter in it is matched without regard to case. -/
def matchesSet (flags : Flags) (items : List SetItem) (c : Nat) : Bool :=
  let folding := flags.folding
  let c := if items.any (·.moves folding) then folding.fold c else c
  items.any (·.holds flags folding c)

/-- A character matches a node that stands for single characters. -/
def Node.matchesUnit (flags : Flags) (c : Nat) : Node → Bool
  | .char literal => matchesChar flags literal c
  | .notChar literal => !matchesChar flags literal c
  | .any => flags.dotAll || c != 10
  | .set negated items => matchesSet flags items c != negated
  | _ => false

/-! ### Positions -/

/-- A word character at an index. -/
def wordAt (flags : Flags) (text : Array Char) (i : Nat) : Bool :=
  match text[i]? with
  | some c => Category.word.holds flags c.toNat
  | none => false

/-- The line break is at an index. -/
def breakAt (text : Array Char) (i : Nat) : Bool :=
  text[i]? == some '\n'

/-- A condition holds at a position.  In an empty text there is neither a word boundary nor a place
that is not one. -/
def Anchor.holds (flags : Flags) (text : Array Char) (i : Nat) : Anchor → Bool
  | .lineStart => i == 0 || (flags.multiline && breakAt text (i - 1))
  | .lineEnd =>
    i == text.size || (if flags.multiline then breakAt text i
      else i + 1 == text.size && breakAt text i)
  | .textStart => i == 0
  | .textEnd => i == text.size
  | .boundary =>
    text.size != 0 && ((i != 0 && wordAt flags text (i - 1)) != wordAt flags text i)
  | .notBoundary =>
    text.size != 0 && ((i != 0 && wordAt flags text (i - 1)) == wordAt flags text i)

/-! ### Running a pattern -/

/-- A position and the texts of the groups, by their ends. -/
structure Cursor where
  index : Nat
  groups : List (Nat × Nat × Nat)
deriving Repr

/-- The ends of a group's text. -/
def Cursor.group? (c : Cursor) (index : Nat) : Option (Nat × Nat) :=
  (c.groups.find? (·.1 == index)).map (·.2)

/-- The cursor with a group's text set. -/
def Cursor.capture (c : Cursor) (index start : Nat) : Cursor :=
  { c with groups := (index, start, c.index) :: c.groups.filter (·.1 != index) }

/-- What comes after a node: it receives a cursor and may refuse it. -/
abbrev Next := Cursor → Option Cursor

/-- Consumes one character. -/
def runUnit (text : Array Char) (accepts : Nat → Bool) (next : Next) (c : Cursor) : Option Cursor :=
  match text[c.index]? with
  | some x => if accepts x.toNat then next { c with index := c.index + 1 } else none
  | none => none

/-- How far single characters match from an index, at most `count`. -/
def unitRun (accepts : Nat → Bool) (text : Array Char) : Nat → Nat → Nat
  | 0, _ => 0
  | count + 1, i =>
    match text[i]? with
    | some c => if accepts c.toNat then unitRun accepts text count (i + 1) + 1 else 0
    | none => 0

/-- Tries `count`, …, `least` characters, the most first. -/
def tryMost (least : Nat) (c : Cursor) (next : Next) : Nat → Option Cursor
  | 0 => if least = 0 then next c else none
  | count + 1 =>
    if count + 1 < least then none
    else match next { c with index := c.index + (count + 1) } with
      | some r => some r
      | none => tryMost least c next count

/-- Tries `from_`, … characters, the least first, `steps` of them. -/
def tryLeast (c : Cursor) (next : Next) : Nat → Nat → Option Cursor
  | 0, _ => none
  | steps + 1, from_ =>
    match next { c with index := c.index + from_ } with
    | some r => some r
    | none => tryLeast c next steps (from_ + 1)

/-- Repeats a body, preferring more rounds.  `done` rounds are over, the last of which began at
`last`; at most `steps` further ones are tried. -/
def repeatMost (body : Next → Next) (next : Next) (min : Nat) (max : Option Nat) :
    Nat → Nat → Option Nat → Next
  | 0, _, _, c => next c
  | steps + 1, done, last, c =>
    if done < min then
      body (repeatMost body next min max steps (done + 1) last) c
    else if (match max with | some m => done < m | none => true) && last != some c.index then
      match body (repeatMost body next min max steps (done + 1) (some c.index)) c with
      | some r => some r
      | none => next c
    else next c

/-- Repeats a body, preferring fewer rounds. -/
def repeatLeast (body : Next → Next) (next : Next) (min : Nat) (max : Option Nat) :
    Nat → Nat → Option Nat → Next
  | 0, _, _, c => next c
  | steps + 1, done, last, c =>
    if done < min then
      body (repeatLeast body next min max steps (done + 1) last) c
    else match next c with
      | some r => some r
      | none =>
        if (match max with | some m => done < m | none => true) && last != some c.index then
          body (repeatLeast body next min max steps (done + 1) (some c.index)) c
        else none

/-- The text of a group occurs at an index. -/
def occursAt (flags : Flags) (text : Array Char) (start stop i : Nat) : Bool :=
  (List.range (stop - start)).all fun k =>
    match text[start + k]?, text[i + k]? with
    | some a, some b => flags.folding.fold a.toNat == flags.folding.fold b.toNat
    | _, _ => false

mutual

/-- Runs a node. -/
def Node.run (text : Array Char) (flags : Flags) : Node → Next → Next
  | .char literal, next, c => runUnit text (matchesChar flags literal) next c
  | .notChar literal, next, c => runUnit text (fun x => !matchesChar flags literal x) next c
  | .any, next, c => runUnit text (fun x => flags.dotAll || x != 10) next c
  | .set negated items, next, c =>
    runUnit text (fun x => matchesSet flags items x != negated) next c
  | .anchor kind, next, c => if kind.holds flags text c.index then next c else none
  | .group index added removed body, next, c =>
    runBody text (flags.adjust added removed) body
      (fun r => match index with
        | some index => next (r.capture index c.index)
        | none => next r) c
  | .alternatives branches, next, c => runBranches text flags branches next c
  | .repeated greed min max body, next, c =>
    let left := text.size - c.index
    let steps := min + left + 2
    match greed, body with
    | .most, [node] =>
      if node.isUnit then
        let limit := match max with | some m => Nat.min m left | none => left
        let most := unitRun (node.matchesUnit flags ·) text limit c.index
        if most < min then none else tryMost min c next most
      else repeatMost (Node.run text flags node) next min max steps 0 none c
    | .least, [node] =>
      if node.isUnit then
        let limit := match max with | some m => Nat.min m left | none => left
        let most := unitRun (node.matchesUnit flags ·) text limit c.index
        if most < min then none else tryLeast c next (most - min + 1) min
      else repeatLeast (Node.run text flags node) next min max steps 0 none c
    | .most, body => repeatMost (runBody text flags body) next min max steps 0 none c
    | .least, body => repeatLeast (runBody text flags body) next min max steps 0 none c
    | .possessive, body =>
      match repeatMost (runBody text flags body) some min max steps 0 none c with
      | some r => next r
      | none => none
  | .backreference index, next, c =>
    match c.group? index with
    | some (start, stop) =>
      if occursAt flags text start stop c.index then
        next { c with index := c.index + (stop - start) }
      else none
    | none => none
  | .conditional index yes no, next, c =>
    if (c.group? index).isSome then runBody text flags yes next c
    else runBody text flags no next c
  | .look width negated body, next, c =>
    let back := width.getD 0
    let found :=
      if c.index < back then none
      else runBody text flags body some { c with index := c.index - back }
    match found, negated with
    | some r, false => next { r with index := c.index }
    | none, true => next c
    | _, _ => none
  | .atomic body, next, c =>
    match runBody text flags body some c with
    | some r => next r
    | none => none

/-- Runs a sequence. -/
def runBody (text : Array Char) (flags : Flags) : List Node → Next → Next
  | [], next, c => next c
  | node :: rest, next, c => Node.run text flags node (runBody text flags rest next) c

/-- Runs the branches of a choice in order. -/
def runBranches (text : Array Char) (flags : Flags) : List (List Node) → Next → Next
  | [], _, _ => none
  | body :: rest, next, c =>
    match runBody text flags body next c with
    | some r => some r
    | none => runBranches text flags rest next c

end

/-- The pattern at an index of a text. -/
def Program.matchAt (p : Program) (text : Array Char) (index : Nat) : Option Cursor :=
  runBody text p.flags p.body some ⟨index, []⟩

/-- The texts of the named groups in the order of the groups. -/
def Program.named (p : Program) (text : Array Char) (c : Cursor) : List (List Char × List Char) :=
  p.names.reverse.filterMap fun (name, index) =>
    (c.group? index).map fun (start, stop) => (name, (text.extract start stop).toList)

/-- The first place of a text, from an index on, where the pattern matches. -/
def Program.searchFrom (p : Program) (text : Array Char) : Nat → Nat → Option Cursor
  | 0, _ => none
  | steps + 1, index =>
    match p.matchAt text index with
    | some r => some r
    | none => p.searchFrom text steps (index + 1)

/-- The pattern occurs somewhere in the text. -/
def Program.occursIn (p : Program) (text : List Char) : Bool :=
  (p.searchFrom text.toArray (text.length + 1) 0).isSome

end Conform.Pattern
