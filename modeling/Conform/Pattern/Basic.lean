/-
  Conform/Pattern/Basic.lean
  ==========================
  **Regular expressions** as trees.  A pattern is a sequence of nodes; groups
  are numbered from one in the order of their opening brackets.
-/
namespace Conform.Pattern

/-- What a pattern, or a part of it, is matched under. -/
structure Flags where
  ignoreCase : Bool
  multiline : Bool
  dotAll : Bool
  verbose : Bool
  /-- Classes and letter case as far as ASCII goes. -/
  ascii : Bool
  /-- Asked for by name; the default unless `ascii` is on. -/
  unicode : Bool
deriving DecidableEq, Repr, Inhabited

/-- No flag. -/
def Flags.none : Flags := ⟨false, false, false, false, false, false⟩

/-- The flags of either. -/
def Flags.union (a b : Flags) : Flags :=
  ⟨a.ignoreCase || b.ignoreCase, a.multiline || b.multiline, a.dotAll || b.dotAll,
    a.verbose || b.verbose, a.ascii || b.ascii, a.unicode || b.unicode⟩

/-- The flags of both. -/
def Flags.inter (a b : Flags) : Flags :=
  ⟨a.ignoreCase && b.ignoreCase, a.multiline && b.multiline, a.dotAll && b.dotAll,
    a.verbose && b.verbose, a.ascii && b.ascii, a.unicode && b.unicode⟩

/-- The flags of the first that are not in the second. -/
def Flags.diff (a b : Flags) : Flags :=
  ⟨a.ignoreCase && !b.ignoreCase, a.multiline && !b.multiline, a.dotAll && !b.dotAll,
    a.verbose && !b.verbose, a.ascii && !b.ascii, a.unicode && !b.unicode⟩

/-- The flags that a group is matched under: a choice of classes replaces the one before. -/
def Flags.adjust (flags added removed : Flags) : Flags :=
  let flags := if added.ascii || added.unicode then { flags with ascii := false, unicode := false }
    else flags
  (flags.union added).diff removed

/-- A class of characters with a name of its own. -/
inductive Category where
  | digit
  | space
  | word
deriving DecidableEq, Repr

/-- A member of a character set. -/
inductive SetItem where
  | char (code : Nat)
  | range (lo hi : Nat)
  | category (kind : Category) (negated : Bool)
deriving DecidableEq, Repr

/-- A condition on a position. -/
inductive Anchor where
  | lineStart
  | lineEnd
  | textStart
  | textEnd
  | boundary
  | notBoundary
deriving DecidableEq, Repr

/-- How a repetition chooses its count: the most it can, the least, or the most without giving any
back. -/
inductive Greed where
  | most
  | least
  | possessive
deriving DecidableEq, Repr

/-- A part of a pattern. -/
inductive Node where
  | char (code : Nat)
  | notChar (code : Nat)
  | any
  | set (negated : Bool) (items : List SetItem)
  | anchor (kind : Anchor)
  | group (index : Option Nat) (added removed : Flags) (body : List Node)
  | alternatives (branches : List (List Node))
  | repeated (greed : Greed) (min : Nat) (max : Option Nat) (body : List Node)
  | backreference (index : Nat)
  | conditional (index : Nat) (yes no : List Node)
  /-- Text that has to follow (`width` none) or to precede with that width, or must not. -/
  | look (width : Option Nat) (negated : Bool) (body : List Node)
  | atomic (body : List Node)
deriving Repr

/-- Two nodes that hold no other nodes are the same. -/
def Node.sameLeaf : Node → Node → Bool
  | .char a, .char b => a == b
  | .notChar a, .notChar b => a == b
  | .any, .any => true
  | .set n a, .set m b => n == m && a == b
  | .anchor a, .anchor b => a == b
  | .backreference a, .backreference b => a == b
  | _, _ => false

/-- A single character is matched, whichever it is. -/
def Node.isUnit : Node → Bool
  | .char _ | .notChar _ | .any | .set .. => true
  | _ => false

/-- The largest width that is kept apart from "unbounded", `2 ^ 64`. -/
def maxWidth : Nat := 18446744073709551616

/-- The least and the greatest number of characters that a part matches. -/
structure Width where
  least : Nat
  most : Nat
deriving DecidableEq, Repr, Inhabited

mutual

/-- The width of a node, given those of the groups. -/
def Node.width (groups : Nat → Width) : Node → Width
  | .char _ | .notChar _ | .any | .set .. => ⟨1, 1⟩
  | .anchor _ | .look .. => ⟨0, 0⟩
  | .group _ _ _ body => bodyWidth groups body
  | .atomic body => bodyWidth groups body
  | .alternatives branches => branchesWidth groups branches
  | .repeated _ min max body =>
    let w := bodyWidth groups body
    ⟨w.least * min, match max with
      | none => if w.most = 0 then 0 else maxWidth
      | some max => w.most * max⟩
  | .backreference index => groups index
  | .conditional _ yes no =>
    let a := bodyWidth groups yes
    let b := bodyWidth groups no
    ⟨min a.least b.least, max a.most b.most⟩

/-- The width of a sequence. -/
def bodyWidth (groups : Nat → Width) : List Node → Width
  | [] => ⟨0, 0⟩
  | node :: rest =>
    let a := node.width groups
    let b := bodyWidth groups rest
    ⟨min (a.least + b.least) maxWidth, min (a.most + b.most) maxWidth⟩

/-- The width of a choice. -/
def branchesWidth (groups : Nat → Width) : List (List Node) → Width
  | [] => ⟨maxWidth, 0⟩
  | body :: rest =>
    let a := bodyWidth groups body
    let b := branchesWidth groups rest
    ⟨min a.least b.least, max a.most b.most⟩

end

/-- A pattern ready to be searched for. -/
structure Program where
  body : List Node
  flags : Flags
  /-- The names of groups, the last one opened first. -/
  names : List (List Char × Nat)
deriving Repr

end Conform.Pattern
