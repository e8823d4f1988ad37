/-
  Conform/Value/Basic.lean
  ========================
  **Values**: the data that schemas are run on.  A value is a scalar or a
  container of values.

  Two things are told apart that equality does not see.  A value may be *the
  same object* as another (`Value.same`), which decides whether a validated
  value counts as replaced; every object that an operation makes anew is
  `fresh` and the same as no other.  And a value of a base type may be of a
  type *derived* from it, which behaves alike but is another type.
-/
import Conform.Number.Decimal
import Conform.Calendar.Basic
import Conform.Pattern.Basic

namespace Conform

open Calendar (Date Time DateTime Duration)

/-- Which object a value is. -/
inductive Identity where
  /-- Made by an operation, and held in one place only. -/
  | fresh
  /-- One of the numbered objects that came from outside. -/
  | given (index : Nat)
  /-- The one object of its value. -/
  | shared
deriving DecidableEq, Repr, Inhabited

/-- Of a base type, or of a type derived from it without additions. -/
inductive Flavor where
  | base
  | derived
deriving DecidableEq, Repr, Inhabited

/-- The value behind a member of an enumeration. -/
inductive EnumValue where
  | null
  | int (n : Int)
  | float (x : Binary64)
  | text (s : String)
deriving DecidableEq, Repr

/-- An enumeration: its members in order, and other names of members. -/
structure Enumeration where
  name : String
  /-- Members are integers themselves. -/
  numeric : Bool
  members : List (String × EnumValue)
  aliases : List (String × String)
deriving DecidableEq, Repr

/-- A member of an enumeration. -/
structure EnumMember where
  enumeration : Enumeration
  name : String
  value : EnumValue
deriving DecidableEq, Repr

/-- What an object answers when it is asked for its text, number or truth. -/
inductive Response (α : Type) where
  | gives (a : α)
  /-- The object has no acceptable answer. -/
  | refuses
  /-- Asking fails as a failing callable does. -/
  | fails
  /-- The object does not know the question. -/
  | unsupported
deriving DecidableEq, Repr

/-- A class of objects without contents. -/
structure ObjectClass where
  name : String
  text : Response String
  number : Response Binary64
  truth : Response Bool
  size : Option Nat
deriving DecidableEq, Repr

/-- A type of values. -/
inductive ValueType where
  | null | undefined | bool | int | float | complex | decimal | str | bytes | byteArray
  | tuple | list | set | frozenSet | dict | orderedDict | mappingView
  | date | time | dateTime | duration | sentinel | regex | type | enumType | base
  | derivedInt | derivedFloat | derivedStr | derivedList
  | enumeration (e : Enumeration)
  | object (c : ObjectClass)
  | callable (name : String)
deriving DecidableEq, Repr

/-- A function that a value may be, described by what can be seen of it without calling it. -/
structure Callable where
  /-- By which it is known to those who call it. -/
  key : String
  /-- A name that it carries for display. -/
  displayName : Option String
  /-- The name that it was defined under. -/
  functionName : Option String
  /-- Its text. -/
  text : String
  /-- Its quoted text. -/
  quoted : String
  typeName : String
deriving DecidableEq, Repr

/-- A regular expression as a value. -/
structure Regex where
  source : String
  /-- For a pattern of bytes, those bytes. -/
  bytes : Option (List UInt8)
  flags : Pattern.Flags
deriving DecidableEq, Repr

/-- A value without parts. -/
inductive Scalar where
  | null
  | undefined
  | bool (b : Bool)
  | int (flavor : Flavor) (n : Int)
  | float (flavor : Flavor) (x : Binary64)
  | complex (re im : Binary64)
  | decimal (d : Decimal)
  | str (flavor : Flavor) (s : String)
  | bytes (data : List UInt8)
  | byteArray (data : List UInt8)
  | date (d : Date)
  | time (t : Time)
  | dateTime (d : DateTime)
  | duration (d : Duration)
  | member (m : EnumMember)
  | sentinel (key name : String)
  | object (c : ObjectClass)
  | regex (r : Regex)
  | callable (c : Callable)
  | type (t : ValueType)
deriving DecidableEq, Repr

/-- How a mapping is kept: as a plain one, as one whose order counts in comparisons, or as a view
that cannot be changed. -/
inductive MappingKind where
  | plain
  | ordered
  | view
deriving DecidableEq, Repr

/-- A value. Sets and mappings list their contents in order of insertion. -/
inductive Value where
  | scalar (id : Identity) (s : Scalar)
  | list (id : Identity) (flavor : Flavor) (items : List Value)
  | tuple (id : Identity) (items : List Value)
  | set (id : Identity) (frozen : Bool) (items : List Value)
  | mapping (id : Identity) (kind : MappingKind) (entries : List (Value × Value))
deriving Repr, Inhabited

namespace Value

/-! ### Common values -/

def null : Value := .scalar .shared .null

/-- No value was provided. -/
def undefined : Value := .scalar .shared .undefined

def bool (b : Bool) : Value := .scalar .shared (.bool b)

/-- An integer; integers of one value are one object. -/
def int (n : Int) : Value := .scalar .shared (.int .base n)

/-- A double made by an operation. -/
def float (x : Binary64) : Value := .scalar .fresh (.float .base x)

/-- A text made by an operation; the empty text is one object. -/
def str (s : String) : Value := .scalar (if s.isEmpty then .shared else .fresh) (.str .base s)

def dateTime (d : DateTime) : Value := .scalar .fresh (.dateTime d)

/-- A list made by an operation. -/
def ofList (items : List Value) : Value := .list .fresh .base items

/-- A tuple made by an operation; the empty tuple is one object. -/
def ofTuple (items : List Value) : Value := .tuple (if items.isEmpty then .shared else .fresh) items

/-- A set made by an operation; the empty immutable set is one object. -/
def ofSet (frozen : Bool) (items : List Value) : Value :=
  .set (if frozen && items.isEmpty then .shared else .fresh) frozen items

/-- A plain mapping made by an operation. -/
def ofMapping (entries : List (Value × Value)) : Value := .mapping .fresh .plain entries

/-- No value was provided. -/
def isUndefined : Value → Bool
  | .scalar _ .undefined => true
  | _ => false

def isNull : Value → Bool
  | .scalar _ .null => true
  | _ => false

/-! ### Types -/

end Value

/-- The type of a scalar. -/
def Scalar.typeOf : Scalar → ValueType
  | .null => .null
  | .undefined => .undefined
  | .bool _ => .bool
  | .int .base _ => .int
  | .int .derived _ => .derivedInt
  | .float .base _ => .float
  | .float .derived _ => .derivedFloat
  | .complex .. => .complex
  | .decimal _ => .decimal
  | .str .base _ => .str
  | .str .derived _ => .derivedStr
  | .bytes _ => .bytes
  | .byteArray _ => .byteArray
  | .date _ => .date
  | .time _ => .time
  | .dateTime _ => .dateTime
  | .duration _ => .duration
  | .member m => .enumeration m.enumeration
  | .sentinel .. => .sentinel
  | .object c => .object c
  | .regex _ => .regex
  | .callable c => .callable c.typeName
  | .type (.enumeration _) => .enumType
  | .type _ => .type

namespace Value

/-- The type of a value. -/
def typeOf : Value → ValueType
  | .scalar _ s => s.typeOf
  | .list _ .base _ => .list
  | .list _ .derived _ => .derivedList
  | .tuple .. => .tuple
  | .set _ false _ => .set
  | .set _ true _ => .frozenSet
  | .mapping _ .plain _ => .dict
  | .mapping _ .ordered _ => .orderedDict
  | .mapping _ .view _ => .mappingView

/-- The integer that a value is, truth values apart. -/
def toInt? : Value → Option Int
  | .scalar _ (.int _ n) => some n
  | .scalar _ (.member m) => if m.enumeration.numeric then
      match m.value with
      | .int n => some n
      | _ => none
    else none
  | _ => none

/-- The double that a value is. -/
def toFloat? : Value → Option Binary64
  | .scalar _ (.float _ x) => some x
  | _ => none

/-- The text that a value is. -/
def toStr? : Value → Option String
  | .scalar _ (.str _ s) => some s
  | _ => none

/-- The moment that a value is. -/
def toDateTime? : Value → Option DateTime
  | .scalar _ (.dateTime d) => some d
  | _ => none

/-- A truth value. -/
def isBool : Value → Bool
  | .scalar _ (.bool _) => true
  | _ => false

/-- An integer of any size, truth values apart. -/
def isBigInt (v : Value) : Bool := v.toInt?.isSome

/-- An integer or a double, truth values and "not a number" apart. -/
def isNumber (v : Value) : Bool :=
  v.isBigInt || match v.toFloat? with
    | some x => !x.isNaN
    | none => false

/-- The entries of a mapping. -/
def entries? : Value → Option (List (Value × Value))
  | .mapping _ _ entries => some entries
  | _ => none

def isMapping (v : Value) : Bool := v.entries?.isSome

/-- A function, or a type, which makes values when called. -/
def isCallable : Value → Bool
  | .scalar _ (.callable _) => true
  | .scalar _ (.type _) => true
  | _ => false

/-- The number of parts of a value that has a length. -/
def size? : Value → Option Nat
  | .scalar _ (.str _ s) => some s.length
  | .scalar _ (.bytes b) => some b.length
  | .scalar _ (.byteArray b) => some b.length
  | .scalar _ (.object c) => c.size
  | .scalar _ (.type (.enumeration e)) => some e.members.length
  | .scalar .. => none
  | .list _ _ items => some items.length
  | .tuple _ items => some items.length
  | .set _ _ items => some items.length
  | .mapping _ _ entries => some entries.length

/-! ### Being the same object -/

/-- Which object a value is. -/
def identity : Value → Identity
  | .scalar id _ => id
  | .list id .. => id
  | .tuple id _ => id
  | .set id .. => id
  | .mapping id .. => id

/-- The value of a shared object, as far as there are shared objects of its kind. -/
def sharedWith : Value → Value → Bool
  | .scalar _ a, .scalar _ b => a == b
  | .tuple _ [], .tuple _ [] => true
  | .set _ true [], .set _ true [] => true
  | _, _ => false

/-- Two values are the same object. -/
def same (a b : Value) : Bool :=
  match a.identity, b.identity with
  | .given i, .given j => i == j
  | .shared, .shared => a.sharedWith b
  | _, _ => false

end Value

/-- The value behind a member. -/
def EnumValue.toValue : EnumValue → Value
  | .null => Value.null
  | .int n => .int n
  | .float x => .float x
  | .text s => .scalar .shared (.str .base s)

/-- The members of an enumeration. -/
def Enumeration.memberList (e : Enumeration) : List EnumMember :=
  e.members.map fun (name, value) => ⟨e, name, value⟩

/-- The member with a name or another name. -/
def Enumeration.member? (e : Enumeration) (name : String) : Option EnumMember :=
  let name := match e.aliases.find? (·.1 == name) with
    | some (_, name) => name
    | none => name
  e.memberList.find? (·.name == name)

end Conform
