/-
  Conform/TypeName.lean
  =====================
  **Names of types** as they are shown to readers.  A name may be registered for
  a type; the latest one counts.
-/
import Conform.Value.Text

namespace Conform

/-- The name of a type for readers, unless one is registered. -/
def ValueType.readerName : ValueType → String
  | .null => "None"
  | .undefined => "undefined"
  | .sentinel => "sentinel"
  | .enumeration _ => "Enum"
  | .orderedDict | .mappingView => "Mapping"
  | t => t.name

/-- Names registered for types, the latest first. -/
abbrev TypeNames := List (ValueType × String)

namespace TypeNames

/-- Registers a name for a type. -/
def register (names : TypeNames) (type name : Value) : Except Fault TypeNames :=
  match type, name.toStr? with
  | .scalar _ (.type t), some s => .ok ((t, s) :: names)
  | _, _ => .error .wrongDeclaration

/-- The name of a type. -/
def nameOf (names : TypeNames) (t : ValueType) : String :=
  (names.lookup t).getD t.readerName

/-- What was found, for a value: the name of its type.  A double that is not a number is told apart
from other doubles. -/
def received (names : TypeNames) (v : Value) : String :=
  match v with
  | .scalar _ (.float .base .nan) => "NaN"
  | v => names.nameOf v.typeOf

end TypeNames

end Conform
