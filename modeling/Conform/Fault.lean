/-
  Conform/Fault.lean
  ==================
  **Faults**: what stops an operation.  A fault is never a report on the value
  under validation, for which there are issues; it says that a schema is
  malformed, that a callable failed, or that an operation was applied to a
  value that does not support it.
-/
namespace Conform

/-- Why a schema is malformed. -/
inductive Malformed where
  /-- A schema was expected in a role, and something of another type was given. -/
  | notSchema (role given : String)
  /-- A callable was expected. -/
  | notCallable (schema role given : String)
  | notLength (schema given : String)
  | notText (schema given : String)
  | noBound (schema : String)
  | notDivisor (given : String)
  | pattern (given reason : String)
  | notMapping (given : String)
  | extraBehavior (given : String)
  | absentBehavior (given : String)
  | notSize (limit given : String)
  | tooFewMembers (schema : String) (count : Nat)
  | noValues
  | notEnumeration (given : String)
  | notObject (role given : String)
  | unknownKeys (role : String) (keys : List String)
deriving DecidableEq, Repr

/-- The text of a malformation. -/
def Malformed.message : Malformed → String
  | .notSchema role given => role ++ " must be a Schema, got " ++ given
  | .notCallable schema role given =>
    schema ++ " requires a callable " ++ role ++ ", got " ++ given
  | .notLength schema given => schema ++ " requires a non-negative integer, got " ++ given
  | .notText schema given => schema ++ " requires a string, got " ++ given
  | .noBound schema => schema ++ " requires a bound"
  | .notDivisor given => "MultipleOf requires a finite non-zero number, got " ++ given
  | .pattern given reason => "Invalid pattern " ++ given ++ ": " ++ reason
  | .notMapping given => "Object entries must be a Mapping, got " ++ given
  | .extraBehavior given => "Unsupported extra keys behavior: " ++ given
  | .absentBehavior given => "Unsupported absent keys behavior: " ++ given
  | .notSize limit given => limit ++ " must be a non-negative integer, got " ++ given
  | .tooFewMembers schema count =>
    schema ++ " requires at least two schemas, got " ++ toString count
  | .noValues => "Enum requires at least one value"
  | .notEnumeration given => "NativeEnum requires an Enum class, got " ++ given
  | .notObject role given => role ++ " requires an object schema, got " ++ given
  | .unknownKeys role keys => role ++ " got unknown keys: " ++ ", ".intercalate keys

/-- What stops an operation. -/
inductive Fault where
  | malformed (cause : Malformed)
  /-- A message is neither a text nor a callable. -/
  | messageType
  /-- A dataset is marked as failed without an issue. -/
  | failedWithoutIssues
  /-- An error is made without an issue. -/
  | noIssues
  /-- A name or a type has the wrong type. -/
  | wrongDeclaration
  /-- A callable gave up. -/
  | callable
  /-- A part of a schema must not be looked at. -/
  | guarded
  /-- Two values have no order. -/
  | unordered
  /-- A value cannot be a key or a member of a set. -/
  | unhashable
  | notIterable
  | notCallable
  /-- A callable or an operator does not take these arguments. -/
  | arguments
  /-- A schema was expected and none is there. -/
  | noResult
  /-- A value has the right type and is not acceptable. -/
  | badValue
  /-- The text of an integer has too many digits. -/
  | digitLimit
  /-- A text template is malformed, or a value does not take its format. -/
  | template
  | conflictingFlags
  | missingKey
  | undefinedSchema (name : String)
  | missingIndex
  | missingAttribute
  | readOnly
  | outOfRange
  /-- A signaling decimal takes part in an operation, or a decimal operation has no result. -/
  | decimal
  /-- A pattern that has been asked for, or the one behind a date format, is malformed. -/
  | badPattern
  /-- References between schemas lead nowhere within the bound that the input sets. -/
  | endless
deriving DecidableEq, Repr

/-- The kinds of faults that a caller can tell apart. -/
inductive FaultKind where
  | schema
  | assertion
  | runtime
  | type
  | value
  | key
  | index
  | attribute
  | overflow
  | decimal
  | pattern
  | recursion
deriving DecidableEq, Repr

/-- The kind of a fault. -/
def Fault.kind : Fault → FaultKind
  | .malformed _ => .schema
  | .messageType | .failedWithoutIssues | .noIssues | .wrongDeclaration => .assertion
  | .callable | .guarded => .runtime
  | .unordered | .unhashable | .notIterable | .notCallable | .arguments | .noResult => .type
  | .badValue | .digitLimit | .template | .conflictingFlags => .value
  | .missingKey | .undefinedSchema _ => .key
  | .missingIndex => .index
  | .missingAttribute | .readOnly => .attribute
  | .outOfRange => .overflow
  | .decimal => .decimal
  | .badPattern => .pattern
  | .endless => .recursion

/-- The text of a fault, for those that a caller is told about in words. -/
def Fault.message? : Fault → Option String
  | .malformed cause => some cause.message
  | .messageType => some "`message` must be a string or a callable"
  | .failedWithoutIssues => some "A failed dataset must have issues"
  | .noIssues => some "Issues list is empty"
  | .wrongDeclaration => some ""
  | .callable => some "boom"
  | .guarded => some "Cannot touch this"
  | .readOnly => some "Result is read-only"
  | _ => none

/-- The fault means that a value cannot be converted, when a conversion meets it. -/
def Fault.isConversion (f : Fault) : Bool :=
  match f.kind with
  | .type | .value | .overflow | .decimal => true
  | _ => false

end Conform
