/-
  Conform/Schema/Named.lean
  =========================
  **Kinds of schemas by name.**  The name of a kind finds the type, target,
  wrapper or constraint that it stands for.
-/
import Conform.Schema.Build

namespace Conform

/-- The type that a kind of schema checks for. -/
def Primitive.named? (name : String) : Option Primitive :=
  [ Primitive.string, .number, .integer, .boolean, .bigInt, .date, .symbol, .null, .undefined,
    .void ].find? (·.className == name)

/-- The target that a kind of schema converts to, given the formats for moments. -/
def Target.named? (name : String) (formats : List String) : Option Target :=
  [Target.string, .number, .boolean, .bigInt, .date formats].find? (·.className == name)

/-- The kind of object schema. -/
def ObjectKind.named? (name : String) : Option ObjectKind :=
  [ObjectKind.plain, .strict, .loose, .guarded].find? (·.className == name)

/-- The wrapper that has no parameter. -/
def Wrapping.named? (name : String) : Option Wrapping :=
  [Wrapping.optional, .nullable, .nullish, .readonly].find? (·.className == name)

/-- The constraint that has no parameter. -/
def Check.named? (name : String) : Option Check :=
  [Check.lowercase, .uppercase, .email, .uuid, .positive, .negative].find? (·.className == name)

/-- The constraint with a parameter. -/
def Check.ofParameter? (name : String) (parameter : Value) : Option (Except Fault Check) :=
  match name with
  | "MinLength" => some (Schema.sizeCheck .atLeast parameter)
  | "MaxLength" => some (Schema.sizeCheck .atMost parameter)
  | "Length" => some (Schema.sizeCheck .exactly parameter)
  | "Regex" => some (Schema.patternCheck parameter)
  | "Includes" => some (Schema.substringCheck .anywhere parameter)
  | "StartsWith" => some (Schema.substringCheck .atStart parameter)
  | "EndsWith" => some (Schema.substringCheck .atEnd parameter)
  | "MinValue" => some (Schema.orderCheck .ge parameter)
  | "MaxValue" => some (Schema.orderCheck .le parameter)
  | "GreaterThan" => some (Schema.orderCheck .gt parameter)
  | "LessThan" => some (Schema.orderCheck .lt parameter)
  | "MultipleOf" => some (Schema.multipleOfCheck parameter)
  | "Refine" => some (Schema.refineCheck parameter)
  | _ => none

end Conform
