/-
  Conform/Schema/Text.lean
  ========================
  **The texts of schemas**: the type by which its issues are known, the
  description of what it expects, and the quoted text, which shows how it was
  built.
-/
import Conform.Schema.Basic
import Conform.Value.Text

namespace Conform

/-! ### Types and kinds -/

/-- The type under which issues are reported. -/
def Primitive.type : Primitive → String
  | .string => "string"
  | .number => "number"
  | .integer => "integer"
  | .boolean => "boolean"
  | .bigInt => "bigint"
  | .date => "date"
  | .symbol => "symbol"
  | .null => "null"
  | .undefined => "undefined"
  | .void => "void"

/-- The values that are expected. -/
def Primitive.expects : Primitive → String
  | .string => "str"
  | .number => "number"
  | .integer | .bigInt => "int"
  | .boolean => "bool"
  | .date => "datetime"
  | .symbol => "sentinel"
  | .null => "None"
  | .undefined | .void => "undefined"

/-- The name of the kind of schema. -/
def Primitive.className : Primitive → String
  | .string => "String"
  | .number => "Number"
  | .integer => "Integer"
  | .boolean => "Boolean"
  | .bigInt => "BigInt"
  | .date => "Date"
  | .symbol => "Symbol"
  | .null => "Null"
  | .undefined => "Undefined"
  | .void => "Void"

/-- The type under which issues are reported. -/
def Target.type : Target → String
  | .string => "string"
  | .number => "number"
  | .boolean => "boolean"
  | .bigInt => "bigint"
  | .date _ => "date"

/-- The values that are expected. -/
def Target.expects : Target → String
  | .string => "str"
  | .number => "number"
  | .boolean => "bool"
  | .bigInt => "int"
  | .date _ => "datetime"

/-- The name of the kind of schema. -/
def Target.className : Target → String
  | .string => "CoerceString"
  | .number => "CoerceNumber"
  | .boolean => "CoerceBoolean"
  | .bigInt => "CoerceBigInt"
  | .date _ => "CoerceDate"

/-- The key of the message for a value that cannot be converted. -/
def Target.messageKey (t : Target) (v : Value) : String :=
  match t with
  | .string => "coerce_string"
  | .number => "coerce_number"
  | .boolean => "boolean"
  | .bigInt =>
    if v.isNull then "coerce_none_bigint"
    else if v.isUndefined then "coerce_undefined_bigint" else "coerce_bigint"
  | .date _ =>
    if v.isNull then "coerce_none_date"
    else if v.isUndefined then "coerce_undefined_date" else "coerce_date"

/-- The type under which issues are reported. -/
def Check.type : Check → String
  | .size .atLeast .. => "min_length"
  | .size .atMost .. => "max_length"
  | .size .exactly .. => "length"
  | .pattern .. => "regex"
  | .substring .anywhere .. => "includes"
  | .substring .atStart .. => "starts_with"
  | .substring .atEnd .. => "ends_with"
  | .lowercase => "lowercase"
  | .uppercase => "uppercase"
  | .email => "email"
  | .uuid => "uuid"
  | .url _ => "url"
  | .order .ge _ => "min_value"
  | .order .le _ => "max_value"
  | .order .gt _ => "greater_than"
  | .order .lt _ => "less_than"
  | .multipleOf _ => "multiple_of"
  | .positive => "positive"
  | .negative => "negative"
  | .refine _ => "refine"

/-- The name of the kind of schema. -/
def Check.className : Check → String
  | .size .atLeast .. => "MinLength"
  | .size .atMost .. => "MaxLength"
  | .size .exactly .. => "Length"
  | .pattern .. => "Regex"
  | .substring .anywhere .. => "Includes"
  | .substring .atStart .. => "StartsWith"
  | .substring .atEnd .. => "EndsWith"
  | .lowercase => "Lowercase"
  | .uppercase => "Uppercase"
  | .email => "Email"
  | .uuid => "Uuid"
  | .url _ => "Url"
  | .order .ge _ => "MinValue"
  | .order .le _ => "MaxValue"
  | .order .gt _ => "GreaterThan"
  | .order .lt _ => "LessThan"
  | .multipleOf _ => "MultipleOf"
  | .positive => "Positive"
  | .negative => "Negative"
  | .refine _ => "Refine"

/-- The parameter of a constraint, or nothing. -/
def Check.requirement : Check → Value
  | .size _ _ r | .substring _ _ r | .order _ r | .multipleOf r | .refine r => r
  | .pattern regex _ => .scalar .shared (.regex regex)
  | _ => .null

/-- The name of a constraint: its type and its parameter. -/
def Check.name (c : Check) : Except Fault String :=
  match c with
  | .pattern regex _ => .ok (c.type ++ "(" ++ regex.quotedSource ++ ")")
  | .refine predicate => predicate.callableText.map fun s => c.type ++ "(" ++ s ++ ")"
  | c =>
    if c.requirement.isNull then .ok c.type
    else c.requirement.quoted.map fun s => c.type ++ "(" ++ s ++ ")"

/-- The name of the kind of schema. -/
def ObjectKind.className : ObjectKind → String
  | .plain => "Object"
  | .strict => "StrictObject"
  | .loose => "LooseObject"
  | .guarded => "WeirdObject"

/-- How a kind of object schema treats keys that are not declared, unless told. -/
def ObjectKind.extra : ObjectKind → Extra
  | .plain | .guarded => .strip
  | .strict => .strict
  | .loose => .loose

/-- The word for a behavior. -/
def Extra.text : Extra → String
  | .strip => "strip"
  | .loose => "loose"
  | .strict => "strict"

/-- The word for a behavior. -/
def Absent.text : Absent → String
  | .validate => "validate"
  | .skip => "skip"
  | .reject => "reject"

/-- The type of a wrapper. -/
def Wrapping.type : Wrapping → String
  | .optional => "optional"
  | .nullable => "nullable"
  | .nullish => "nullish"
  | .readonly => "readonly"
  | .default _ => "default"

/-- The name of the kind of schema. -/
def Wrapping.className : Wrapping → String
  | .optional => "Optional"
  | .nullable => "Nullable"
  | .nullish => "Nullish"
  | .readonly => "Readonly"
  | .default _ => "Default"

/-- What is expected, given what the wrapped schema expects. -/
def Wrapping.expects (w : Wrapping) (inner : String) : String :=
  match w with
  | .optional => inner ++ "?"
  | .nullable => inner ++ " | None"
  | .nullish => inner ++ "? | None"
  | .readonly | .default _ => inner

namespace Schema

/-- The type under which the schema reports issues. -/
def type : Schema → String
  | .primitive _ t => t.type
  | .anything _ unknown => if unknown then "unknown" else "any"
  | .never _ => "never"
  | .coerce _ t => t.type
  | .literal .. => "literal"
  | .enum _ keys _ _ => if keys then "keyof" else "enum"
  | .nativeEnum .. => "native_enum"
  | .constraint _ check _ _ _ => check.type
  | .wrapper _ w _ => w.type
  | .overwrite .. => "overwrite"
  | .lazy .. => "lazy"
  | .object .. => "object"
  | .array .. => "array"
  | .set .. => "set"
  | .tuple .. => "tuple"
  | .map .. => "map"
  | .record .. => "record"
  | .union .. => "union"
  | .intersection .. => "intersection"

/-- The name of the kind of schema. -/
def className : Schema → String
  | .primitive _ t => t.className
  | .anything _ unknown => if unknown then "Unknown" else "AnyValue"
  | .never _ => "Never"
  | .coerce _ t => t.className
  | .literal .. => "Literal"
  | .enum _ keys _ _ => if keys then "KeyOf" else "Enum"
  | .nativeEnum .. => "NativeEnum"
  | .constraint _ check _ _ _ => check.className
  | .wrapper _ w _ => w.className
  | .overwrite .. => "Overwrite"
  | .lazy .. => "Lazy"
  | .object _ _ kind _ _ _ => kind.className
  | .array .. => "Array"
  | .set .. => "Set"
  | .tuple .. => "Tuple"
  | .map .. => "Map"
  | .record .. => "Record"
  | .union .. => "Union"
  | .intersection .. => "Intersection"

end Schema

/-- The name of the type of what is given. -/
def Given.typeName : Given → String
  | .schema s => s.className
  | .value v => v.typeOf.name

namespace Schema

/-! ### What is expected -/

/-- The members of an enumeration, by name. -/
def memberNames (e : Enumeration) : String :=
  Value.commas (e.members.map fun m => e.name ++ "." ++ m.1)

mutual

/-- What a schema expects. -/
def expects : Schema → String
  | .primitive _ t => t.expects
  | .anything _ unknown => if unknown then "unknown" else "any"
  | .never _ => "never"
  | .coerce _ t => t.expects
  | .literal _ _ expects => expects
  | .enum _ _ _ expects => expects
  | .nativeEnum _ e => memberNames e
  | .constraint _ _ _ _ inner => inner.expects
  | .wrapper _ w inner => w.expects inner.expects
  | .overwrite _ _ inner => inner.expects
  | .lazy .. => "lazy"
  | .object .. => "Mapping"
  | .array _ _ item => "list[" ++ item.expects ++ "]"
  | .set _ _ item => "set[" ++ item.expects ++ "]"
  | .tuple _ items rest =>
    let tail := match rest with
      | some r => ", *" ++ r.expects
      | none => ""
    "tuple[" ++ Value.commas (expectsAll items) ++ tail ++ "]"
  | .map _ _ key value => "Mapping[" ++ key.expects ++ ", " ++ value.expects ++ "]"
  | .record _ key value => "dict[" ++ key.expects ++ ", " ++ value.expects ++ "]"
  | .union _ members => " | ".intercalate (expectsAll members)
  | .intersection _ members => " & ".intercalate (expectsAll members)
termination_by structural s => s

/-- What schemas expect. -/
def expectsAll : List Schema → List String
  | [] => []
  | s :: rest => s.expects :: expectsAll rest
termination_by structural ss => ss

end

/-! ### Quoted texts -/

/-- The name of a getter. -/
def getterText : Getter → Except Fault String
  | .definition name => .ok ("get_" ++ name)
  | .callable (.scalar _ (.callable c)) => .ok (c.functionName.getD c.text)
  | .callable (.scalar _ (.type t)) => .ok t.name
  | .callable v => v.text

mutual

/-- The quoted text of a schema. -/
def quoted : Schema → Except Fault String
  | .constraint _ check _ _ inner => do
    let s ← inner.quoted
    let parameter ← match check with
      | .refine predicate => predicate.callableText
      | check => check.requirement.quoted
    .ok (check.className ++ "(" ++ s ++ ", " ++ parameter ++ ")")
  | .wrapper _ w inner => do
    let s ← inner.quoted
    match w with
    | .default v => do
      let t ← v.quoted
      .ok ("Default(" ++ s ++ ", " ++ t ++ ")")
    | w => .ok (w.className ++ "(" ++ s ++ ")")
  | .overwrite _ _ inner => do
    let s ← inner.quoted
    .ok ("Overwrite(" ++ s ++ ")")
  | .lazy _ _ getter => do
    let s ← getterText getter
    .ok ("Lazy(" ++ s ++ ")")
  | .object _ _ kind _ _ entries => do
    let parts ← quotedEntries entries
    .ok (kind.className ++ "(" ++ Value.mappingText parts ++ ")")
  | .array _ _ item => do
    let s ← item.quoted
    .ok ("Array(" ++ s ++ ")")
  | .set _ _ item => do
    let s ← item.quoted
    .ok ("Set(" ++ s ++ ")")
  | .map _ _ key value => do
    let s ← key.quoted
    let t ← value.quoted
    .ok ("Map(" ++ s ++ ", " ++ t ++ ")")
  | .record _ _ value => do
    let s ← value.quoted
    .ok ("Record(" ++ s ++ ")")
  | .union _ members => do
    let parts ← quotedAll members
    .ok ("Union(" ++ Value.commas parts ++ ")")
  | .intersection _ members => do
    let parts ← quotedAll members
    .ok ("Intersection(" ++ Value.commas parts ++ ")")
  | s => .ok (s.className ++ "(" ++ s.expects ++ ")")
termination_by structural s => s

/-- The quoted texts of schemas. -/
def quotedAll : List Schema → Except Fault (List String)
  | [] => .ok []
  | s :: rest => do
    let t ← s.quoted
    let more ← quotedAll rest
    .ok (t :: more)
termination_by structural ss => ss

/-- The quoted texts of declared keys and their schemas. -/
def quotedEntries : List (Value × Schema) → Except Fault (List (String × String))
  | [] => .ok []
  | (k, s) :: rest => do
    let key ← k.quoted
    let t ← s.quoted
    let more ← quotedEntries rest
    .ok ((key, t) :: more)
termination_by structural es => es

end

end Schema

end Conform
