/-
  Conform/Message/Catalog.lean
  ============================
  **The default messages**, by key.  The key of a message is mostly the type of
  the issue; sizes and bounds are worded by what is measured.  A message with
  fields in braces is a template for the text of an issue.
-/
namespace Conform.Message

/-- Default messages by key. -/
def catalog : List (String × String) :=
  [ -- types
    ("string", "Expected string"),
    ("number", "Expected number"),
    ("integer", "Expected integer"),
    ("boolean", "Expected boolean"),
    ("bigint", "Expected bigint"),
    ("date", "Expected date"),
    ("symbol", "Expected symbol"),
    ("null", "Expected null"),
    ("undefined", "Expected undefined"),
    ("void", "Expected void (undefined)"),
    ("never", "This value should never exist"),
    ("literal", "Expected literal value \x7brequirement!r\x7d, got \x7breceived\x7d"),
    ("enum", "Expected one of [\x7bexpects\x7d], got \x7breceived\x7d"),
    ("native_enum", "Expected one of [\x7bexpects\x7d], got \x7breceived\x7d"),
    ("keyof", "Expected one of: \x7bexpects\x7d"),
    -- containers
    ("object", "Expected object"),
    ("array", "Expected array"),
    ("tuple", "Expected tuple"),
    ("record", "Expected record"),
    ("map", "Expected map"),
    ("set", "Expected set"),
    ("tuple_length", "Expected tuple of length \x7brequirement\x7d, got \x7breceived\x7d"),
    ("tuple_min_length",
      "Expected tuple of at least length \x7brequirement\x7d, got \x7breceived\x7d"),
    ("strict_object", "Object must not contain unexpected property: \x7brequirement\x7d"),
    ("required", "Missing required field: \x7brequirement\x7d"),
    ("map_key", "Key: \x7brequirement\x7d"),
    ("map_value", "Value: \x7brequirement\x7d"),
    -- operators
    ("union", "Value does not match any of the expected types"),
    ("intersection", "Intersection results could not be merged"),
    -- conversions
    ("coerce_string", "Cannot coerce to string"),
    ("coerce_number", "Cannot coerce to number"),
    ("coerce_bigint", "Cannot coerce to bigint"),
    ("coerce_date", "Invalid date"),
    ("coerce_none_bigint", "Cannot convert null to BigInt"),
    ("coerce_undefined_bigint", "Cannot convert undefined to BigInt"),
    ("coerce_none_date", "Cannot convert null to Date"),
    ("coerce_undefined_date", "Cannot convert undefined to Date"),
    -- lengths
    ("string_min_length", "String must be at least \x7brequirement\x7d characters long"),
    ("string_max_length", "String must be at most \x7brequirement\x7d characters long"),
    ("string_length", "String must be exactly \x7brequirement\x7d characters long"),
    ("array_min_length", "Array must have at least \x7brequirement\x7d items"),
    ("array_max_length", "Array must have at most \x7brequirement\x7d items"),
    ("array_length", "Array must have exactly \x7brequirement\x7d items"),
    ("set_min_length", "Set must have at least \x7brequirement\x7d items"),
    ("set_max_length", "Set must have at most \x7brequirement\x7d items"),
    ("set_length", "Set must have exactly \x7brequirement\x7d items"),
    ("map_min_length", "Map must have at least \x7brequirement\x7d entries"),
    ("map_max_length", "Map must have at most \x7brequirement\x7d entries"),
    ("map_length", "Map must have exactly \x7brequirement\x7d entries"),
    ("unsized_length", "Expected a value with a length, got \x7breceived\x7d"),
    -- texts
    ("regex", "String must match pattern \x7brequirement.pattern\x7d"),
    ("includes", "String must include \"\x7brequirement\x7d\""),
    ("starts_with", "String must start with \"\x7brequirement\x7d\""),
    ("ends_with", "String must end with \"\x7brequirement\x7d\""),
    ("lowercase", "String must be lowercase"),
    ("uppercase", "String must be uppercase"),
    ("email", "Invalid email format"),
    ("url", "Invalid URL format"),
    ("uuid", "Invalid UUID format"),
    -- numbers and dates
    ("number_min_value", "Number must be at least \x7brequirement\x7d"),
    ("number_max_value", "Number must be at most \x7brequirement\x7d"),
    ("date_min_value", "Date must be at least \x7brequirement:%Y-%m-%dT%H:%M:%S\x7d"),
    ("date_max_value", "Date must be at most \x7brequirement:%Y-%m-%dT%H:%M:%S\x7d"),
    ("greater_than", "Number must be greater than \x7brequirement\x7d"),
    ("less_than", "Number must be less than \x7brequirement\x7d"),
    ("date_greater_than", "Date must be after \x7brequirement:%Y-%m-%dT%H:%M:%S\x7d"),
    ("date_less_than", "Date must be before \x7brequirement:%Y-%m-%dT%H:%M:%S\x7d"),
    ("multiple_of", "Number must be a multiple of \x7brequirement\x7d"),
    ("positive", "Number must be positive"),
    ("negative", "Number must be negative"),
    -- predicates
    ("refine", "Invalid value") ]

/-- The default message with a key. -/
def default? (key : String) : Option String :=
  catalog.lookup key

end Conform.Message
