/-
  Conform/Stock/Type.lean
  =======================
  **The stock of types**: enumerations and classes of objects that values can be
  of, besides the built-in types.  Types are found by name.
-/
import Conform.Value.Text

namespace Conform.Stock

/-! ### Enumerations -/

/-- Two colors, with texts behind them. -/
def color : Enumeration := ⟨"Color", false, [("RED", .text "r"), ("GREEN", .text "g")], []⟩

/-- Two levels, which are integers themselves. -/
def level : Enumeration := ⟨"Level", true, [("LOW", .int 1), ("HIGH", .int 10)], []⟩

/-- Members with values of several types, and one with two names. -/
def mixed : Enumeration :=
  ⟨"Mixed", false,
    [ ("ONE", .int 1), ("TXT", .text "one"), ("PI", .float (Binary64.ofRat (mkRat 7 2))),
      ("NONE", .null) ],
    [("UNO", "ONE")]⟩

/-- No members. -/
def memberless : Enumeration := ⟨"Empty", false, [], []⟩

def enumerations : List Enumeration := [color, level, mixed, memberless]

/-- The member of an enumeration, both by name. -/
def member? (enumeration member : String) : Option EnumMember :=
  (enumerations.find? (·.name == enumeration)).bind (·.member? member)

/-! ### Classes of objects -/

/-- Objects with a text, and no more. -/
def plain : ObjectClass := ⟨"Plain", .gives "Plain()", .unsupported, .gives true, none⟩

/-- Classes of objects, which differ in what their objects answer. -/
def objectClasses : List ObjectClass :=
  [ plain,
    ⟨"BadStr", .refuses, .refuses, .refuses, none⟩,
    ⟨"Boom", .fails, .fails, .fails, none⟩,
    ⟨"Floaty", .gives " 7 ", .gives (Binary64.ofRat (mkRat 5 2)), .gives true, none⟩,
    ⟨"Nanny", .gives "2020-02-29", .gives .nan, .gives true, none⟩,
    { plain with name := "Sized3", size := some 3 } ]

/-- The class of objects with a name. -/
def objectClass? (name : String) : Option ObjectClass :=
  objectClasses.find? (·.name == name)

/-! ### Types by name -/

/-- The types that are there before any is defined, by the names that they are known under. -/
def builtinTypes : List (String × ValueType) :=
  [ ("NoneType", .null), ("Undefined", .undefined), ("bool", .bool), ("int", .int),
    ("float", .float), ("complex", .complex), ("Decimal", .decimal), ("str", .str),
    ("bytes", .bytes), ("bytearray", .byteArray), ("tuple", .tuple), ("list", .list),
    ("set", .set), ("frozenset", .frozenSet), ("dict", .dict), ("OrderedDict", .orderedDict),
    ("MappingProxyType", .mappingView), ("date", .date), ("time", .time),
    ("datetime", .dateTime), ("timedelta", .duration), ("Sentinel", .sentinel),
    ("Pattern", .regex), ("type", .type), ("EnumMeta", .enumType), ("EnumType", .enumType),
    ("object", .base), ("MyInt", .derivedInt), ("MyFloat", .derivedFloat),
    ("MyStr", .derivedStr), ("MyList", .derivedList) ]

/-- The types, by the names that they are known under. -/
def types : List (String × ValueType) :=
  builtinTypes ++ enumerations.map (fun e => (e.name, ValueType.enumeration e)) ++
    objectClasses.map (fun c => (c.name, ValueType.object c))

/-- The type with a name. -/
def typeNamed (name : String) : ValueType :=
  (types.lookup name).getD (.callable name)

/-- The name that a type is known under. -/
def nameOfType (t : ValueType) : String :=
  match types.find? fun c => c.2 == t with
  | some (name, _) => name
  | none => t.name

end Conform.Stock
