/-! The data types a nodeset defines, as the type generator holds them, and the text it
writes for each.

A stream only ever grows, so each function is modelled by the text it writes. Most names
are looked up with a check; a field of a structure is converted without one, and where
that lookup finds nothing there is no text. -/
namespace ModernOpc.Gen

/-! ### Types and their table -/

inductive Identifier where
  | numeric (i : Int32)
  | string (s : String)
  deriving DecidableEq, Repr

/-- The generator's own `NodeId`; its constructors let no other identifier be built. -/
structure NodeId where
  nsIdx : UInt16
  i : Identifier
  deriving DecidableEq, Repr

structure DataTypeDefinitionField where
  name : String
  valueRank : Int32
  dataType : NodeId
  deriving DecidableEq, Repr

abbrev StructureDefinitionField := DataTypeDefinitionField

structure EnumDefinitionField extends DataTypeDefinitionField where
  value : Int32
  deriving DecidableEq, Repr

structure BaseDataType where
  name : String
  id : NodeId
  deriving DecidableEq, Repr

structure EnumDataType where
  name : String
  id : NodeId
  fields : List EnumDefinitionField
  deriving DecidableEq, Repr

structure StructureDataType where
  name : String
  id : NodeId
  fields : List StructureDefinitionField
  deriving DecidableEq, Repr

/-- `gen::DataType` and the classes derived from it. -/
inductive DataType where
  | base (type : BaseDataType)
  | enum (type : EnumDataType)
  | struct (type : StructureDataType)
  deriving DecidableEq, Repr

namespace DataType

def name : DataType → String
  | base type => type.name
  | enum type => type.name
  | struct type => type.name

def id : DataType → NodeId
  | base type => type.id
  | enum type => type.id
  | struct type => type.id

/-- An enum or a structure: what is generated at all. -/
def Generated : DataType → Prop
  | base _ => False
  | enum _ | struct _ => True

instance : DecidablePred Generated
  | base _ => .isFalse fun h => h
  | enum _ | struct _ => .isTrue trivial

@[simp] theorem not_generated_base (type : BaseDataType) : ¬ (base type).Generated := fun h => h
@[simp] theorem generated_enum (type : EnumDataType) : (enum type).Generated := trivial
@[simp] theorem generated_struct (type : StructureDataType) : (struct type).Generated := trivial

end DataType

/-- The table of types, as it was inserted: an `unordered_map` keeps the first entry of a
key. -/
abbrev TypeTable := List (NodeId × DataType)

/-- `types.find`. -/
def TypeTable.find (types : TypeTable) (id : NodeId) : Option DataType := types.lookup id

/-! ### Conversions -/

def str_toupper (s : String) : String := s.toUpper

def firstToLow (s : String) : String := s.decapitalize

/-- The cast of a value. -/
def castTo (name value : String) : String := "static_cast<UA_" ++ name ++ ">(" ++ value ++ ");\n"

namespace BaseDataType
def getScalarConversion (type : BaseDataType) (n : String) : String := castTo type.name ("val." ++ n)
def getArrayConversion (type : BaseDataType) (n : String) : String := castTo type.name ("val." ++ n ++ "[i]")
end BaseDataType

namespace EnumDataType
def getScalarConversion (type : EnumDataType) (n : String) : String := castTo type.name ("val." ++ n)
def getArrayConversion (type : EnumDataType) (n : String) : String := castTo type.name ("val." ++ n ++ "[i]")
end EnumDataType

namespace StructureDataType

def getScalarConversion (type : StructureDataType) (n : String) : String :=
  match type.id.i with
  | .numeric i =>
    if i ≤ 11 then " " ++ castTo type.name ("val." ++ n)
    else "from" ++ type.name ++ "(val." ++ n ++ ");\n"
  | .string _ => "from" ++ type.name ++ "(val." ++ n ++ ");\n"

def getArrayConversion (type : StructureDataType) (n : String) : String :=
  "from" ++ type.name ++ "(val." ++ n ++ "[i]);\n"

end StructureDataType

namespace DataType

def getScalarConversion : DataType → String → String
  | base type => type.getScalarConversion
  | enum type => type.getScalarConversion
  | struct type => type.getScalarConversion

def getArrayConversion : DataType → String → String
  | base type => type.getArrayConversion
  | enum type => type.getArrayConversion
  | struct type => type.getArrayConversion

end DataType

/-- The conversion of an array field whose type was found. -/
def arrayConversion (field : DataTypeDefinitionField) (t : DataType) : String :=
  let n := firstToLow field.name
  "uaval." ++ n ++ "Size = val." ++ n ++ ".size();\n" ++
    "uaval." ++ n ++ " = static_cast<UA_" ++ t.name ++ "*>(UA_Array_new(val." ++ n ++
    ".size(), &UA_TYPES[UA_TYPES_" ++ str_toupper t.name ++ "]));\n" ++
    "for(auto i=0; i<val." ++ n ++ ".size(); i++)\x7b" ++
    "uaval." ++ n ++ "[i] = " ++ t.getArrayConversion n ++ "\x7d\n"

/-- `const UA_X fromX(const X &val)`, around the conversions of the fields. -/
def fromConversion (name fields : String) : String :=
  "const UA_" ++ name ++ " from" ++ name ++ "(const " ++ name ++ " &val) \x7b\n" ++
    "UA_" ++ name ++ " uaval;\n" ++ fields ++ "return uaval;\n" ++ "\x7d\n\n"

/-- `void toUAVariantImpl(const X& val, UA_Variant *var)`, around what makes `uaval`. -/
def toUAVariantImpl (name makesValue type : String) : String :=
  "void toUAVariantImpl(const " ++ name ++ "& val, UA_Variant *var)\n\x7b\n" ++ makesValue ++
    "UA_Variant_setScalarCopy(var, &uaval, &UA_TYPES[UA_TYPES_" ++ type ++ "]);\n" ++ "\x7d\n\n"

/-- The declarations of both. -/
def conversionDecl (specifier name : String) : String :=
  specifier ++ "void toUAVariantImpl(const " ++ name ++ "& val, UA_Variant *var);\n\n" ++
    specifier ++ "const UA_" ++ name ++ " from" ++ name ++ "(const " ++ name ++ "& val);\n"

/-! ### Enums -/

namespace EnumDataType
variable (types : TypeTable)

/-- `addFromConversionFunction`: an unknown type is reported and skipped. -/
def addFromConversionFunction (field : EnumDefinitionField) : String :=
  match types.find field.dataType with
  | none => ""
  | some t =>
    if field.valueRank > 0 then arrayConversion field.toDataTypeDefinitionField t
    else t.getScalarConversion (firstToLow field.name)

def addFromConversionImpl (type : EnumDataType) : String :=
  fromConversion type.name (String.join (type.fields.map (addFromConversionFunction types)))

def addToUAVariantImpl (type : EnumDataType) : String :=
  toUAVariantImpl type.name ("UA_Int32 uaval = " ++ castTo type.name "val") "INT32"

def addEnumOrdinals (type : EnumDataType) : String :=
  String.join (type.fields.map fun field =>
    str_toupper type.name ++ "_" ++ str_toupper field.name ++ " = " ++ toString field.value ++ ",\n")

def openHeader (type : EnumDataType) : String := "enum class " ++ type.name ++ "\n\x7b\n"
def addHeader (type : EnumDataType) : String := type.addEnumOrdinals
def afterHeader (type : EnumDataType) : String := conversionDecl "" type.name
def addImpl (type : EnumDataType) : String := type.addToUAVariantImpl ++ type.addFromConversionImpl types

end EnumDataType

/-! ### Structures -/

namespace StructureDataType
variable (types : TypeTable)

/-- `addFromConversionFunction`: the entry is dereferenced without a check. -/
def addFromConversionFunction (field : StructureDefinitionField) : Option String := do
  let t ← types.find field.dataType
  if field.valueRank > 0 then return arrayConversion field t
  else return "uaval." ++ firstToLow field.name ++ " = " ++ t.getScalarConversion (firstToLow field.name)

/-- The loop over the fields, in both functions that convert them. -/
def addFieldConversions (type : StructureDataType) : Option String :=
  String.join <$> type.fields.mapM (addFromConversionFunction types)

def addFromConversionImpl (type : StructureDataType) : Option String := do
  return fromConversion type.name (← type.addFieldConversions types)

def addToUAVariantImpl (type : StructureDataType) : Option String := do
  return toUAVariantImpl type.name ("UA_" ++ type.name ++ " uaval;\n" ++ (← type.addFieldConversions types))
    (str_toupper type.name)

def addPrivateMember (type : StructureDataType) : String :=
  "public:\n" ++ String.join (type.fields.map fun (field : StructureDefinitionField) =>
    match types.find field.dataType with
    | some t2 =>
      if field.valueRank > -1 then "std::vector<" ++ t2.name ++ "> " ++ firstToLow field.name ++ ";\n"
      else t2.name ++ " " ++ firstToLow field.name ++ ";\n"
    | none => "unknown type\n")

def addDataTypeTemplate (type : StructureDataType) : String :=
  "template<>\n" ++ "inline const UA_DataType* getDataType<" ++ type.name ++ ">() \x7b\n" ++
    "return &UA_TYPES[UA_TYPES_" ++ str_toupper type.name ++ "];\n" ++ "\x7d\n"

def openHeader (type : StructureDataType) : String := "class " ++ type.name ++ "\n\x7b\npublic:\n"
def addHeader (type : StructureDataType) : String :=
  conversionDecl "friend " type.name ++ type.addPrivateMember types
def afterHeader (type : StructureDataType) : String := type.addDataTypeTemplate

def addImpl (type : StructureDataType) : Option String := do
  return (← type.addToUAVariantImpl types) ++ (← type.addFromConversionImpl types)

end StructureDataType

/-! ### What `generate` writes -/

/-- What goes to the two streams. -/
structure Text where
  header : String
  impl : String

def closeHeader : String := "\x7d;\n\n"

namespace DataType

/-- `generate`, unless a lookup in it is dereferenced that finds nothing. -/
def generate (types : TypeTable) : DataType → Option Text
  | base _ => some ⟨"", ""⟩
  | enum type =>
    some ⟨type.openHeader ++ type.addHeader ++ closeHeader ++ type.afterHeader, type.addImpl types⟩
  | struct type => do
    return ⟨type.openHeader ++ type.addHeader types ++ closeHeader ++ type.afterHeader, ← type.addImpl types⟩

end DataType

end ModernOpc.Gen
