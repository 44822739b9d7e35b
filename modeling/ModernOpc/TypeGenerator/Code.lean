import ModernOpc.TypeGenerator.DataType
import Mathlib.Data.List.Forall2
import Mathlib.Data.String.Basic

/-! The C++ that stands for the types of a table.

A class is written from the texts of its fields: the member, and the statement in each of
the two conversion bodies. A member is declared as a vector or not; a statement fills an
array or one value, which it converts by a call or by a cast (`Form`). The two can be read
off the texts (`FieldText.Has.unique`).

`Block` says which texts stand for a type, `Written` what the two files hold once some types
were written. -/
namespace ModernOpc.Gen

/-! ### The texts of a field -/

/-- A member. -/
def declaration (type name : String) (vector : Bool) : String :=
  (if vector then "std::vector<" ++ type ++ ">" else type) ++ " " ++ name ++ ";\n"

/-- How a statement fills a member: an array of values or one, each converted by a call of
`from<Type>` or by a cast, behind a blank or not. -/
structure Form where
  array : Bool
  call : Bool
  blank : Bool
  deriving DecidableEq, Repr

/-- The conversion of one value, up to the end of its line. -/
def Form.element (form : Form) (type value : String) : String :=
  (if form.blank then " " else "") ++
    (if form.call then "from" ++ type else "static_cast<UA_" ++ type ++ ">") ++ "(" ++ value ++ ");\n"

/-- Size and allocation of an array, and the loop over it, up to the conversion of an element. -/
def arrayHead (type name : String) : String :=
  "uaval." ++ name ++ "Size = val." ++ name ++ ".size();\n" ++
    "uaval." ++ name ++ " = static_cast<UA_" ++ type ++ "*>(UA_Array_new(val." ++ name ++
      ".size(), &UA_TYPES[UA_TYPES_" ++ type.toUpper ++ "]));\n" ++
    "for(auto i=0; i<val." ++ name ++ ".size(); i++)\x7b" ++ "uaval." ++ name ++ "[i] = "

/-- The statement that fills a member. -/
def Form.statement (form : Form) (type name : String) : String :=
  if form.array then arrayHead type name ++ form.element type ("val." ++ name ++ "[i]") ++ "\x7d\n"
  else "uaval." ++ name ++ " = " ++ form.element type ("val." ++ name)

/-- The texts of a field: its member, and the statements in the bodies of `toUAVariantImpl`
and `from<Name>`. -/
structure FieldText where
  member : String
  toVariant : String
  fromValue : String

/-- The texts are those of a field of type `t` in these forms. -/
structure FieldText.Has (text : FieldText) (field : StructureDefinitionField) (t : DataType) (vector : Bool)
    (toVariant fromValue : Form) : Prop where
  member : text.member = declaration t.name field.name.decapitalize vector
  toVariant : text.toVariant = toVariant.statement t.name field.name.decapitalize
  fromValue : text.fromValue = fromValue.statement t.name field.name.decapitalize

theorem declaration_injective (type name : String) : Function.Injective (declaration type name) := by
  intro vector vector' h
  have hlength := congrArg (·.toList.length) h
  unfold declaration at hlength
  cases vector <;> cases vector' <;> simp [String.toList_append] at hlength ⊢ <;> omega

theorem Form.element_cast (array : Bool) (type value : String) :
    (Form.mk array false false).element type value =
      "static_cast<UA_" ++ type ++ ">" ++ "(" ++ value ++ ");\n" := by
  unfold Form.element
  rw [if_neg Bool.false_ne_true, if_neg Bool.false_ne_true, String.empty_append]

theorem Form.element_call (array : Bool) (type value : String) :
    (Form.mk array true false).element type value = "from" ++ type ++ "(" ++ value ++ ");\n" := by
  unfold Form.element
  rw [if_neg Bool.false_ne_true, if_pos rfl, String.empty_append]

theorem Form.element_blank (array call : Bool) (type value : String) :
    (Form.mk array call true).element type value = " " ++ (Form.mk array call false).element type value := by
  unfold Form.element
  rw [if_pos rfl, if_neg Bool.false_ne_true, String.empty_append]
  simp only [String.append_assoc]

/-- A call begins with `f`, a cast with `s`, whatever follows. -/
theorem Form.element_injective {form form' : Form} {type value rest rest' : String}
    (h : form.element type value ++ rest = form'.element type value ++ rest') : form.call = form'.call := by
  have hchars := congrArg String.toList h
  obtain ⟨_, call, blank⟩ := form
  obtain ⟨_, call', blank'⟩ := form'
  unfold Form.element at hchars
  cases call <;> cases call' <;> cases blank <;> cases blank' <;>
    simp [String.toList_append] at hchars ⊢

/-- The array form goes on with `Size` where the other one has a blank. -/
theorem Form.statement_ne {form form' : Form} {type name rest rest' : String} (h : form.array = true)
    (h' : form'.array = false) : form.statement type name ++ rest ≠ form'.statement type name ++ rest' := by
  intro heq
  unfold Form.statement arrayHead at heq
  rw [if_pos h, if_neg (by rw [h']; exact Bool.false_ne_true)] at heq
  simp only [String.append_assoc] at heq
  have hrest := (String.append_right_inj _).mp ((String.append_right_inj _).mp heq)
  have hhead := congrArg (·.toList.head?) hrest
  simp [String.toList_append] at hhead

/-- The form of a statement can be read off, whatever follows. -/
theorem Form.statement_injective {form form' : Form} {type name rest rest' : String}
    (h : form.statement type name ++ rest = form'.statement type name ++ rest') :
    form.array = form'.array ∧ form.call = form'.call := by
  cases harray : form.array <;> cases harray' : form'.array
  · unfold Form.statement at h
    rw [if_neg (by simp [harray]), if_neg (by simp [harray'])] at h
    simp only [String.append_assoc, String.append_right_inj] at h
    exact ⟨rfl, Form.element_injective h⟩
  · exact absurd h.symm (Form.statement_ne harray' harray)
  · exact absurd h (Form.statement_ne harray harray')
  · unfold Form.statement at h
    rw [if_pos harray, if_pos harray'] at h
    simp only [String.append_assoc, String.append_right_inj] at h
    exact ⟨rfl, Form.element_injective h⟩

/-- The texts of a field say which forms they have. -/
theorem FieldText.Has.unique {text : FieldText} {field : StructureDefinitionField} {t : DataType}
    {vector vector' : Bool} {toVariant toVariant' fromValue fromValue' : Form}
    (h : text.Has field t vector toVariant fromValue) (h' : text.Has field t vector' toVariant' fromValue') :
    vector = vector' ∧ (toVariant.array = toVariant'.array ∧ toVariant.call = toVariant'.call) ∧
      fromValue.array = fromValue'.array ∧ fromValue.call = fromValue'.call :=
  ⟨declaration_injective _ _ (h.member.symm.trans h'.member),
    Form.statement_injective (congrArg (· ++ "") (h.toVariant.symm.trans h'.toVariant)),
    Form.statement_injective (congrArg (· ++ "") (h.fromValue.symm.trans h'.fromValue))⟩

/-- A structure, whose values are converted by a call. -/
def DataType.isStruct : DataType → Bool
  | struct _ => true
  | base _ | enum _ => false

/-- Member and statements of a field of type `t` agree: all are of an array or none, and each
converts a value as its type wants it. -/
def FieldText.Agrees (text : FieldText) (field : StructureDefinitionField) (t : DataType) : Prop :=
  ∃ vector toVariant fromValue, text.Has field t vector toVariant fromValue ∧
    (toVariant.array = vector ∧ fromValue.array = vector) ∧
    (toVariant.call = t.isStruct ∧ fromValue.call = t.isStruct)

/-! ### The texts of a type -/

/-- The declarations of the two conversions. -/
def declarations (specifier name : String) : String :=
  specifier ++ "void toUAVariantImpl(const " ++ name ++ "& val, UA_Variant *var);\n\n" ++
    specifier ++ "const UA_" ++ name ++ " from" ++ name ++ "(const " ++ name ++ "& val);\n"

/-- The class of a structure, with the template behind it. -/
def classHeader (name : String) (members : List String) : String :=
  "class " ++ name ++ "\n\x7b\npublic:\n" ++ declarations "friend " name ++
    "public:\n" ++ String.join members ++ "\x7d;\n\n" ++
    "template<>\n" ++ "inline const UA_DataType* getDataType<" ++ name ++ ">() \x7b\n" ++
    "return &UA_TYPES[UA_TYPES_" ++ name.toUpper ++ "];\n" ++ "\x7d\n"

def classImpl (name : String) (toVariant fromValue : List String) : String :=
  "void toUAVariantImpl(const " ++ name ++ "& val, UA_Variant *var)\n\x7b\n" ++
    "UA_" ++ name ++ " uaval;\n" ++ String.join toVariant ++
    "UA_Variant_setScalarCopy(var, &uaval, &UA_TYPES[UA_TYPES_" ++ name.toUpper ++ "]);\n" ++ "\x7d\n\n" ++
    "const UA_" ++ name ++ " from" ++ name ++ "(const " ++ name ++ " &val) \x7b\n" ++
    "UA_" ++ name ++ " uaval;\n" ++ String.join fromValue ++ "return uaval;\n" ++ "\x7d\n\n"

def enumHeader (name : String) (ordinals : List (String × Int32)) : String :=
  "enum class " ++ name ++ "\n\x7b\n" ++
    String.join (ordinals.map fun ordinal =>
      name.toUpper ++ "_" ++ ordinal.1.toUpper ++ " = " ++ toString ordinal.2 ++ ",\n") ++
    "\x7d;\n\n" ++ declarations "" name

def enumImpl (name : String) (fromValue : List String) : String :=
  "void toUAVariantImpl(const " ++ name ++ "& val, UA_Variant *var)\n\x7b\n" ++
    "UA_Int32 uaval = static_cast<UA_" ++ name ++ ">(val);\n" ++
    "UA_Variant_setScalarCopy(var, &uaval, &UA_TYPES[UA_TYPES_INT32]);\n" ++ "\x7d\n\n" ++
    "const UA_" ++ name ++ " from" ++ name ++ "(const " ++ name ++ " &val) \x7b\n" ++
    "UA_" ++ name ++ " uaval;\n" ++ String.join fromValue ++ "return uaval;\n" ++ "\x7d\n\n"

variable (types : TypeTable)

/-- What a field of an enum adds to its conversion: nothing if its type is unknown. -/
def EnumStatement (field : EnumDefinitionField) (text : String) : Prop :=
  match types.find field.dataType with
  | none => text = ""
  | some t => ∃ form : Form, text =
      if form.array then form.statement t.name field.name.decapitalize
      else form.element t.name ("val." ++ field.name.decapitalize)

/-- The texts are those of a field whose type is known. -/
def FieldText.Of (field : StructureDefinitionField) (text : FieldText) : Prop :=
  ∃ t, types.find field.dataType = some t ∧
    ∃ vector toVariant fromValue, text.Has field t vector toVariant fromValue

/-- The texts of a type: of a structure they are put together from those of its fields. -/
inductive Block : DataType → Text → Prop
  | enum {type : EnumDataType} {fromValue : List String} :
    List.Forall₂ (EnumStatement types) type.fields fromValue →
    Block (.enum type) ⟨enumHeader type.name (type.fields.map fun field => (field.name, field.value)),
      enumImpl type.name fromValue⟩
  | struct {type : StructureDataType} {texts : List FieldText} :
    List.Forall₂ (FieldText.Of types) type.fields texts →
    Block (.struct type) ⟨classHeader type.name (texts.map (·.member)),
      classImpl type.name (texts.map (·.toVariant)) (texts.map (·.fromValue))⟩

/-! ### The two files -/

/-- One text behind another, in both streams. -/
def Text.append (text more : Text) : Text := ⟨text.header ++ more.header, text.impl ++ more.impl⟩

def includes : Text where
  header := "#pragma once\n" ++ "#include <string>\n" ++ "#include <opc/types/LocalizedText.h>\n"
  impl := "#include <generated.h>\n" ++ "#include <opc/Variant.h>\n" ++
    "#include <opc/types/StdTypes.h>\n" ++ "#include <opc/types/NodeId.h>\n" ++
    "#include <opc/types/QualifiedName.h>\n"

/-- What the streams hold: the namespace, opened, and behind it the texts of the types, in
order, with includes in between. -/
inductive Written (ns : String) : List DataType → Text → Prop
  | opened : Written ns [] ⟨"namespace " ++ ns ++ " \x7b\n", "namespace " ++ ns ++ " \x7b"⟩
  | included {written : List DataType} {text : Text} :
    Written ns written text → Written ns written (text.append includes)
  | block {written : List DataType} {t : DataType} {text more : Text} :
    Written ns written text → Block types t more → Written ns (written ++ [t]) (text.append more)

end ModernOpc.Gen
