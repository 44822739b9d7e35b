import ModernOpc.Library.MapM
import ModernOpc.TypeGenerator.Code

/-! What `generate` writes, as C++.

The header declares the member of a field, and the two conversion bodies fill it. Each decides
for itself whether the field is an array: a declaration from rank 0 on, a conversion from rank
1 on. What converts one value is decided by the field's type, but for a structure with a small
id the scalar form casts it.

`block_of_generate`: what is written for a type is its block.
`conversions_agree_iff`: on a field, member and conversions agree exactly if its rank is
positive, or negative and its type no such structure. -/
namespace ModernOpc.Gen
open Library

variable (types : TypeTable)

/-! ### The texts of one field -/

/-- What `addPrivateMember` writes for a field. -/
def privateMember (field : StructureDefinitionField) : String :=
  match types.find field.dataType with
  | some t2 =>
    if field.valueRank > -1 then "std::vector<" ++ t2.name ++ "> " ++ firstToLow field.name ++ ";\n"
    else t2.name ++ " " ++ firstToLow field.name ++ ";\n"
  | none => "unknown type\n"

/-- What is written for a field whose type is known. -/
def fieldText (field : StructureDefinitionField) : FieldText where
  member := privateMember types field
  toVariant := (StructureDataType.addFromConversionFunction types field).getD ""
  fromValue := (StructureDataType.addFromConversionFunction types field).getD ""

/-- A structure that the scalar form takes for a built-in type. -/
def DataType.TakenForBuiltIn : DataType → Prop
  | struct type => ∃ i, type.id.i = .numeric i ∧ i ≤ 11
  | base _ | enum _ => False

theorem addPrivateMember_eq (type : StructureDataType) :
    type.addPrivateMember types = "public:\n" ++ String.join (type.fields.map (privateMember types)) := rfl

/-! ### The conversion of one value -/

theorem castTo_eq (array : Bool) (type value : String) :
    castTo type value = (Form.mk array false false).element type value := by
  rw [Form.element_cast]
  unfold castTo
  apply String.ext
  simp [String.toList_append]

theorem getArrayConversion_eq (t : DataType) (n : String) :
    t.getArrayConversion n = (Form.mk true t.isStruct false).element t.name ("val." ++ n ++ "[i]") := by
  cases t with
  | base type => exact castTo_eq ..
  | enum type => exact castTo_eq ..
  | struct type =>
    show "from" ++ type.name ++ "(val." ++ n ++ "[i]);\n" =
      (Form.mk true true false).element type.name ("val." ++ n ++ "[i]")
    rw [Form.element_call]
    apply String.ext
    simp [String.toList_append]

/-- One value is converted as its type wants it, unless it is taken for a built-in one. -/
theorem getScalarConversion_form (t : DataType) :
    ∃ form : Form, form.array = false ∧ (form.call = t.isStruct ↔ ¬ t.TakenForBuiltIn) ∧
      ∀ n, t.getScalarConversion n = form.element t.name ("val." ++ n) := by
  cases t with
  | base type => exact ⟨⟨false, false, false⟩, rfl, iff_of_true rfl id, fun n => castTo_eq ..⟩
  | enum type => exact ⟨⟨false, false, false⟩, rfl, iff_of_true rfl id, fun n => castTo_eq ..⟩
  | struct type =>
    have hcall (n : String) : "from" ++ type.name ++ "(val." ++ n ++ ");\n" =
        (Form.mk false true false).element type.name ("val." ++ n) := by
      rw [Form.element_call]
      apply String.ext
      simp [String.toList_append]
    have hform {n : String} : (DataType.struct type).getScalarConversion n = type.getScalarConversion n := rfl
    have htaken : (DataType.struct type).TakenForBuiltIn ↔ ∃ i, type.id.i = .numeric i ∧ i ≤ 11 := Iff.rfl
    cases hid : type.id.i with
    | string s =>
      refine ⟨⟨false, true, false⟩, rfl, iff_of_true rfl (by simp [htaken, hid]), fun n => ?_⟩
      rw [hform, StructureDataType.getScalarConversion, hid]
      exact hcall n
    | numeric i =>
      by_cases hsmall : i ≤ 11
      · refine ⟨⟨false, false, true⟩, rfl, iff_of_false Bool.false_ne_true (by simp [htaken, hid, hsmall]),
          fun n => ?_⟩
        rw [hform, StructureDataType.getScalarConversion, hid, Form.element_blank, ← castTo_eq]
        exact if_pos hsmall
      · refine ⟨⟨false, true, false⟩, rfl, iff_of_true rfl (by simp [htaken, hid, hsmall]), fun n => ?_⟩
        rw [hform, StructureDataType.getScalarConversion, hid]
        exact (if_neg hsmall).trans (hcall n)

/-! ### Member and statements -/

theorem arrayConversion_eq (field : DataTypeDefinitionField) (t : DataType) :
    arrayConversion field t = (Form.mk true t.isStruct false).statement t.name field.name.decapitalize := by
  unfold Form.statement arrayConversion arrayHead
  rw [if_pos rfl, ← getArrayConversion_eq]
  unfold firstToLow str_toupper
  apply String.ext
  simp [String.toList_append]

variable {types} {field : StructureDefinitionField} {t : DataType}

theorem privateMember_eq (h : types.find field.dataType = some t) :
    privateMember types field = declaration t.name field.name.decapitalize (decide (field.valueRank > -1)) := by
  unfold privateMember declaration firstToLow
  rw [h]
  show (if field.valueRank > -1 then _ else _) = _
  by_cases hrank : field.valueRank > -1
  · rw [if_pos hrank, if_pos (decide_eq_true hrank)]
    apply String.ext
    simp [String.toList_append]
  · rw [if_neg hrank, if_neg (by simpa using hrank)]

/-- A statement fills an array from rank 1 on, and then converts its elements as their type
wants it. -/
theorem addFromConversionFunction_form (h : types.find field.dataType = some t) :
    ∃ form : Form, StructureDataType.addFromConversionFunction types field =
        some (form.statement t.name field.name.decapitalize) ∧
      (form.array = true ↔ field.valueRank > 0) ∧
      (form.call = t.isStruct ↔ field.valueRank > 0 ∨ ¬ t.TakenForBuiltIn) := by
  unfold StructureDataType.addFromConversionFunction
  rw [h]
  by_cases hrank : field.valueRank > 0
  · refine ⟨⟨true, t.isStruct, false⟩, ?_, by simp [hrank], by simp [hrank]⟩
    rw [← arrayConversion_eq]
    exact if_pos hrank
  · obtain ⟨form, harray, hcall, helement⟩ := getScalarConversion_form t
    refine ⟨form, ?_, by simp [harray, hrank], by simp [hcall, hrank]⟩
    unfold Form.statement
    rw [if_neg (by simp [harray]), ← helement]
    exact if_neg hrank

theorem fieldText_has (h : types.find field.dataType = some t) :
    ∃ form : Form, (fieldText types field).Has field t (decide (field.valueRank > -1)) form form ∧
      (form.array = true ↔ field.valueRank > 0) ∧
      (form.call = t.isStruct ↔ field.valueRank > 0 ∨ ¬ t.TakenForBuiltIn) := by
  obtain ⟨form, hfill, hform⟩ := addFromConversionFunction_form h
  have hstatement : (StructureDataType.addFromConversionFunction types field).getD "" =
      form.statement t.name field.name.decapitalize := by rw [hfill, Option.getD_some]
  exact ⟨form, ⟨privateMember_eq h, hstatement, hstatement⟩, hform⟩

theorem ranks_agree_iff (rank : Int32) : (rank > 0 ↔ rank > -1) ↔ rank > 0 ∨ rank < 0 := by
  simp only [GT.gt, Int32.lt_iff_toInt_lt]
  show (0 < rank.toInt ↔ -1 < rank.toInt) ↔ 0 < rank.toInt ∨ rank.toInt < 0
  omega

/-- Of the forms that a field's texts have, those of array and of one value agree. -/
theorem fieldText_agrees_iff (h : types.find field.dataType = some t) :
    (fieldText types field).Agrees field t ↔
      field.valueRank > 0 ∨ field.valueRank < 0 ∧ ¬ t.TakenForBuiltIn := by
  obtain ⟨form, hhas, harray, hcall⟩ := fieldText_has h
  have hforms : (fieldText types field).Agrees field t ↔
      form.array = decide (field.valueRank > -1) ∧ form.call = t.isStruct := by
    constructor
    · intro ⟨vector, toVariant, fromValue, hhas', ⟨hto, _⟩, hcallTo, _⟩
      obtain ⟨hvector, ⟨harrayTo, hcallTo'⟩, _⟩ := hhas.unique hhas'
      exact ⟨harrayTo.trans (hto.trans hvector.symm), hcallTo'.trans hcallTo⟩
    · intro ⟨hvector, hstruct⟩
      exact ⟨_, form, form, hhas, ⟨hvector, hvector⟩, hstruct, hstruct⟩
  have hvector : form.array = decide (field.valueRank > -1) ↔ (field.valueRank > 0 ↔ field.valueRank > -1) := by
    rw [← harray, Bool.eq_iff_iff, decide_eq_true_iff]
  rw [hforms, hvector, hcall, ranks_agree_iff]
  exact or_and_left.symm

/-! ### All fields -/

theorem addFromConversionFunction_isSome :
    (StructureDataType.addFromConversionFunction types field).isSome ↔ (types.find field.dataType).isSome := by
  cases h : types.find field.dataType with
  | none =>
    unfold StructureDataType.addFromConversionFunction
    rw [h]
    rfl
  | some t =>
    obtain ⟨form, hfill, _⟩ := addFromConversionFunction_form h
    rw [hfill]
    exact iff_of_true rfl rfl

/-- The fields are converted if their types are known. -/
theorem fieldConversions {fields : List StructureDefinitionField}
    (hknown : ∀ field ∈ fields, (types.find field.dataType).isSome) :
    fields.mapM (StructureDataType.addFromConversionFunction types) =
      some (fields.map fun field => (fieldText types field).toVariant) := by
  rw [MapM.eq_some_iff, List.forall₂_map_right_iff, List.forall₂_same]
  intro field hfield
  obtain ⟨text, htext⟩ := Option.isSome_iff_exists.mp (addFromConversionFunction_isSome.mpr (hknown field hfield))
  show _ = some ((StructureDataType.addFromConversionFunction types field).getD "")
  rw [htext, Option.getD_some]

theorem conversionDecl_eq (specifier name : String) :
    conversionDecl specifier name = declarations specifier name := rfl

/-- A structure whose field types are known is written from the texts of its fields. -/
theorem generate_struct {type : StructureDataType}
    (hknown : ∀ field ∈ type.fields, (types.find field.dataType).isSome) :
    (DataType.struct type).generate types = some
      ⟨classHeader type.name (type.fields.map fun field => (fieldText types field).member),
        classImpl type.name (type.fields.map fun field => (fieldText types field).toVariant)
          (type.fields.map fun field => (fieldText types field).fromValue)⟩ := by
  have hfields : type.addFieldConversions types =
      some (String.join (type.fields.map fun field => (fieldText types field).toVariant)) := by
    unfold StructureDataType.addFieldConversions
    rw [fieldConversions hknown]
    rfl
  have himpl : type.addImpl types = some
      (classImpl type.name (type.fields.map fun field => (fieldText types field).toVariant)
        (type.fields.map fun field => (fieldText types field).fromValue)) := by
    unfold StructureDataType.addImpl StructureDataType.addToUAVariantImpl
      StructureDataType.addFromConversionImpl classImpl
    rw [hfields]
    show some (toUAVariantImpl _ _ _ ++ fromConversion _ _) = _
    unfold toUAVariantImpl fromConversion str_toupper
    simp only [String.append_assoc]
    rfl
  have hheader : type.openHeader ++ type.addHeader types ++ closeHeader ++ type.afterHeader =
      classHeader type.name (type.fields.map fun field => (fieldText types field).member) := by
    unfold StructureDataType.openHeader StructureDataType.addHeader closeHeader StructureDataType.afterHeader
      StructureDataType.addDataTypeTemplate classHeader str_toupper
    rw [addPrivateMember_eq, conversionDecl_eq]
    simp only [String.append_assoc]
    rfl
  show (type.addImpl types).bind _ = _
  rw [himpl, ← hheader]
  rfl

/-! ### Whole types -/

theorem enumStatement (types : TypeTable) (field : EnumDefinitionField) :
    EnumStatement types field (EnumDataType.addFromConversionFunction types field) := by
  unfold EnumStatement EnumDataType.addFromConversionFunction
  cases types.find field.dataType with
  | none => rfl
  | some t =>
    by_cases hrank : field.valueRank > 0
    · exact ⟨⟨true, t.isStruct, false⟩, (if_pos hrank).trans (arrayConversion_eq ..)⟩
    · obtain ⟨form, harray, _, helement⟩ := getScalarConversion_form t
      refine ⟨form, (if_neg hrank).trans ?_⟩
      rw [if_neg (by simp [harray])]
      exact helement _

theorem generate_enum (types : TypeTable) (type : EnumDataType) :
    (DataType.enum type).generate types = some
      ⟨enumHeader type.name (type.fields.map fun field => (field.name, field.value)),
        enumImpl type.name (type.fields.map (EnumDataType.addFromConversionFunction types))⟩ := by
  have himpl : type.addImpl types =
      enumImpl type.name (type.fields.map (EnumDataType.addFromConversionFunction types)) := by
    have hcast : "UA_Int32 uaval = " ++ castTo type.name "val" =
        "UA_Int32 uaval = static_cast<UA_" ++ type.name ++ ">(val);\n" := by
      unfold castTo
      apply String.ext
      simp [String.toList_append]
    have hcopy : "UA_Variant_setScalarCopy(var, &uaval, &UA_TYPES[UA_TYPES_" ++ "INT32" ++ "]);\n" =
        "UA_Variant_setScalarCopy(var, &uaval, &UA_TYPES[UA_TYPES_INT32]);\n" := rfl
    unfold EnumDataType.addImpl EnumDataType.addToUAVariantImpl EnumDataType.addFromConversionImpl
      toUAVariantImpl fromConversion enumImpl
    rw [hcast, ← hcopy]
    simp only [String.append_assoc]
  have hheader : type.openHeader ++ type.addHeader ++ closeHeader ++ type.afterHeader =
      enumHeader type.name (type.fields.map fun field => (field.name, field.value)) := by
    unfold EnumDataType.openHeader EnumDataType.addHeader EnumDataType.addEnumOrdinals closeHeader
      EnumDataType.afterHeader enumHeader
    rw [conversionDecl_eq, List.map_map]
    rfl
  rw [← himpl, ← hheader]
  rfl

/-- A type is generated exactly if the types of its fields are known, those of an enum aside. -/
theorem generate_isSome {type : StructureDataType} :
    ((DataType.struct type).generate types).isSome ↔
      ∀ field ∈ type.fields, (types.find field.dataType).isSome := by
  constructor
  · intro h
    have hfields : (type.fields.mapM (StructureDataType.addFromConversionFunction types)).isSome := by
      cases hfields : type.fields.mapM (StructureDataType.addFromConversionFunction types) with
      | none =>
        have hnone : type.addImpl types = none := by
          unfold StructureDataType.addImpl StructureDataType.addToUAVariantImpl
            StructureDataType.addFieldConversions
          rw [hfields]
          rfl
        have hnothing : (DataType.struct type).generate types = none := by
          show (type.addImpl types).bind _ = none
          rw [hnone]
          rfl
        rw [hnothing] at h
        exact h
      | some fills => rfl
    intro field hfield
    exact addFromConversionFunction_isSome.mp (MapM.isSome_iff.mp hfields field hfield)
  · intro hknown
    rw [generate_struct hknown]
    rfl

/-- What is written for an enum or a structure is its block. -/
theorem block_of_generate (ht : t.Generated) {text : Text} (h : t.generate types = some text) :
    Block types t text := by
  cases t with
  | base type => exact ht.elim
  | enum type =>
    rw [generate_enum] at h
    cases h
    refine .enum ?_
    rw [List.forall₂_map_right_iff, List.forall₂_same]
    exact fun field _ => enumStatement types field
  | struct type =>
    have hknown := generate_isSome.mp (Option.isSome_of_eq_some h)
    rw [generate_struct hknown] at h
    cases h
    have hfields : List.Forall₂ (FieldText.Of types) type.fields (type.fields.map (fieldText types)) := by
      rw [List.forall₂_map_right_iff, List.forall₂_same]
      intro field hfield
      obtain ⟨t, ht⟩ := Option.isSome_iff_exists.mp (hknown field hfield)
      obtain ⟨form, hhas, _⟩ := fieldText_has ht
      exact ⟨t, ht, _, form, form, hhas⟩
    have hblock := Block.struct hfields
    simp only [List.map_map] at hblock
    exact hblock

/-! ### Agreement -/

variable (types) in
/-- The class and the two conversion bodies of a structure are written from the texts of its
fields, and these agree on a field exactly if its rank is positive, or negative and its type is
no structure with an id up to 11. -/
theorem conversions_agree_iff (type : StructureDataType)
    (hknown : ∀ field ∈ type.fields, (types.find field.dataType).isSome) :
    ∃ text : StructureDefinitionField → FieldText,
      (DataType.struct type).generate types = some
        ⟨classHeader type.name (type.fields.map fun field => (text field).member),
          classImpl type.name (type.fields.map fun field => (text field).toVariant)
            (type.fields.map fun field => (text field).fromValue)⟩ ∧
      ∀ field ∈ type.fields, ∀ t, types.find field.dataType = some t →
        (∃ vector toVariant fromValue, (text field).Has field t vector toVariant fromValue) ∧
        ((text field).Agrees field t ↔ field.valueRank > 0 ∨ field.valueRank < 0 ∧ ¬ t.TakenForBuiltIn) := by
  refine ⟨fieldText types, generate_struct hknown, fun field _ t ht => ⟨?_, fieldText_agrees_iff ht⟩⟩
  obtain ⟨form, hhas, _⟩ := fieldText_has ht
  exact ⟨_, form, form, hhas⟩

/-- The texts a single field is written with do not agree where those of its forms do not. -/
theorem disagrees_of_fieldText {type : StructureDataType} (hfields : type.fields = [field])
    (h : types.find field.dataType = some t) (hforms : ¬ (fieldText types field).Agrees field t) :
    ¬ ∃ text : FieldText, (DataType.struct type).generate types = some
        ⟨classHeader type.name [text.member], classImpl type.name [text.toVariant] [text.fromValue]⟩ ∧
      text.Agrees field t := by
  intro ⟨text, hgenerate, vector, toVariant, fromValue, hhas, ⟨harrayTo, _⟩, hcallTo, _⟩
  have hknown : ∀ field ∈ type.fields, (types.find field.dataType).isSome := by
    rw [hfields]
    exact List.forall_mem_singleton.mpr (by rw [h]; rfl)
  rw [generate_struct hknown, hfields, Option.some.injEq, Text.mk.injEq] at hgenerate
  obtain ⟨form, hhas', _⟩ := fieldText_has h
  have hmember : (fieldText types field).member = text.member := by
    have hheader := hgenerate.1
    unfold classHeader at hheader
    simpa [String.append_assoc] using hheader
  have hstatement : ∃ rest rest', form.statement t.name field.name.decapitalize ++ rest =
      toVariant.statement t.name field.name.decapitalize ++ rest' := by
    have himpl := hgenerate.2
    unfold classImpl at himpl
    simp only [String.append_assoc, String.append_right_inj, List.map_singleton, String.join_cons,
      String.join_nil, String.empty_append, hhas.toVariant, hhas'.toVariant] at himpl
    exact ⟨_, _, himpl⟩
  obtain ⟨_, _, hstatement⟩ := hstatement
  obtain ⟨harray, hcall⟩ := Form.statement_injective hstatement
  have hvector := declaration_injective _ _ (hhas'.member.symm.trans (hmember.trans hhas.member))
  have hform : form.array = decide (field.valueRank > -1) := harray.trans (harrayTo.trans hvector.symm)
  have hstruct : form.call = t.isStruct := hcall.trans hcallTo
  exact hforms ⟨_, form, form, hhas', ⟨hform, hform⟩, hstruct, hstruct⟩

/-- A structure with an id up to 11, and structures with one field each. -/
def pointType : StructureDataType := ⟨"Point", ⟨1, .numeric 5⟩, []⟩
def routeType : StructureDataType := ⟨"Route", ⟨1, .numeric 3001⟩, [⟨"Points", 1, ⟨1, .numeric 5⟩⟩]⟩
def placeType : StructureDataType := ⟨"Place", ⟨1, .numeric 3002⟩, [⟨"Position", -1, ⟨1, .numeric 5⟩⟩]⟩
def sampleType : StructureDataType := ⟨"Sample", ⟨1, .numeric 3003⟩, [⟨"Values", 0, ⟨0, .numeric 6⟩⟩]⟩

def fieldTable : TypeTable :=
  (⟨0, .numeric 6⟩, .base ⟨"int32_t", ⟨0, .numeric 6⟩⟩) ::
    [pointType, routeType, placeType, sampleType].map fun type => (type.id, .struct type)

theorem conversions_agree_points :
    ∃ text : FieldText, (DataType.struct routeType).generate fieldTable =
        some ⟨classHeader "Route" [text.member], classImpl "Route" [text.toVariant] [text.fromValue]⟩ ∧
      text.Agrees ⟨"Points", 1, ⟨1, .numeric 5⟩⟩ (.struct pointType) := by
  obtain ⟨text, hgenerate, hfields⟩ := conversions_agree_iff fieldTable routeType (by decide)
  obtain ⟨_, hagrees⟩ := hfields _ (List.mem_singleton_self _) (.struct pointType) rfl
  exact ⟨text _, hgenerate, hagrees.mpr (.inl (by decide))⟩

/-- A field of rank 0 is declared as a vector and filled as a scalar; a structure with a small id
of any namespace is cast in the scalar form. -/
theorem rank_zero_disagrees :
    (¬ ∃ text : FieldText, (DataType.struct sampleType).generate fieldTable =
        some ⟨classHeader "Sample" [text.member], classImpl "Sample" [text.toVariant] [text.fromValue]⟩ ∧
      text.Agrees ⟨"Values", 0, ⟨0, .numeric 6⟩⟩ (.base ⟨"int32_t", ⟨0, .numeric 6⟩⟩)) ∧
    ¬ ∃ text : FieldText, (DataType.struct placeType).generate fieldTable =
        some ⟨classHeader "Place" [text.member], classImpl "Place" [text.toVariant] [text.fromValue]⟩ ∧
      text.Agrees ⟨"Position", -1, ⟨1, .numeric 5⟩⟩ (.struct pointType) := by
  constructor
  · refine disagrees_of_fieldText rfl rfl fun hagrees => ?_
    rcases (fieldText_agrees_iff rfl).mp hagrees with hrank | ⟨hrank, _⟩ <;> exact absurd hrank (by decide)
  · refine disagrees_of_fieldText rfl rfl fun hagrees => ?_
    rcases (fieldText_agrees_iff rfl).mp hagrees with hrank | ⟨_, htaken⟩
    · exact absurd hrank (by decide)
    · exact htaken ⟨5, rfl, by decide⟩

end ModernOpc.Gen
