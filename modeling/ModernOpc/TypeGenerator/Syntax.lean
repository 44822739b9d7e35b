import ModernOpc.Library.Brackets
import ModernOpc.TypeGenerator.Backend

/-! The brackets of the generated code.

Each function writes a text whose brackets close within it, if the names in it have none;
only the generator's constructor opens one that `finish` closes, in each of the streams.
So what `main` writes is balanced, for any nodesets (`main_balanced`). -/
namespace ModernOpc.Gen
open Library Library.Brackets

/-! ### C++ text -/

inductive Bracket where
  | round | square | curly
  deriving DecidableEq, Repr

/-- The brackets that are always such. -/
def bracketRole : Char → Role Bracket
  | '(' => .opens .round
  | ')' => .closes .round
  | '[' => .opens .square
  | ']' => .closes .square
  | '\x7b' => .opens .curly
  | '\x7d' => .closes .curly
  | _ => .plain

/-- `Moves` for strings. -/
def Writes (before after : List Bracket) (text : String) : Prop := Moves bracketRole before after text.toList

/-- A name without a bracket. -/
def Plain (name : String) : Prop := ∀ c ∈ name.toList, bracketRole c = .plain

instance (name : String) : Decidable (Plain name) := List.decidableBAll _ _

namespace Writes
variable {before mid after : List Bracket} {s t : String}

theorem literal (h : scan bracketRole before s.toList = some after) : Writes before after s := .of_scan h

theorem append (hs : Writes before mid s) (ht : Writes mid after t) : Writes before after (s ++ t) := by
  unfold Writes
  rw [String.toList_append]
  exact Moves.append hs ht

theorem join {texts : List String} (h : ∀ t ∈ texts, Writes [] [] t) : Writes [] [] (String.join texts) := by
  unfold Writes
  rw [String.toList_join]
  exact Neutral.flatMap h

/-- A text that closes what it opens can stand anywhere. -/
theorem anywhere (h : Writes [] [] s) : Writes before before s := Neutral.moves h before

end Writes

theorem Plain.writes {name : String} (h : Plain name) (opened : List Bracket) : Writes opened opened name :=
  (Neutral.of_plain h).moves opened

/-! ### Names -/

theorem plain_iff (c : Char) :
    bracketRole c = .plain ↔ c ∉ ['(', ')', '[', ']', '\x7b', '\x7d'] := by
  unfold bracketRole
  split <;> simp_all

/-- A change of case makes no bracket. -/
theorem plain_of_letter {c d : Char} (h : bracketRole c = .plain) (hd : d = c ∨ d.isAlpha) :
    bracketRole d = .plain := by
  rcases hd with rfl | hd
  · exact h
  · rw [plain_iff]
    intro hmem
    simp only [List.mem_cons, List.not_mem_nil, or_false] at hmem
    rcases hmem with rfl | rfl | rfl | rfl | rfl | rfl <;> cases hd

theorem toUpper_cases (c : Char) : c.toUpper = c ∨ c.toUpper.isAlpha := by
  unfold Char.toUpper
  split
  · next h =>
    refine .inr ?_
    unfold Char.isAlpha Char.isUpper
    simp only [Bool.or_eq_true, decide_eq_true_eq]
    refine .inl ?_
    simp only [ge_iff_le, UInt32.le_iff_toNat_le, UInt32.toNat_add] at h ⊢
    simp at h ⊢
    omega
  · exact .inl rfl

theorem toLower_cases (c : Char) : c.toLower = c ∨ c.toLower.isAlpha := by
  unfold Char.toLower
  split
  · next h =>
    refine .inr ?_
    unfold Char.isAlpha Char.isLower
    simp only [Bool.or_eq_true, Bool.and_eq_true, decide_eq_true_eq]
    refine .inr ?_
    simp only [ge_iff_le, UInt32.le_iff_toNat_le, UInt32.toNat_add] at h ⊢
    simp at h ⊢
    omega
  · exact .inl rfl

theorem toList_firstToLow (s : String) : (firstToLow s).toList = s.toList.modifyHead Char.toLower := by
  unfold firstToLow String.decapitalize String.Pos.Raw.set String.Pos.Raw.get
  rw [String.toList_ofList]
  cases s.toList with
  | nil => rfl
  | cons c rest => rfl

theorem Plain.firstToLow {s : String} (h : Plain s) : Plain (Gen.firstToLow s) := by
  unfold Plain at h ⊢
  rw [toList_firstToLow]
  cases hs : s.toList with
  | nil => exact fun d hd => by cases hd
  | cons c rest =>
    rw [hs] at h
    intro d hd
    rcases List.mem_cons.mp hd with rfl | hd
    · exact plain_of_letter (h c (List.mem_cons_self ..)) (toLower_cases c)
    · exact h d (List.mem_cons_of_mem _ hd)

theorem Plain.str_toupper {s : String} (h : Plain s) : Plain (Gen.str_toupper s) := by
  unfold Plain Gen.str_toupper String.toUpper
  rw [String.toList_map]
  intro d hd
  obtain ⟨c, hc, rfl⟩ := List.mem_map.mp hd
  exact plain_of_letter (h c hc) (toUpper_cases c)

theorem plain_number (i : Int) : Plain (toString i) := by
  have hdigits : ∀ n : Nat, ∀ c ∈ (toString n).toList, bracketRole c = .plain := by
    intro n c hc
    rw [plain_iff]
    intro hbracket
    have hdigit : c.isDigit = false := by
      simp only [List.mem_cons, List.not_mem_nil, or_false] at hbracket
      rcases hbracket with rfl | rfl | rfl | rfl | rfl | rfl <;> rfl
    exact not_mem_toDigits hdigit n (by rwa [← Nat.toList_repr])
  cases i with
  | ofNat n => exact hdigits n
  | negSucc n =>
    intro c hc
    have hneg : (toString (Int.negSucc n)).toList = '-' :: (toString (n + 1)).toList := by
      show ("-" ++ toString (n + 1)).toList = _
      rw [String.toList_append]
      rfl
    rw [hneg] at hc
    rcases List.mem_cons.mp hc with rfl | hc
    · rfl
    · exact hdigits (n + 1) c hc

/-! ### The texts of a type -/

/-- The names in a type have no brackets. -/
def DataType.Plain : DataType → Prop
  | base type => Gen.Plain type.name
  | enum type => Gen.Plain type.name ∧ ∀ field ∈ type.fields, Gen.Plain field.name
  | struct type => Gen.Plain type.name ∧ ∀ field ∈ type.fields, Gen.Plain field.name

instance : DecidablePred DataType.Plain
  | .base _ => inferInstanceAs (Decidable (Gen.Plain _))
  | .enum _ | .struct _ => inferInstanceAs (Decidable (_ ∧ _))

theorem DataType.Plain.name {t : DataType} (h : t.Plain) : Gen.Plain t.name := by
  cases t with
  | base type => exact h
  | enum type => exact h.1
  | struct type => exact h.1

/-- So of all the types of a table. -/
def TypeTable.Plain (types : TypeTable) : Prop := ∀ id t, types.find id = some t → t.Plain

section Texts
variable {types : TypeTable} {name n : String}

theorem castTo_writes (hname : Plain name) {value : String} (hvalue : Writes [.round] [.round] value) :
    Writes [] [] (castTo name value) := by
  unfold castTo
  repeat' first
    | with_reducible exact hname.writes _
    | with_reducible exact hvalue
    | with_reducible apply Writes.append
    | exact Writes.literal rfl

theorem getScalarConversion_writes {t : DataType} (ht : t.Plain) (hn : Plain n) :
    Writes [] [] (t.getScalarConversion n) := by
  have hcast : Writes [] [] (castTo t.name ("val." ++ n)) :=
    castTo_writes ht.name (.append (.literal rfl) (hn.writes _))
  have hfrom : Writes [] [] ("from" ++ t.name ++ "(val." ++ n ++ ");\n") := by
    repeat' first
      | with_reducible exact ht.name.writes _
      | with_reducible exact hn.writes _
      | with_reducible apply Writes.append
      | exact Writes.literal rfl
  cases t with
  | base type => exact hcast
  | enum type => exact hcast
  | struct type =>
    show Writes [] [] (type.getScalarConversion n)
    unfold StructureDataType.getScalarConversion
    split
    · split
      · exact .append (.literal rfl) hcast
      · exact hfrom
    · exact hfrom

theorem getArrayConversion_writes {t : DataType} (ht : t.Plain) (hn : Plain n) :
    Writes [] [] (t.getArrayConversion n) := by
  have helement : Writes [.round] [.round] ("val." ++ n ++ "[i]") :=
    .append (.append (.literal rfl) (hn.writes _)) (.literal rfl)
  cases t with
  | base type => exact castTo_writes ht helement
  | enum type => exact castTo_writes ht.1 helement
  | struct type =>
    have hname : Plain type.name := ht.1
    show Writes [] [] ("from" ++ type.name ++ "(val." ++ n ++ "[i]);\n")
    repeat' first
      | with_reducible exact hname.writes _
      | with_reducible exact hn.writes _
      | with_reducible apply Writes.append
      | exact Writes.literal rfl

theorem arrayConversion_writes {t : DataType} (ht : t.Plain) {field : DataTypeDefinitionField}
    (hfield : Plain field.name) : Writes [] [] (arrayConversion field t) := by
  have hn := hfield.firstToLow
  have helement := getArrayConversion_writes ht hn
  unfold arrayConversion
  repeat' first
    | with_reducible exact hn.writes _
    | with_reducible exact ht.name.writes _
    | with_reducible exact ht.name.str_toupper.writes _
    | with_reducible exact helement.anywhere
    | with_reducible apply Writes.append
    | exact Writes.literal rfl

theorem fromConversion_writes (hname : Plain name) {fields : String} (hfields : Writes [] [] fields) :
    Writes [] [] (fromConversion name fields) := by
  unfold fromConversion
  repeat' first
    | with_reducible exact hname.writes _
    | with_reducible exact hfields.anywhere
    | with_reducible apply Writes.append
    | exact Writes.literal rfl

theorem toUAVariantImpl_writes {type : String} (hname : Plain name) (htype : Plain type) {makesValue : String}
    (hvalue : Writes [] [] makesValue) : Writes [] [] (toUAVariantImpl name makesValue type) := by
  unfold toUAVariantImpl
  repeat' first
    | with_reducible exact hname.writes _
    | with_reducible exact htype.writes _
    | with_reducible exact hvalue.anywhere
    | with_reducible apply Writes.append
    | exact Writes.literal rfl

theorem conversionDecl_writes {specifier : String} (hspecifier : Plain specifier) (hname : Plain name)
    {opened : List Bracket} : Writes opened opened (conversionDecl specifier name) := by
  refine Writes.anywhere ?_
  unfold conversionDecl
  repeat' first
    | with_reducible exact hspecifier.writes _
    | with_reducible exact hname.writes _
    | with_reducible apply Writes.append
    | exact Writes.literal rfl

/-! ### What is generated for a type -/

section Generate
variable (htypes : types.Plain)
include htypes

theorem enumImpl_writes {type : EnumDataType} (h : (DataType.enum type).Plain) :
    Writes [] [] (type.addImpl types) := by
  obtain ⟨hname, hfields⟩ := h
  have hconversions :
      Writes [] [] (String.join (type.fields.map (EnumDataType.addFromConversionFunction types))) := by
    refine .join fun text htext => ?_
    obtain ⟨field, hfield, rfl⟩ := List.mem_map.mp htext
    unfold EnumDataType.addFromConversionFunction
    split
    · exact .literal rfl
    · next t ht =>
      split
      · exact arrayConversion_writes (htypes _ t ht) (hfields field hfield)
      · exact getScalarConversion_writes (htypes _ t ht) (hfields field hfield).firstToLow
  have hvalue : Writes [] [] ("UA_Int32 uaval = " ++ castTo type.name "val") :=
    .append (.literal rfl) (castTo_writes hname (.literal rfl))
  exact .append (toUAVariantImpl_writes hname (by decide) hvalue) (fromConversion_writes hname hconversions)

theorem fieldConversions_writes {type : StructureDataType} (h : (DataType.struct type).Plain) {text : String}
    (htext : type.addFieldConversions types = some text) : Writes [] [] text := by
  obtain ⟨texts, htexts, rfl⟩ := Option.map_eq_some_iff.mp htext
  refine .join fun text hmem => ?_
  obtain ⟨field, hfield, hwritten⟩ := MapM.exists_of_mem htexts hmem
  obtain ⟨t, ht, hconverted⟩ := Option.bind_eq_some_iff.mp hwritten
  have hn := h.2 field hfield
  by_cases hrank : field.valueRank > 0
  · rw [if_pos hrank, Option.pure_def, Option.some.injEq] at hconverted
    exact hconverted ▸ arrayConversion_writes (htypes _ t ht) hn
  · rw [if_neg hrank, Option.pure_def, Option.some.injEq] at hconverted
    have hmember : Writes [] [] ("uaval." ++ firstToLow field.name ++ " = ") :=
      .append (.append (.literal rfl) (hn.firstToLow.writes _)) (.literal rfl)
    exact hconverted ▸ hmember.append (getScalarConversion_writes (htypes _ t ht) hn.firstToLow)

theorem structImpl_writes {type : StructureDataType} (h : (DataType.struct type).Plain) {text : String}
    (htext : type.addImpl types = some text) : Writes [] [] text := by
  obtain ⟨toVariant, hto, htext⟩ := Option.bind_eq_some_iff.mp htext
  obtain ⟨fromClass, hfrom, htext⟩ := Option.bind_eq_some_iff.mp htext
  obtain ⟨fields, hfields, hto⟩ := Option.bind_eq_some_iff.mp hto
  obtain ⟨fields', hfields', hfrom⟩ := Option.bind_eq_some_iff.mp hfrom
  cases hto
  cases hfrom
  cases htext
  have hvalue : Writes [] [] ("UA_" ++ type.name ++ " uaval;\n" ++ fields) :=
    .append (.append (.append (.literal rfl) (h.1.writes _)) (.literal rfl))
      (fieldConversions_writes htypes h hfields)
  exact .append (toUAVariantImpl_writes h.1 h.1.str_toupper hvalue)
    (fromConversion_writes h.1 (fieldConversions_writes htypes h hfields'))

theorem members_writes {type : StructureDataType} (h : (DataType.struct type).Plain) :
    Writes [] [] (type.addPrivateMember types) := by
  refine .append (.literal rfl) (.join fun text hmem => ?_)
  obtain ⟨field, hfield, rfl⟩ := List.mem_map.mp hmem
  have hn := (h.2 field hfield).firstToLow
  split
  · next t2 ht2 =>
    have ht := (htypes _ t2 ht2).name
    split
    · repeat' first
        | with_reducible exact ht.writes _ | with_reducible exact hn.writes _ | with_reducible apply Writes.append
        | exact Writes.literal rfl
    · repeat' first
        | with_reducible exact ht.writes _ | with_reducible exact hn.writes _ | with_reducible apply Writes.append
        | exact Writes.literal rfl
  · exact .literal rfl

/-- What is generated for a type closes what it opens, in both streams. -/
theorem generate_writes {t : DataType} (h : t.Plain) {text : Text} (htext : t.generate types = some text) :
    Writes [] [] text.header ∧ Writes [] [] text.impl := by
  cases t with
  | base type =>
    cases htext
    exact ⟨.literal rfl, .literal rfl⟩
  | enum type =>
    cases htext
    obtain ⟨hname, hfields⟩ := h
    have hopen : Writes [] [.curly] type.openHeader :=
      .append (.append (.literal rfl) (hname.writes _)) (.literal rfl)
    have hordinals : Writes [] [] type.addHeader := by
      refine .join fun text hmem => ?_
      obtain ⟨field, hfield, rfl⟩ := List.mem_map.mp hmem
      have hfield := (hfields field hfield).str_toupper
      have hvalue : Plain (toString field.value) := plain_number field.value.toInt
      repeat' first
        | with_reducible exact hname.str_toupper.writes _
        | with_reducible exact hfield.writes _
        | with_reducible exact hvalue.writes _
        | with_reducible apply Writes.append
        | exact Writes.literal rfl
    have hheader : Writes [] [] (type.openHeader ++ type.addHeader ++ closeHeader) :=
      .append (.append hopen hordinals.anywhere) (.literal rfl)
    exact ⟨hheader.append (conversionDecl_writes (by decide) hname), enumImpl_writes htypes ⟨hname, hfields⟩⟩
  | struct type =>
    obtain ⟨impl, himpl, htext⟩ := Option.bind_eq_some_iff.mp htext
    cases htext
    have hname := h.1
    have hopen : Writes [] [.curly] type.openHeader :=
      .append (.append (.literal rfl) (hname.writes _)) (.literal rfl)
    have hmembers : Writes [.curly] [.curly] (type.addHeader types) :=
      .append (conversionDecl_writes (by decide) hname) (members_writes htypes h).anywhere
    have hafter : Writes [] [] type.afterHeader := by
      show Writes [] [] type.addDataTypeTemplate
      unfold StructureDataType.addDataTypeTemplate
      repeat' first
        | with_reducible exact hname.writes _
        | with_reducible exact hname.str_toupper.writes _
        | with_reducible apply Writes.append
        | exact Writes.literal rfl
    have hheader : Writes [] [] (type.openHeader ++ type.addHeader types ++ closeHeader) :=
      .append (.append hopen hmembers) (.literal rfl)
    exact ⟨hheader.append hafter, structImpl_writes htypes h himpl⟩

end Generate

end Texts

/-! ### The streams -/

namespace TypeGenerator
variable {types : TypeTable} {g g' : TypeGenerator}

/-- The namespace is open in both streams, and nothing else. -/
structure Opened (g : TypeGenerator) : Prop where
  header : Writes [] [.curly] g.header
  impl : Writes [] [.curly] g.impl

theorem new_opened {ns : String} (h : Plain ns) : (new ns).Opened where
  header := .append (.append (.literal rfl) (h.writes _)) (.literal rfl)
  impl := .append (.append (.literal rfl) (h.writes _)) (.literal rfl)

theorem Opened.addIncludes (h : g.Opened) : g.addIncludes.Opened := by
  obtain ⟨hheader, himpl⟩ := h
  constructor
  · exact .append (.append (.append hheader (.literal rfl)) (.literal rfl)) (.literal rfl)
  · exact .append (.append (.append (.append (.append himpl (.literal rfl)) (.literal rfl)) (.literal rfl))
      (.literal rfl)) (.literal rfl)

theorem Opened.generateAll (htypes : types.Plain) {order : List NodeId} (h : g.Opened)
    (hg : TypeGenerator.generateAll types order g = some g') : g'.Opened := by
  induction order generalizing g with
  | nil =>
    cases hg
    exact h
  | cons id rest ih =>
    unfold TypeGenerator.generateAll at hg
    split at hg
    · exact ih h hg
    · obtain ⟨t, ht, hg⟩ := Option.bind_eq_some_iff.mp hg
      obtain ⟨text, htext, hg⟩ := Option.bind_eq_some_iff.mp hg
      obtain ⟨hheader, himpl⟩ := generate_writes htypes (htypes id t ht) htext
      refine ih ?_ hg
      exact ⟨h.header.append hheader.anywhere, h.impl.append himpl.anywhere⟩

theorem Opened.generateClass (htypes : types.Plain) {fuel : Nat} {root : DataType} (h : g.Opened)
    (hg : g.generateClass types fuel root = some g') : g'.Opened := by
  obtain ⟨⟨order, built⟩, _, hg⟩ := Option.bind_eq_some_iff.mp hg
  dsimp only at hg
  split at hg
  · have hincluded : (TypeGenerator.addIncludes {g with order}).Opened := Opened.addIncludes ⟨h.header, h.impl⟩
    exact Opened.generateAll htypes hincluded hg
  · cases hg
    exact ⟨h.header, h.impl⟩

theorem Opened.finish (h : g.Opened) :
    Balanced bracketRole g.finish.header.toList ∧ Balanced bracketRole g.finish.impl.toList :=
  ⟨Moves.balanced (h.header.append (.literal rfl)), Moves.balanced (h.impl.append (.literal rfl))⟩

end TypeGenerator

/-! ### What `main` writes -/

/-- The names a nodeset gives a data type and its fields have no brackets. -/
def TNode.Plain (node : TNode) : Prop :=
  Gen.Plain node.browseName ∧ ∀ definition ∈ node.definition, ∀ field ∈ definition.fields, Gen.Plain field.name

instance (node : TNode) : Decidable node.Plain :=
  inferInstanceAs (Decidable (Gen.Plain node.browseName ∧
    ∀ definition ∈ node.definition, ∀ field ∈ definition.fields, Gen.Plain field.name))

theorem structureField_name {field : TDefinitionField} {read : StructureDefinitionField}
    (h : structureField field = some read) : read.name = field.name := by
  obtain ⟨id, _, h⟩ := Option.bind_eq_some_iff.mp h
  cases h
  rfl

theorem makeType_plain {node : TNode} (h : node.Plain) {type : DataType} (htype : makeType node = some type) :
    type.Plain := by
  obtain ⟨definition, hdefinition, htype⟩ := Option.bind_eq_some_iff.mp htype
  obtain ⟨id, _, htype⟩ := Option.bind_eq_some_iff.mp htype
  have hnames := h.2 definition hdefinition
  split at htype
  · obtain ⟨fields, hfields, htype⟩ := Option.bind_eq_some_iff.mp htype
    cases htype
    refine ⟨h.1, fun read hread => ?_⟩
    obtain ⟨field, hfield, hmade⟩ := MapM.exists_of_mem hfields hread
    obtain ⟨read', hread', hmade⟩ := Option.bind_eq_some_iff.mp hmade
    cases hmade
    exact structureField_name hread' ▸ hnames field hfield
  · obtain ⟨fields, hfields, htype⟩ := Option.bind_eq_some_iff.mp htype
    cases htype
    refine ⟨h.1, fun read hread => ?_⟩
    obtain ⟨field, hfield, hmade⟩ := MapM.exists_of_mem hfields hread
    exact structureField_name hmade ▸ hnames field hfield

theorem loaded_plain {files : List Nodeset} (h : ∀ node ∈ loadedNodes files, node.Plain) {types : TypeTable}
    {loaded : Bool} (hload : loadAll files builtinTypes = some (types, loaded)) : types.Plain := by
  intro id t ht
  rw [(loadAll_eq_some hload).1.find] at ht
  rcases Option.or_eq_some_iff.mp ht with ht | ⟨_, ht⟩
  · have hbuiltin : ∀ entry ∈ builtinTypes, entry.2.Plain := by decide
    exact hbuiltin _ (TypeTable.mem_of_find ht)
  · obtain ⟨node, hnode, hentry⟩ := List.mem_filterMap.mp (TypeTable.mem_of_find ht)
    unfold entryOf at hentry
    split at hentry
    · obtain ⟨type, htype, he⟩ := Option.map_eq_some_iff.mp hentry
      cases he
      exact makeType_plain (h node hnode) htype
    · cases hentry

/-- Whatever nodesets are loaded, if their names have no brackets, both files that `main`
writes are balanced. -/
theorem main_balanced (fuel : Nat) {files : List Nodeset} (h : ∀ node ∈ loadedNodes files, node.Plain)
    {g : TypeGenerator} (hmain : main fuel files = some (0, some g)) :
    Balanced bracketRole g.header.toList ∧ Balanced bracketRole g.impl.toList := by
  unfold main at hmain
  split at hmain
  · cases hmain
  · obtain ⟨⟨types, loaded⟩, hload, hmain⟩ := Option.bind_eq_some_iff.mp hmain
    dsimp only at hmain
    split at hmain
    · obtain ⟨root, hroot, hmain⟩ := Option.bind_eq_some_iff.mp hmain
      obtain ⟨generated, hgenerated, hmain⟩ := Option.bind_eq_some_iff.mp hmain
      cases hmain
      exact ((TypeGenerator.new_opened (by decide)).generateClass (loaded_plain h hload) hgenerated).finish
    · cases hmain

theorem main_balanced_application : ∃ g : TypeGenerator, main 4 [applicationTypes] = some (0, some g) ∧
    Balanced bracketRole g.header.toList ∧ Balanced bracketRole g.impl.toList := by
  have hmain : ∃ g, main 4 [applicationTypes] = some (0, some g) := ⟨_, rfl⟩
  obtain ⟨g, hg⟩ := hmain
  exact ⟨g, hg, main_balanced 4 (by decide) hg⟩

end ModernOpc.Gen
