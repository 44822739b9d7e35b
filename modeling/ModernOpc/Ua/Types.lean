import ModernOpc.Library.Bytes

/-! The open62541 types the wrapper converts to and from.

Strings are byte strings: a `std::string` and a `UA_String` both carry their
length, and neither reads its data pointer when that length is zero. What
open62541 builds from a C string stops at the first zero byte.

A `UA_Variant` records a type, a data pointer, an array length and dimensions. Its
data pointer is null, the empty-array sentinel, or the address of a block of
elements; the element's constructor is the type the block was written with, so a
read at another type has no result. -/
namespace ModernOpc

namespace Ua
open Library.Bytes

/-! ### Status codes -/

/-- `UA_StatusCode`. -/
abbrev StatusCode := UInt32

def StatusCode.good : StatusCode := 0
def StatusCode.badMethodInvalid : StatusCode := 0x80750000
def StatusCode.badArgumentsMissing : StatusCode := 0x80760000
def StatusCode.badTooManyArguments : StatusCode := 0x80E50000
def StatusCode.badInvalidArgument : StatusCode := 0x80AB0000
def StatusCode.badNoData : StatusCode := 0x809B0000
def StatusCode.badNodeIdUnknown : StatusCode := 0x80340000
def StatusCode.badTypeMismatch : StatusCode := 0x80740000

/-- A bad status: the first bit of the severity. -/
def StatusCode.Bad (c : StatusCode) : Prop := 0x80000000 ≤ c

instance (c : StatusCode) : Decidable c.Bad := inferInstanceAs (Decidable (_ ≤ _))

/-- A good status: no bit of the severity. -/
def StatusCode.Good (c : StatusCode) : Prop := c < 0x40000000

instance (c : StatusCode) : Decidable c.Good := inferInstanceAs (Decidable (_ < _))

theorem StatusCode.good_not_bad : ¬ StatusCode.good.Bad := by decide

/-! ### Strings -/

/-- `UA_STRING` and `UA_STRING_ALLOC` (`UA_BYTESTRING` as well) on a C string. -/
def string (chars : Bytes) : Bytes := cString chars

/-- `UA_String_equal`: the lengths, then the bytes. -/
def stringEqual (a b : Bytes) : Bool := a.length == b.length && a == b

@[simp] theorem stringEqual_iff (a b : Bytes) : stringEqual a b = true ↔ a = b := by
  unfold stringEqual
  constructor
  · intro h
    simp only [Bool.and_eq_true, beq_iff_eq] at h
    exact h.2
  · intro he
    subst he
    simp

/-! ### Identifiers and names -/

/-- `UA_Guid`. -/
structure Guid where
  data1 : UInt32
  data2 : UInt16
  data3 : UInt16
  data4 : Vector UInt8 8
  deriving DecidableEq, Repr

/-- `identifierType` and the union member it selects. -/
inductive Identifier where
  | numeric (n : UInt32)
  | string (s : Bytes)
  | guid (g : Guid)
  | byteString (s : Bytes)
  deriving DecidableEq, Repr

/-- `UA_NodeId`. -/
structure NodeId where
  namespaceIndex : UInt16
  identifier : Identifier
  deriving DecidableEq, Repr

/-- `UA_NodeId_equal`. -/
def NodeId.equal (a b : NodeId) : Bool :=
  a.namespaceIndex == b.namespaceIndex &&
    match a.identifier, b.identifier with
    | .numeric m, .numeric n => m == n
    | .string s, .string t => stringEqual s t
    | .guid g, .guid h => g == h
    | .byteString s, .byteString t => stringEqual s t
    | _, _ => false

@[simp] theorem NodeId.equal_iff (a b : NodeId) : a.equal b = true ↔ a = b := by
  obtain ⟨ns, i⟩ := a
  obtain ⟨ns', i'⟩ := b
  cases i <;> cases i' <;> simp [NodeId.equal]

/-- `UA_ExpandedNodeId`. -/
structure ExpandedNodeId where
  nodeId : NodeId
  namespaceUri : Bytes
  serverIndex : UInt32
  deriving DecidableEq, Repr

/-- `UA_ExpandedNodeId_equal`. -/
def ExpandedNodeId.equal (a b : ExpandedNodeId) : Bool :=
  a.serverIndex == b.serverIndex && stringEqual a.namespaceUri b.namespaceUri && a.nodeId.equal b.nodeId

@[simp] theorem ExpandedNodeId.equal_iff (a b : ExpandedNodeId) : a.equal b = true ↔ a = b := by
  obtain ⟨node, uri, server⟩ := a
  obtain ⟨node', uri', server'⟩ := b
  simp only [equal, Bool.and_eq_true, beq_iff_eq, stringEqual_iff, NodeId.equal_iff, mk.injEq]
  exact ⟨fun ⟨⟨hs, hu⟩, hn⟩ => ⟨hn, hu, hs⟩, fun ⟨hn, hu, hs⟩ => ⟨⟨hs, hu⟩, hn⟩⟩

/-- `UA_QualifiedName`. -/
structure QualifiedName where
  namespaceIndex : UInt16
  name : Bytes
  deriving DecidableEq, Repr

/-- `UA_QualifiedName_equal`. -/
def QualifiedName.equal (a b : QualifiedName) : Bool :=
  a.namespaceIndex == b.namespaceIndex && stringEqual a.name b.name

@[simp] theorem QualifiedName.equal_iff (a b : QualifiedName) : a.equal b = true ↔ a = b := by
  cases a
  cases b
  simp [equal]

/-- `UA_LocalizedText`. -/
structure LocalizedText where
  locale : Bytes
  text : Bytes
  deriving DecidableEq, Repr

/-! ### Data types -/

/-- `UA_DataTypeKind`, in the order of open62541. -/
inductive TypeKind where
  | boolean | sbyte | byte | int16 | uint16 | int32 | uint32 | int64 | uint64
  | float | double | string | dateTime | guid | byteString | xmlElement
  | nodeId | expandedNodeId | statusCode | qualifiedName | localizedText
  | extensionObject | dataValue | variant | diagnosticInfo
  | decimal | enum | struct | optStruct | union | bitfieldCluster
  deriving DecidableEq, Repr

/-- `UA_DataType`: the id and the kind. Types are compared by address; an id names one type. -/
structure DataType where
  typeId : NodeId
  typeKind : TypeKind
  deriving DecidableEq, Repr

/-- The entry of `UA_TYPES` for a built-in kind. The ids are those of the standard. -/
def builtin (k : TypeKind) : DataType :=
  ⟨⟨0, .numeric (UInt32.ofNat (k.ctorIdx + 1))⟩, k⟩

/-! ### Variants -/

/-- One element of a data block, tagged with the type it was written as. Floats are
their bit patterns: nothing here computes with them. -/
inductive Value where
  | boolean (b : Bool)
  | sbyte (i : Int8)
  | byte (n : UInt8)
  | int16 (i : Int16)
  | uint16 (n : UInt16)
  | int32 (i : Int32)
  | uint32 (n : UInt32)
  | int64 (i : Int64)
  | uint64 (n : UInt64)
  | float (bits : UInt32)
  | double (bits : UInt64)
  | string (s : Bytes)
  | dateTime (t : Int64)
  | guid (g : Guid)
  | byteString (s : Bytes)
  | xmlElement (s : Bytes)
  | nodeId (n : NodeId)
  | expandedNodeId (n : ExpandedNodeId)
  | statusCode (c : StatusCode)
  | qualifiedName (q : QualifiedName)
  | localizedText (t : LocalizedText)
  | opaqueBytes (s : Bytes)
  deriving DecidableEq, Repr

/-- The `data` pointer of a `UA_Variant`. -/
inductive Data where
  | null
  | sentinel
  | block (elems : List Value)
  deriving DecidableEq, Repr

/-- `UA_Variant`. The storage type is always `UA_VARIANT_DATA` and is left out. -/
structure Variant where
  type : Option DataType
  arrayLength : Nat
  data : Data
  arrayDimensions : List UInt32
  deriving DecidableEq, Repr

/-- `UA_Variant_init`: all zero. -/
def Variant.init : Variant := ⟨none, 0, .null, []⟩

instance : Inhabited Variant := ⟨.init⟩

/-- `UA_Variant_isEmpty`. -/
def Variant.isEmpty (v : Variant) : Bool := v.type.isNone

/-- `UA_Variant_isScalar`: no array length, and a data pointer above the sentinel. -/
def Variant.isScalar (v : Variant) : Bool :=
  v.arrayLength == 0 &&
    match v.data with
    | .block _ => true
    | _ => false

/-- `UA_Variant_setScalarCopy`. -/
def Variant.setScalarCopy (x : Value) (t : DataType) : Variant := ⟨some t, 0, .block [x], []⟩

/-- `UA_Variant_setArrayCopy` from `source`, `none` for a null pointer: an array of no
elements copies to a null pointer or to the sentinel. -/
def Variant.setArrayCopy (source : Option (List Value)) (t : DataType) : Variant :=
  match source with
  | none => ⟨some t, 0, .null, []⟩
  | some [] => ⟨some t, 0, .sentinel, []⟩
  | some (x :: xs) => ⟨some t, (x :: xs).length, .block (x :: xs), []⟩

/-- The kind an element was written as. -/
def Value.kind : Value → TypeKind
  | .boolean _ => .boolean
  | .sbyte _ => .sbyte
  | .byte _ => .byte
  | .int16 _ => .int16
  | .uint16 _ => .uint16
  | .int32 _ => .int32
  | .uint32 _ => .uint32
  | .int64 _ => .int64
  | .uint64 _ => .uint64
  | .float _ => .float
  | .double _ => .double
  | .string _ => .string
  | .dateTime _ => .dateTime
  | .guid _ => .guid
  | .byteString _ => .byteString
  | .xmlElement _ => .xmlElement
  | .nodeId _ => .nodeId
  | .expandedNodeId _ => .expandedNodeId
  | .statusCode _ => .statusCode
  | .qualifiedName _ => .qualifiedName
  | .localizedText _ => .localizedText
  | .opaqueBytes _ => .struct

/-! ### Floating point

`==` on bit patterns: a NaN equals nothing, and the two zeros equal each other. -/

def floatNaN (a : UInt32) : Bool := a &&& 0x7FFFFFFF > 0x7F800000
def doubleNaN (a : UInt64) : Bool := a &&& 0x7FFFFFFFFFFFFFFF > 0x7FF0000000000000

/-- `==` of `float`. -/
def floatEqual (a b : UInt32) : Bool :=
  !floatNaN a && !floatNaN b && (a == b || (a <<< 1 == 0 && b <<< 1 == 0))

/-- `==` of `double`. -/
def doubleEqual (a b : UInt64) : Bool :=
  !doubleNaN a && !doubleNaN b && (a == b || (a <<< 1 == 0 && b <<< 1 == 0))

/-- The elements the data pointer leads to. -/
def Variant.elements (v : Variant) : List Value :=
  match v.data with
  | .block xs => xs
  | _ => []

theorem Variant.data_of_elements {v : Variant} {x : Value} {xs : List Value} (h : v.elements = x :: xs) :
    v.data = .block (x :: xs) := by
  unfold elements at h
  split at h
  · next hdata => rw [hdata, h]
  · cases h

theorem Variant.arrayLength_of_scalar {v : Variant} (h : v.isScalar = true) : v.arrayLength = 0 := by
  simp only [isScalar, Bool.and_eq_true, beq_iff_eq] at h
  exact h.1

/-- What open62541 keeps true of a Variant that is not empty: its elements have its type,
a type with the id of a built-in type is that type, a scalar has one element and an
array as many as its length says. -/
structure Variant.WellFormed (v : Variant) : Prop where
  typed : ∃ t, v.type = some t ∧ (∀ x ∈ v.elements, x.kind = t.typeKind) ∧
    ∀ k, t.typeId = (builtin k).typeId → t = builtin k
  scalar : v.isScalar = true → v.elements.length = 1
  array : v.isScalar = false → v.elements.length = v.arrayLength

/-- The built-in types have different ids. -/
theorem builtin_injective {k l : TypeKind} (h : (builtin k).typeId = (builtin l).typeId) : k = l := by
  have hbound : ∀ k : TypeKind, k.ctorIdx < 31 := fun k => by cases k <;> decide
  have hnumber : UInt32.ofNat (k.ctorIdx + 1) = UInt32.ofNat (l.ctorIdx + 1) :=
    Identifier.numeric.inj (NodeId.mk.inj h).2
  have hindex : k.ctorIdx = l.ctorIdx := by
    have hk := hbound k
    have hl := hbound l
    have hmod := congrArg UInt32.toNat hnumber
    simp only [UInt32.toNat_ofNat'] at hmod
    omega
  calc k
    _ = TypeKind.ofNat k.ctorIdx := (TypeKind.ofNat_ctorIdx k).symm
    _ = TypeKind.ofNat l.ctorIdx := by rw [hindex]
    _ = l := TypeKind.ofNat_ctorIdx l

theorem builtin_registered (k : TypeKind) :
    ∀ l, (builtin k).typeId = (builtin l).typeId → builtin k = builtin l :=
  fun _ h => congrArg builtin (builtin_injective h)

theorem Variant.setScalarCopy_wellFormed (x : Value) : (setScalarCopy x (builtin x.kind)).WellFormed where
  typed := ⟨_, rfl, fun _ hy => List.mem_singleton.mp hy ▸ rfl, builtin_registered _⟩
  scalar _ := rfl
  array h := by cases h

theorem Variant.setArrayCopy_wellFormed {k : TypeKind} {xs : List Value} (h : ∀ x ∈ xs, x.kind = k) :
    (setArrayCopy (some xs) (builtin k)).WellFormed := by
  cases xs with
  | nil => exact ⟨⟨_, rfl, h, builtin_registered k⟩, fun hs => (nomatch hs), fun _ => rfl⟩
  | cons x xs =>
    exact ⟨⟨_, rfl, h, builtin_registered k⟩, fun hs => by simp [isScalar, setArrayCopy] at hs, fun _ => rfl⟩

/-- The number of dimensions: those recorded, else none for a scalar and one for an array. -/
def Variant.rank (v : Variant) : Nat :=
  if v.arrayDimensions.isEmpty then if v.isScalar then 0 else 1 else v.arrayDimensions.length

/-! ### Method arguments -/

def valueRankScalar : Int := -1
def valueRankOneDimension : Int := 1

/-- `UA_Argument`, as far as it is filled in. -/
structure Argument where
  name : Bytes
  dataType : NodeId
  valueRank : Int
  deriving DecidableEq, Repr

/-- The ranks a `valueRank` admits: −3 scalar or one dimension, −2 any, −1 scalar, 0 one
or more dimensions, otherwise so many dimensions. -/
def rankAllowed (valueRank : Int) (rank : Nat) : Bool :=
  if valueRank = -3 then rank ≤ 1
  else if valueRank = -2 then true
  else if valueRank = -1 then rank = 0
  else if valueRank = 0 then 1 ≤ rank
  else valueRank = rank

@[simp] theorem rankAllowed_scalar (rank : Nat) : rankAllowed valueRankScalar rank = true ↔ rank = 0 := by
  simp [rankAllowed, valueRankScalar]

@[simp] theorem rankAllowed_oneDimension (rank : Nat) :
    rankAllowed valueRankOneDimension rank = true ↔ rank = 1 := by
  have h : rankAllowed valueRankOneDimension rank = decide ((1 : Int) = rank) := rfl
  rw [h, decide_eq_true_iff]
  omega

/-- open62541's check of a method argument before it calls back. -/
def Argument.Allows (arg : Argument) (v : Variant) : Prop :=
  (∃ t, v.type = some t ∧ t.typeId = arg.dataType) ∧ rankAllowed arg.valueRank v.rank = true

end Ua

end ModernOpc
