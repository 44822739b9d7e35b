import ModernOpc.Types.NodeId
import ModernOpc.Types.Text

/-! Encoding C++ values into a `UA_Variant` and decoding them back.

A C++ type is a scalar type or a vector of one (`CppType`); `El` gives its values.
`toUAVariant` is the overload set of that name and `get` the specializations of
`Variant::get`. Neither depends on what the `UA_Variant` held before: every encoder
resets it first.

`get_toUAVariant` is the round trip: what comes back is the value (`received`), cut
at zero bytes where the encoder goes through a C string. -/
namespace ModernOpc
open Library.Bytes

/-- The scalar types `Variant::get` is specialized for. -/
inductive Scalar where
  | bool | int8 | uint8 | int16 | uint16 | int32 | uint32 | int64 | uint64 | float | double
  | string | nodeId | qualifiedName | localizedText
  deriving DecidableEq, Repr

/-- A scalar type, or `std::vector` of one. -/
inductive CppType where
  | scalar (s : Scalar)
  | vector (s : Scalar)
  deriving DecidableEq, Repr

namespace Scalar

/-- The values of the type; floats by their bit patterns. -/
@[reducible] def El : Scalar → Type
  | bool => Bool
  | int8 => Int8
  | uint8 => UInt8
  | int16 => Int16
  | uint16 => UInt16
  | int32 => Int32
  | uint32 => UInt32
  | int64 => Int64
  | uint64 => UInt64
  | float => UInt32
  | double => UInt64
  | string => Bytes
  | nodeId => NodeId
  | qualifiedName => QualifiedName
  | localizedText => LocalizedText

/-- The value a component of `std::tuple<…> inputArgs;` starts with; `LocalizedText` has no
default constructor. -/
def default : (s : Scalar) → Option s.El
  | bool => some false
  | int8 => some (0 : Int8)
  | uint8 => some (0 : UInt8)
  | int16 => some (0 : Int16)
  | uint16 => some (0 : UInt16)
  | int32 => some (0 : Int32)
  | uint32 => some (0 : UInt32)
  | int64 => some (0 : Int64)
  | uint64 => some (0 : UInt64)
  | float => some (0 : UInt32)
  | double => some (0 : UInt64)
  | string => some ([] : Bytes)
  | nodeId => some (NodeId.ofInt 0 0)
  | qualifiedName => some (⟨0, []⟩ : QualifiedName)
  | localizedText => none

/-- The kind of `getDataType<T>()`. -/
def kind : Scalar → Ua.TypeKind
  | bool => .boolean
  | int8 => .sbyte
  | uint8 => .byte
  | int16 => .int16
  | uint16 => .uint16
  | int32 => .int32
  | uint32 => .uint32
  | int64 => .int64
  | uint64 => .uint64
  | float => .float
  | double => .double
  | string => .string
  | nodeId => .nodeId
  | qualifiedName => .qualifiedName
  | localizedText => .localizedText

/-- `getDataType<T>()`. -/
def dataType (s : Scalar) : Ua.DataType := Ua.builtin s.kind

/-- The element an encoder copies into the Variant. -/
def toValue : (s : Scalar) → s.El → Option Ua.Value
  | bool, b => some (.boolean b)
  | int8, i => some (.sbyte i)
  | uint8, n => some (.byte n)
  | int16, i => some (.int16 i)
  | uint16, n => some (.uint16 n)
  | int32, i => some (.int32 i)
  | uint32, n => some (.uint32 n)
  | int64, i => some (.int64 i)
  | uint64, n => some (.uint64 n)
  | float, bits => some (.float bits)
  | double, bits => some (.double bits)
  | string, s => some (.string s)
  | nodeId, n => (fromNodeId n).map .nodeId
  | qualifiedName, q => some (.qualifiedName (fromQualifiedName q))
  | localizedText, t => some (.localizedText (fromLocalizedText t))

/-- What a decoder makes of one element; nothing of an element of another type. -/
def ofValue (s : Scalar) (v : Ua.Value) : Option s.El :=
  match s with
  | bool => match v with | .boolean b => some b | _ => none
  | int8 => match v with | .sbyte i => some i | _ => none
  | uint8 => match v with | .byte n => some n | _ => none
  | int16 => match v with | .int16 i => some i | _ => none
  | uint16 => match v with | .uint16 n => some n | _ => none
  | int32 => match v with | .int32 i => some i | _ => none
  | uint32 => match v with | .uint32 n => some n | _ => none
  | int64 => match v with | .int64 i => some i | _ => none
  | uint64 => match v with | .uint64 n => some n | _ => none
  | float => match v with | .float bits => some bits | _ => none
  | double => match v with | .double bits => some bits | _ => none
  | string => match v with | .string s => some (fromUAString s) | _ => none
  | nodeId => match v with | .nodeId n => some (fromUaNodeId n) | _ => none
  | qualifiedName => match v with | .qualifiedName q => some (fromUAQualifiedName q) | _ => none
  | localizedText => match v with | .localizedText t => some (fromUALocalizedText t) | _ => none

/-- A value as it comes back from an encoding. -/
def received : (s : Scalar) → s.El → s.El
  | nodeId, n => NodeId.truncated n
  | qualifiedName, q => QualifiedName.truncated q
  | localizedText, t => LocalizedText.truncated t
  | _, x => x

/-- The values an encoding keeps whole: every NodeId with a matching tag, and no zero
byte in what is encoded as a C string. -/
def Faithful : (s : Scalar) → s.El → Prop
  | nodeId, n => NodeId.Matching n ∧ NodeId.ZeroFree n
  | qualifiedName, q => QualifiedName.ZeroFree q
  | localizedText, t => LocalizedText.ZeroFree t
  | _, _ => True

/-- `std::is_arithmetic_v`, `bool` aside. -/
def isArithmetic : Scalar → Bool
  | int8 | uint8 | int16 | uint16 | int32 | uint32 | int64 | uint64 | float | double => true
  | _ => false

/-- Decoding an encoded element gives the value as received. -/
theorem ofValue_toValue {s : Scalar} {x : s.El} {v : Ua.Value} (h : s.toValue x = some v) :
    s.ofValue v = some (s.received x) := by
  cases s
  case nodeId =>
    obtain ⟨u, hu, rfl⟩ := Option.map_eq_some_iff.mp h
    obtain ⟨u', hu', ht⟩ := NodeId.fromUaNodeId_fromNodeId (NodeId.matching_of_fromNodeId hu)
    rw [hu, Option.some.injEq] at hu'
    subst hu'
    exact congrArg some ht
  all_goals
    rw [toValue, Option.some.injEq] at h
    subst h
  case string => exact congrArg some (fromUAString_eq x)
  case qualifiedName => exact congrArg some (QualifiedName.fromUAQualifiedName_fromQualifiedName x)
  case localizedText => exact congrArg some (LocalizedText.fromUALocalizedText_fromLocalizedText x)
  all_goals rfl

/-- An encoder has no result only where `std::get` throws. -/
theorem toValue_isSome {s : Scalar} (hs : s ≠ nodeId) (x : s.El) : ∃ v, s.toValue x = some v := by
  cases s
  case nodeId => exact absurd rfl hs
  all_goals exact ⟨_, rfl⟩

/-- An element of the scalar's kind can be decoded. -/
theorem ofValue_of_kind {s : Scalar} {u : Ua.Value} (h : u.kind = s.kind) :
    ∃ x, s.ofValue u = some x := by
  cases s <;> cases u <;> first | exact ⟨_, rfl⟩ | exact Ua.TypeKind.noConfusion h

/-- A value survives encoding and decoding exactly if it is faithful. -/
theorem faithful_iff {s : Scalar} (x : s.El) :
    (∃ v, s.toValue x = some v ∧ s.received x = x) ↔ s.Faithful x := by
  cases s
  case nodeId =>
    constructor
    · intro ⟨v, hv, hx⟩
      obtain ⟨u, hu, rfl⟩ := Option.map_eq_some_iff.mp hv
      exact ⟨NodeId.matching_of_fromNodeId hu, NodeId.truncated_eq_self.mp hx⟩
    · intro ⟨hm, hz⟩
      obtain ⟨u, hu, _⟩ := NodeId.fromUaNodeId_fromNodeId hm
      exact ⟨.nodeId u, by simp [toValue, hu], NodeId.truncated_eq_self.mpr hz⟩
  case qualifiedName =>
    exact ⟨fun ⟨_, _, hx⟩ => QualifiedName.truncated_eq_self.mp hx,
      fun hz => ⟨_, rfl, QualifiedName.truncated_eq_self.mpr hz⟩⟩
  case localizedText =>
    exact ⟨fun ⟨_, _, hx⟩ => LocalizedText.truncated_eq_self.mp hx,
      fun hz => ⟨_, rfl, LocalizedText.truncated_eq_self.mpr hz⟩⟩
  all_goals exact ⟨fun _ => trivial, fun _ => ⟨_, rfl, rfl⟩⟩

end Scalar

/-! ### Types, encoders and decoders -/

namespace CppType

@[reducible] def El : CppType → Type
  | scalar s => s.El
  | vector s => List s.El

def default : (t : CppType) → Option t.El
  | scalar s => s.default
  | vector s => some ([] : List s.El)

def defaultConstructible : CppType → Bool
  | scalar .localizedText => false
  | _ => true

theorem default_isSome (t : CppType) : t.default.isSome = t.defaultConstructible := by
  cases t with
  | scalar s => cases s <;> rfl
  | vector s => rfl

/-- The scalar type, or that of the elements. -/
def elem : CppType → Scalar
  | scalar s => s
  | vector s => s

def isVector : CppType → Bool
  | vector _ => true
  | scalar _ => false

/-- `Variant::get` is specialized for the type. -/
def hasGet : CppType → Bool
  | scalar _ => true
  | vector .uint64 | vector .int32 | vector .uint32 | vector .string | vector .localizedText => true
  | vector _ => false

/-- `getDataType<T>()` is specialized: vectors of strings and of `int` only. -/
def hasDataType : CppType → Bool
  | scalar _ => true
  | vector .string | vector .int32 => true
  | vector _ => false

/-- An overload of `toUAVariant` compiles for the type: vectors must be of arithmetic
type or of strings. -/
def hasEncoder : CppType → Bool
  | scalar _ => true
  | vector .string => true
  | vector s => s.isArithmetic

/-- The types that can be both encoded and decoded. -/
def Marshalled (t : CppType) : Prop := t.hasGet = true ∧ t.hasEncoder = true

instance (t : CppType) : Decidable t.Marshalled := inferInstanceAs (Decidable (_ ∧ _))

def received : (t : CppType) → t.El → t.El
  | scalar s, x => s.received x
  | vector s, xs => List.map s.received xs

def Faithful : (t : CppType) → t.El → Prop
  | scalar s, x => s.Faithful x
  | vector s, (xs : List s.El) => ∀ x ∈ xs, s.Faithful x

end CppType

/-- The block `val.data()` points to: null for an empty vector. -/
def vectorData (elems : List Ua.Value) : Option (List Ua.Value) :=
  if elems.isEmpty then none else some elems

/-- `toUAVariant` of a scalar, and the `toUAVariantImpl` of a class. -/
def toUAVariantScalar (s : Scalar) (x : s.El) : Option Ua.Variant :=
  (s.toValue x).map fun v => .setScalarCopy v s.dataType

/-- The two `toUAVariantImpl` of vectors. Strings are copied from a block of
`UA_calloc(v.size(), …)`, which is not null even without elements. -/
def toUAVariantVector (s : Scalar) (xs : List s.El) : Option Ua.Variant :=
  if s = .string then (xs.mapM s.toValue).map fun vs => .setArrayCopy (some vs) s.dataType
  else if s.isArithmetic then
    (xs.mapM s.toValue).map fun vs => .setArrayCopy (vectorData vs) s.dataType
  else none

/-- `toUAVariant`; no result where no overload compiles or `std::get` throws. -/
def toUAVariant : (t : CppType) → t.El → Option Ua.Variant
  | .scalar s, x => toUAVariantScalar s x
  | .vector s, xs => toUAVariantVector s xs

/-- `*static_cast<T *>(variant->data)`. -/
def getScalar (s : Scalar) (v : Ua.Variant) : Option s.El :=
  match v.data with
  | .block (x :: _) => s.ofValue x
  | _ => none

/-- The elements `data` to `data + arrayLength`. No element is read when there are none. -/
def getVector (s : Scalar) (v : Ua.Variant) : Option (List s.El) :=
  if v.arrayLength = 0 then some []
  else match v.data with
    | .block xs => if v.arrayLength ≤ xs.length then (xs.take v.arrayLength).mapM s.ofValue else none
    | _ => none

/-- `Variant::get<T>`. -/
def get : (t : CppType) → Ua.Variant → Option t.El
  | .scalar s, v => getScalar s v
  | .vector s, v => getVector s v

/-! ### The round trip -/

/-- Encoding never fails where no `NodeId` is encoded. -/
theorem mapM_toValue {s : Scalar} (hs : s ≠ .nodeId) (xs : List s.El) :
    ∃ vs, xs.mapM s.toValue = some vs ∧ vs.length = xs.length := by
  induction xs with
  | nil => exact ⟨[], rfl, rfl⟩
  | cons x xs ih =>
    obtain ⟨v, hv⟩ := Scalar.toValue_isSome hs x
    obtain ⟨vs, hvs, hlen⟩ := ih
    exact ⟨v :: vs, by simp [hv, hvs], by simp [hlen]⟩

theorem mapM_ofValue {s : Scalar} {xs : List s.El} {vs : List Ua.Value}
    (h : xs.mapM s.toValue = some vs) : vs.mapM s.ofValue = some (xs.map s.received) := by
  induction xs generalizing vs with
  | nil =>
    cases h
    rfl
  | cons x xs ih =>
    simp only [List.mapM_cons, Option.bind_eq_bind, Option.bind_eq_some_iff, Option.pure_def,
      Option.some.injEq] at h
    obtain ⟨v, hv, vs', hvs, rfl⟩ := h
    simp [Scalar.ofValue_toValue hv, ih hvs]

/-- Whatever the pointer an empty source leaves, the elements are read back. -/
theorem getVector_setArrayCopy {s : Scalar} {vs : List Ua.Value} {ys : List s.El}
    (h : vs.mapM s.ofValue = some ys) (t : Ua.DataType) :
    getVector s (.setArrayCopy (some vs) t) = some ys ∧
      getVector s (.setArrayCopy (vectorData vs) t) = some ys := by
  cases vs with
  | nil => exact ⟨h, h⟩
  | cons v vs =>
    have hget : getVector s (.setArrayCopy (some (v :: vs)) t) = some ys := by
      simpa [getVector, Ua.Variant.setArrayCopy] using h
    exact ⟨hget, hget⟩

/-- Vectors are encoded from elements of arithmetic type or strings, and completely. -/
theorem toUAVariantVector_cases {s : Scalar} {xs : List s.El} {v : Ua.Variant}
    (h : toUAVariantVector s xs = some v) :
    ∃ vs, xs.mapM s.toValue = some vs ∧
      (v = .setArrayCopy (some vs) s.dataType ∨ v = .setArrayCopy (vectorData vs) s.dataType) := by
  unfold toUAVariantVector at h
  split at h
  · obtain ⟨vs, hvs, rfl⟩ := Option.map_eq_some_iff.mp h
    exact ⟨vs, hvs, .inl rfl⟩
  · split at h
    · obtain ⟨vs, hvs, rfl⟩ := Option.map_eq_some_iff.mp h
      exact ⟨vs, hvs, .inr rfl⟩
    · cases h

theorem setArrayCopy_shape (source : Option (List Ua.Value)) (t : Ua.DataType) :
    (Ua.Variant.setArrayCopy source t).type = some t ∧ (Ua.Variant.setArrayCopy source t).rank = 1 := by
  unfold Ua.Variant.setArrayCopy
  split <;> exact ⟨rfl, rfl⟩

/-- An encoded scalar has its type and no dimension, an encoded vector its element type
and one dimension. -/
theorem toUAVariant_shape {t : CppType} {x : t.El} {v : Ua.Variant} (h : toUAVariant t x = some v) :
    v.type = some t.elem.dataType ∧ v.rank = if t.isVector then 1 else 0 := by
  cases t with
  | scalar s =>
    obtain ⟨u, _, rfl⟩ := Option.map_eq_some_iff.mp h
    exact ⟨rfl, rfl⟩
  | vector s =>
    obtain ⟨vs, _, rfl | rfl⟩ := toUAVariantVector_cases h
    · exact setArrayCopy_shape (some vs) s.dataType
    · exact setArrayCopy_shape (vectorData vs) s.dataType

namespace CppType

/-- Decoding an encoding gives the value as received. -/
theorem get_toUAVariant {t : CppType} {x : t.El} {v : Ua.Variant} (h : toUAVariant t x = some v) :
    get t v = some (t.received x) := by
  cases t with
  | scalar s =>
    obtain ⟨u, hu, rfl⟩ := Option.map_eq_some_iff.mp h
    exact Scalar.ofValue_toValue hu
  | vector s =>
    obtain ⟨vs, hvs, hv⟩ := toUAVariantVector_cases h
    have hget := getVector_setArrayCopy (mapM_ofValue hvs) s.dataType
    rcases hv with rfl | rfl
    · exact hget.1
    · exact hget.2

/-- The element types of vectors that can be encoded lose nothing. -/
theorem elements_faithful {s : Scalar} (h : (vector s).hasEncoder = true) (x : s.El) :
    s.received x = x ∧ s.Faithful x := by
  cases s <;> first | exact ⟨rfl, trivial⟩ | exact absurd h (by decide)

theorem hasEncoder_of_vector {s : Scalar} {xs : List s.El} {v : Ua.Variant} (h : toUAVariantVector s xs = some v) :
    (vector s).hasEncoder = true := by
  unfold toUAVariantVector at h
  split at h
  · next hs =>
    subst hs
    rfl
  · split at h
    · next hs => cases s <;> first | rfl | exact hs
    · cases h

/-- A value that is encoded is received as it was exactly if it is faithful. -/
theorem received_eq_iff {t : CppType} {x : t.El} {v : Ua.Variant} (h : toUAVariant t x = some v) :
    t.received x = x ↔ t.Faithful x := by
  cases t with
  | scalar s =>
    obtain ⟨u, hu, _⟩ := Option.map_eq_some_iff.mp h
    constructor
    · intro hx
      exact (Scalar.faithful_iff x).mp ⟨u, hu, hx⟩
    · intro hf
      obtain ⟨_, _, hx⟩ := (Scalar.faithful_iff x).mpr hf
      exact hx
  | vector s =>
    have helements := elements_faithful (hasEncoder_of_vector h)
    refine ⟨fun _ y _ => (helements y).2, fun _ => ?_⟩
    calc List.map s.received x
      _ = List.map id x := List.map_congr_left fun y _ => (helements y).1
      _ = x := List.map_id x

theorem toUAVariantVector_isSome {s : Scalar} (h : (vector s).Marshalled) (xs : List s.El) :
    ∃ v, toUAVariantVector s xs = some v := by
  have hs : s ≠ .nodeId := by
    intro he
    subst he
    exact absurd h.2 (by decide)
  obtain ⟨vs, hvs, _⟩ := mapM_toValue hs xs
  unfold toUAVariantVector
  rw [hvs]
  split
  · exact ⟨_, rfl⟩
  · next hstring =>
    have harith : s.isArithmetic = true := by
      have := h.2
      cases s <;> first | rfl | exact absurd rfl hstring | exact absurd this (by decide)
    rw [if_pos harith]
    exact ⟨_, rfl⟩

/-- A value survives the round trip through a Variant exactly if it is faithful. -/
theorem faithful_iff {t : CppType} (ht : t.Marshalled) (x : t.El) :
    (∃ v, toUAVariant t x = some v ∧ t.received x = x) ↔ t.Faithful x := by
  constructor
  · intro ⟨v, hv, hx⟩
    exact (received_eq_iff hv).mp hx
  · intro hf
    cases t with
    | scalar s =>
      obtain ⟨u, hu, hx⟩ := (Scalar.faithful_iff x).mpr hf
      exact ⟨_, Option.map_eq_some_iff.mpr ⟨u, hu, rfl⟩, hx⟩
    | vector s =>
      obtain ⟨v, hv⟩ := toUAVariantVector_isSome ht x
      exact ⟨v, hv, (received_eq_iff (t := .vector s) hv).mpr hf⟩

end CppType

end ModernOpc
