import ModernOpc.Variant.Memory
import Mathlib.Data.List.Forall2

/-! `Variant::operator==` and its table of comparators.

A comparator is chosen by the kind of the type and is handed the two data pointers; it
reads one element behind each. Two template arguments that are typedefs of one C++ type
are one function: the specialization for `UA_StatusCode` is also the one for
`UA_UInt32`, which is what it calls.

A call has a result for a number of nested comparator calls if it returns within them;
it ends if that is so for some number. -/
namespace ModernOpc.Equality
open Ua Library.Bytes

/-! ### The comparators -/

/-- The template argument, typedefs resolved: `UA_DateTime` is `int64_t`, `UA_StatusCode`
is `uint32_t`, and `UA_ByteString` and `UA_XmlElement` are `UA_String`. -/
inductive Primitive where
  | boolean | sbyte | byte | int16 | uint16 | int32 | uint32 | int64 | uint64 | float | double
  | string | guid | nodeId | expandedNodeId | qualifiedName | localizedText
  | extensionObject | dataValue | variant | diagnosticInfo
  deriving DecidableEq, Repr

namespace Primitive

def statusCode : Primitive := uint32
def dateTime : Primitive := int64

end Primitive

/-- `*reinterpret_cast<const T *>(a) == *reinterpret_cast<const T *>(b)`, or the comparison
open62541 has for the type; an element of another type is not read. -/
def sameType {α : Type} (read : Value → Option α) (equal : α → α → Bool) (a b : Value) : Option Bool := do
  let x ← read a
  let y ← read b
  return equal x y

def readInt64 : Value → Option Int64
  | .int64 i => some i
  | .dateTime t => some t
  | _ => none

def readString : Value → Option Bytes
  | .string s => some s
  | .byteString s => some s
  | .xmlElement s => some s
  | _ => none

/-- `UAPrimitive_equal<T>`, the template and its specializations, with so many nested
calls left. -/
def uaPrimitiveEqual : Primitive → Nat → Value → Value → Option Bool
  | _, 0, _, _ => none
  | .boolean, _ + 1, a, b => sameType (fun | .boolean b => some b | _ => none) (· == ·) a b
  | .sbyte, _ + 1, a, b => sameType (fun | .sbyte i => some i | _ => none) (· == ·) a b
  | .byte, _ + 1, a, b => sameType (fun | .byte n => some n | _ => none) (· == ·) a b
  | .int16, _ + 1, a, b => sameType (fun | .int16 i => some i | _ => none) (· == ·) a b
  | .uint16, _ + 1, a, b => sameType (fun | .uint16 n => some n | _ => none) (· == ·) a b
  | .int32, _ + 1, a, b => sameType (fun | .int32 i => some i | _ => none) (· == ·) a b
  -- the specialization for `UA_StatusCode`, which calls that for `UA_UInt32`
  | .uint32, n + 1, a, b => uaPrimitiveEqual .uint32 n a b
  | .int64, _ + 1, a, b => sameType readInt64 (· == ·) a b
  | .uint64, _ + 1, a, b => sameType (fun | .uint64 n => some n | _ => none) (· == ·) a b
  | .float, _ + 1, a, b => sameType (fun | .float bits => some bits | _ => none) floatEqual a b
  | .double, _ + 1, a, b => sameType (fun | .double bits => some bits | _ => none) doubleEqual a b
  | .string, _ + 1, a, b => sameType readString stringEqual a b
  | .guid, _ + 1, a, b => sameType (fun | .guid g => some g | _ => none) (· == ·) a b
  | .nodeId, _ + 1, a, b => sameType (fun | .nodeId n => some n | _ => none) Ua.NodeId.equal a b
  | .expandedNodeId, _ + 1, a, b =>
    sameType (fun | .expandedNodeId n => some n | _ => none) Ua.ExpandedNodeId.equal a b
  | .qualifiedName, _ + 1, a, b =>
    sameType (fun | .qualifiedName q => some q | _ => none) Ua.QualifiedName.equal a b
  | .localizedText, n + 1, .localizedText lta, .localizedText ltb => do
    if ← uaPrimitiveEqual .string n (.string lta.locale) (.string ltb.locale) then
      uaPrimitiveEqual .string n (.string lta.text) (.string ltb.text)
    else
      return false
  | .localizedText, _ + 1, _, _ => none
  -- `assert(false && "not implemented")`
  | .extensionObject, _ + 1, _, _ => none
  | .dataValue, _ + 1, _, _ => none
  | .variant, _ + 1, _, _ => none
  | .diagnosticInfo, _ + 1, _, _ => none

/-- `CmpFn`. -/
abbrev CmpFn := Nat → Value → Value → Option Bool

/-- `UAPrimitive_equal_ByteString`. -/
def uaPrimitiveEqualByteString : CmpFn
  | 0, _, _ => none
  | n + 1, a, b => uaPrimitiveEqual .string n a b

/-- `UAPrimitive_equal_XmlElement`. -/
def uaPrimitiveEqualXmlElement : CmpFn
  | 0, _, _ => none
  | n + 1, a, b => uaPrimitiveEqual .string n a b

/-- `UAPrimitive_equal_NOT_IMPLEMENTED`. -/
def uaPrimitiveEqualNotImplemented : CmpFn := fun _ _ _ => none

/-- `CMP_TABLE`. -/
def cmpTable : List CmpFn := [
  uaPrimitiveEqual .boolean, uaPrimitiveEqual .sbyte, uaPrimitiveEqual .byte,
  uaPrimitiveEqual .int16, uaPrimitiveEqual .uint16, uaPrimitiveEqual .int32,
  uaPrimitiveEqual .uint32, uaPrimitiveEqual .int64, uaPrimitiveEqual .uint64,
  uaPrimitiveEqual .float, uaPrimitiveEqual .double, uaPrimitiveEqual .string,
  uaPrimitiveEqual .dateTime, uaPrimitiveEqual .guid, uaPrimitiveEqualByteString,
  uaPrimitiveEqualXmlElement, uaPrimitiveEqual .nodeId, uaPrimitiveEqual .expandedNodeId,
  uaPrimitiveEqual .statusCode, uaPrimitiveEqual .qualifiedName, uaPrimitiveEqual .localizedText,
  uaPrimitiveEqual .extensionObject, uaPrimitiveEqual .dataValue, uaPrimitiveEqual .variant,
  uaPrimitiveEqual .diagnosticInfo,
  -- decimal, enum, structure, optional structure, union, bit field cluster
  uaPrimitiveEqualNotImplemented, uaPrimitiveEqualNotImplemented, uaPrimitiveEqualNotImplemented,
  uaPrimitiveEqualNotImplemented, uaPrimitiveEqualNotImplemented, uaPrimitiveEqualNotImplemented]

/-- The comparator of a kind, called on two data pointers. -/
def compareData (k : TypeKind) (n : Nat) (a b : Data) : Option Bool := do
  let cmp ← cmpTable[k.ctorIdx]?
  match a, b with
  | .block (x :: _), .block (y :: _) => cmp n x y
  | _, _ => none

/-- `Variant::operator==` on what the two pointers lead to. -/
def contentEqual (n : Nat) (a b : Ua.Variant) : Option Bool :=
  if a.isEmpty != b.isEmpty then some false
  else match a.type with
    | none => some true
    | some t =>
      if a.isScalar != b.isScalar then some false
      else if some t != b.type then some false
      else if a.arrayLength != b.arrayLength then some false
      else compareData t.typeKind n a.data b.data

/-- `Variant::operator==`. -/
def equal (self other : ModernOpc.Variant) (m : Memory) (n : Nat) : Option Bool := do
  let a ← m.deref self.variant
  let b ← m.deref other.variant
  contentEqual n (m.content a) (m.content b)

/-- The call ends, with this result. -/
def Ends (f : Nat → Option Bool) (r : Bool) : Prop := ∃ n, f n = some r

/-! ### What it should mean -/

/-- Boolean to LocalizedText: the kinds that have a comparator. -/
def HasComparator (k : TypeKind) : Prop := k.ctorIdx ≤ TypeKind.localizedText.ctorIdx

instance (k : TypeKind) : Decidable (HasComparator k) := inferInstanceAs (Decidable (_ ≤ _))

/-- The kinds of `uint32_t`, whose comparator calls itself. -/
def CallsItself (k : TypeKind) : Prop := k = .uint32 ∨ k = .statusCode

/-- Two elements are equal under their kind's own equality. -/
def Same : Value → Value → Prop
  | .float a, .float b => floatEqual a b = true
  | .double a, .double b => doubleEqual a b = true
  | a, b => a = b

/-- An empty Variant, or one open62541 keeps in order with a type that has a comparator. -/
def Comparable (v : Ua.Variant) : Prop :=
  ∀ t, v.type = some t → v.WellFormed ∧ HasComparator t.typeKind

def HoldsArray (v : Ua.Variant) : Prop := v.isEmpty = false ∧ v.isScalar = false
def HoldsScalar (v : Ua.Variant) : Prop := v.isEmpty = false ∧ v.isScalar = true

/-- Two arrays of one type and length with equal elements. -/
structure EqualArrays (a b : Ua.Variant) : Prop where
  left : HoldsArray a
  right : HoldsArray b
  type : a.type = b.type
  length : a.arrayLength = b.arrayLength
  elements : List.Forall₂ Same a.elements b.elements

/-- Not of a floating-point type. -/
def Exact (v : Ua.Variant) : Prop := ∀ t, v.type = some t → t.typeKind ≠ .float ∧ t.typeKind ≠ .double

/-- Two scalars of one type and value. -/
structure EqualScalars (a b : Ua.Variant) : Prop where
  type : a.type = b.type
  payload : ∃ x, a.elements = [x] ∧ b.elements = [x]

/-- The first two elements tell what all do: they differ, or all pairs are equal. -/
def FirstsDecide : List Value → List Value → Prop
  | x :: xs, y :: ys => ¬ Same x y ∨ List.Forall₂ Same (x :: xs) (y :: ys)
  | _, _ => False

/-- What `Variant::operator==` compares before it calls a comparator. -/
structure SameShape (a b : Ua.Variant) : Prop where
  scalar : a.isScalar = b.isScalar
  type : a.type = b.type
  length : a.arrayLength = b.arrayLength

/-! ### The comparators end, but one -/

theorem uint32_never (n : Nat) (a b : Value) : uaPrimitiveEqual .uint32 n a b = none := by
  induction n with
  | zero => rfl
  | succ n ih => exact ih

theorem ends_iff {f : Nat → Option Bool} {v : Bool} {P : Prop} (hzero : f 0 = none)
    (hone : f 1 = none ∨ f 1 = some v) (hmore : ∀ n, f (n + 2) = some v) (hv : v = true ↔ P) (r : Bool) :
    Ends f r ↔ (r = true ↔ P) := by
  have hends : Ends f r ↔ r = v := by
    constructor
    · intro ⟨n, hn⟩
      match n with
      | 0 => rw [hzero] at hn; cases hn
      | 1 => rcases hone with h | h <;> rw [h] at hn <;> cases hn; rfl
      | n + 2 => rw [hmore] at hn; exact (Option.some.inj hn).symm
    · intro he
      subst he
      exact ⟨2, hmore 0⟩
  rw [hends, ← hv]
  exact Bool.eq_iff_iff

/-- The two strings are compared one call further down. -/
theorem localizedText_more (n : Nat) (a b : Ua.LocalizedText) :
    uaPrimitiveEqual .localizedText (n + 2) (.localizedText a) (.localizedText b) =
      some (stringEqual a.locale b.locale && stringEqual a.text b.text) := by
  show (if stringEqual a.locale b.locale = true then some (stringEqual a.text b.text) else some false) = _
  cases stringEqual a.locale b.locale <;> rfl

theorem localizedText_equal {a b : Ua.LocalizedText} :
    (stringEqual a.locale b.locale && stringEqual a.text b.text) = true ↔ a = b := by
  cases a
  cases b
  simp

theorem comparator_ends {a b : Value} (hreal : HasComparator a.kind) (hkind : b.kind = a.kind)
    (hself : ¬ CallsItself a.kind) :
    ∃ cmp, cmpTable[a.kind.ctorIdx]? = some cmp ∧
      ∀ r, Ends (fun n => cmp n a b) r ↔ (r = true ↔ Same a b) := by
  refine ⟨_, List.getElem?_eq_getElem (Nat.lt_of_le_of_lt hreal (by decide)), ?_⟩
  cases a <;> cases b <;> cases hkind
  case uint32 => exact absurd (.inl rfl) hself
  case statusCode => exact absurd (.inr rfl) hself
  case opaqueBytes s t => exact absurd (show 27 ≤ 20 from hreal) (by decide)
  case byteString => exact ends_iff rfl (.inl rfl) (fun _ => rfl) (by simp [Same])
  case xmlElement => exact ends_iff rfl (.inl rfl) (fun _ => rfl) (by simp [Same])
  case localizedText s t =>
    exact ends_iff rfl (.inl rfl) (fun n => localizedText_more n s t)
      (localizedText_equal.trans (by simp [Same]))
  -- a plain comparison, after the first call
  all_goals exact ends_iff rfl (.inr rfl) (fun _ => rfl) (by simp [Same])

theorem comparator_never {k : TypeKind} (h : CallsItself k) :
    ∃ cmp, cmpTable[k.ctorIdx]? = some cmp ∧ ∀ n a b, cmp n a b = none := by
  rcases h with rfl | rfl <;> exact ⟨_, rfl, uint32_never⟩

/-! ### `operator==` -/

theorem data_of_no_elements {v : Ua.Variant} (h : v.elements = []) :
    v.data = .null ∨ v.data = .sentinel ∨ v.data = .block [] := by
  unfold Ua.Variant.elements at h
  cases hd : v.data with
  | null => exact .inl rfl
  | sentinel => exact .inr (.inl rfl)
  | block xs =>
    rw [hd] at h
    exact .inr (.inr (congrArg Data.block h))

/-- No element is behind the pointer: nothing can be compared. -/
theorem compareData_no_elements (k : TypeKind) (n : Nat) {a : Ua.Variant} (h : a.elements = []) (b : Data) :
    compareData k n a.data b = none := by
  unfold compareData
  rcases data_of_no_elements h with hd | hd | hd <;> rw [hd] <;> cases cmpTable[k.ctorIdx]? <;> rfl

/-- Variants of different shape are told apart before any element is read. -/
theorem contentEqual_of_not_shape {a b : Ua.Variant} (h : ¬ SameShape a b)
    (hne : a.isEmpty = false ∨ b.isEmpty = false) (n : Nat) : contentEqual n a b = some false := by
  unfold contentEqual
  split
  · rfl
  · next hempty =>
    have hempty' : a.isEmpty = b.isEmpty := by simpa using hempty
    split
    · next htype =>
      have ha : a.isEmpty = true := by simp [Ua.Variant.isEmpty, htype]
      rw [← hempty', ha] at hne
      simp at hne
    · next t htype =>
      split
      · rfl
      · split
        · rfl
        · split
          · rfl
          · next hs ht hl =>
            refine absurd ⟨by simpa using hs, ?_, by simpa using hl⟩ h
            rw [htype]
            simpa using ht

/-- Variants of one shape are handed to the comparator of their kind. -/
theorem contentEqual_of_shape {a b : Ua.Variant} (h : SameShape a b) {t : DataType} (ht : a.type = some t)
    (n : Nat) : contentEqual n a b = compareData t.typeKind n a.data b.data := by
  have hb : b.type = some t := h.type ▸ ht
  simp [contentEqual, Ua.Variant.isEmpty, ht, hb, h.scalar, h.length]

section
variable {a b : Ua.Variant} {t : DataType}

theorem kind_of_element (h : Comparable a) (ht : a.type = some t) {x : Value} (hx : x ∈ a.elements) :
    x.kind = t.typeKind := by
  obtain ⟨t', ht', hall, _⟩ := (h t ht).1.typed
  cases ht.symm.trans ht'
  exact hall x hx

/-- The first elements decide, where there are any and the comparator ends. -/
theorem shape_ends (h : SameShape a b) (ht : a.type = some t) (hca : Comparable a) (hcb : Comparable b)
    (hself : ¬ CallsItself t.typeKind) {x y : Value} {xs ys : List Value} (hx : a.elements = x :: xs)
    (hy : b.elements = y :: ys) (r : Bool) :
    Ends (fun n => contentEqual n a b) r ↔ (r = true ↔ Same x y) := by
  have hkx := kind_of_element hca ht (hx ▸ List.mem_cons_self ..)
  have hky := kind_of_element hcb (h.type ▸ ht) (hy ▸ List.mem_cons_self ..)
  have hreal := (hca t ht).2
  rw [← hkx] at hreal hself
  obtain ⟨cmp, hcmp, hends⟩ := comparator_ends hreal (hky.trans hkx.symm) hself
  have heq : (fun n => contentEqual n a b) = fun n => cmp n x y := by
    funext n
    rw [contentEqual_of_shape h ht, ← hkx, Ua.Variant.data_of_elements hx, Ua.Variant.data_of_elements hy,
      compareData, hcmp]
    rfl
  rw [heq]
  exact hends r

theorem shape_never (h : SameShape a b) (ht : a.type = some t)
    (hbad : CallsItself t.typeKind ∨ a.elements = []) (r : Bool) : ¬ Ends (fun n => contentEqual n a b) r := by
  intro ⟨n, hn⟩
  have hnone : compareData t.typeKind n a.data b.data = none := by
    rcases hbad with hself | hnone
    · obtain ⟨cmp, hcmp, hnever⟩ := comparator_never hself
      unfold compareData
      rw [hcmp, Option.bind_eq_bind, Option.bind_some]
      split
      · exact hnever ..
      · rfl
    · exact compareData_no_elements _ _ hnone _
  have hsome : compareData t.typeKind n a.data b.data = some r := contentEqual_of_shape h ht n ▸ hn
  rw [hnone] at hsome
  cases hsome

theorem EqualArrays.shape (h : EqualArrays a b) : SameShape a b :=
  ⟨h.left.2.trans h.right.2.symm, h.type, h.length⟩

theorem SameShape.symm (h : SameShape a b) : SameShape b a := ⟨h.scalar.symm, h.type.symm, h.length.symm⟩

theorem SameShape.holdsArray (h : SameShape a b) (ha : HoldsArray a) : HoldsArray b := by
  refine ⟨?_, h.scalar ▸ ha.2⟩
  have hempty := ha.1
  unfold Ua.Variant.isEmpty at hempty ⊢
  rwa [← h.type]

theorem type_of_not_empty (h : a.isEmpty = false) : ∃ t, a.type = some t :=
  Option.ne_none_iff_exists'.mp fun hnone => by simp [Ua.Variant.isEmpty, hnone] at h

theorem same_iff_eq {x y : Value} (h : x.kind ≠ .float ∧ x.kind ≠ .double) : Same x y ↔ x = y := by
  unfold Same
  split
  · exact absurd rfl h.1
  · exact absurd rfl h.2
  · exact Iff.rfl

/-- For arrays of one shape, what comes out is whether the first elements are equal. -/
theorem arrays_of_shape (h : SameShape a b) (harr : HoldsArray a) (hca : Comparable a) (hcb : Comparable b) :
    (∃ r, Ends (fun n => contentEqual n a b) r ∧ (r = true ↔ EqualArrays a b)) ↔
      (∀ t, a.type = some t → ¬ CallsItself t.typeKind) ∧ FirstsDecide a.elements b.elements := by
  have hbrr := h.holdsArray harr
  obtain ⟨t, ht⟩ := type_of_not_empty harr.1
  have hall : EqualArrays a b ↔ List.Forall₂ Same a.elements b.elements :=
    ⟨EqualArrays.elements, fun he => ⟨harr, hbrr, h.type, h.length, he⟩⟩
  have hlength : a.elements.length = b.elements.length := by
    rw [(hca t ht).1.array harr.2, (hcb t (h.type ▸ ht)).1.array hbrr.2, h.length]
  rw [hall]
  constructor
  · intro ⟨r, hends, hr⟩
    have hself : ¬ CallsItself t.typeKind := fun hself => shape_never h ht (.inl hself) r hends
    refine ⟨fun u hu => by cases ht.symm.trans hu; exact hself, ?_⟩
    cases hx : a.elements with
    | nil => exact absurd hends (shape_never h ht (.inr hx) r)
    | cons x xs =>
      cases hy : b.elements with
      | nil => simp [hx, hy] at hlength
      | cons y ys =>
        have hfirst := (shape_ends h ht hca hcb hself hx hy r).mp hends
        rw [hx, hy] at hr
        by_cases hsame : Same x y
        · exact .inr (hr.mp (hfirst.mpr hsame))
        · exact .inl hsame
  · intro ⟨hself, hdecide⟩
    cases hx : a.elements with
    | nil => rw [hx] at hdecide; exact hdecide.elim
    | cons x xs =>
      cases hy : b.elements with
      | nil => simp [hx, hy] at hlength
      | cons y ys =>
        rw [hx, hy] at hdecide
        have hends := shape_ends h ht hca hcb (hself t ht) hx hy
        rcases hdecide with hdiffer | heq
        · refine ⟨false, (hends false).mpr (by simp [hdiffer]), by simp [hdiffer]⟩
        · have hsame : Same x y := by
            cases heq
            assumption
          exact ⟨true, (hends true).mpr (by simp [hsame]), by simp [heq]⟩

/-- Scalars of one type are compared by their values, if the comparator ends. -/
theorem scalars_of_type (htype : a.type = b.type) (hsa : HoldsScalar a) (hsb : HoldsScalar b)
    (hca : Comparable a) (hcb : Comparable b) (hexact : Exact a) :
    (∃ r, Ends (fun n => contentEqual n a b) r ∧ (r = true ↔ EqualScalars a b)) ↔
      ∀ t, a.type = some t → ¬ CallsItself t.typeKind := by
  obtain ⟨t, ht⟩ := type_of_not_empty hsa.1
  have hta := (hca t ht).1
  have htb := (hcb t (htype ▸ ht)).1
  obtain ⟨x, hx⟩ := List.length_eq_one_iff.mp (hta.scalar hsa.2)
  obtain ⟨y, hy⟩ := List.length_eq_one_iff.mp (htb.scalar hsb.2)
  have hshape : SameShape a b :=
    ⟨hsa.2.trans hsb.2.symm, htype,
      (Ua.Variant.arrayLength_of_scalar hsa.2).trans (Ua.Variant.arrayLength_of_scalar hsb.2).symm⟩
  have hsame : Same x y ↔ EqualScalars a b := by
    have hkx := kind_of_element hca ht (hx ▸ List.mem_cons_self ..)
    rw [same_iff_eq (hkx ▸ hexact t ht)]
    constructor
    · intro he
      subst he
      exact ⟨htype, x, hx, hy⟩
    · intro ⟨_, z, hza, hzb⟩
      cases hx.symm.trans hza
      cases hy.symm.trans hzb
      rfl
  constructor
  · intro ⟨r, hends, _⟩ u hu hself
    exact shape_never hshape hu (.inl hself) r hends
  · intro hself
    have hends := shape_ends hshape ht hca hcb (hself t ht) hx hy
    by_cases hxy : Same x y
    · exact ⟨true, (hends true).mpr (by simp [hxy]), by simp [hsame.mp hxy]⟩
    · exact ⟨false, (hends false).mpr (by simp [hxy]), by simp [← hsame, hxy]⟩

end

/-! ### Live Variants -/

section
variable {m : Memory} {a b : ModernOpc.Variant} {c d : Cell}

theorem equal_of_deref (ha : m.deref a.variant = some c) (hb : m.deref b.variant = some d) :
    equal a b m = fun n => contentEqual n (m.content c) (m.content d) := by
  funext n
  simp [equal, ha, hb]

/-- The comparison of Variants of which one holds an array does what it should exactly if
they differ in type, length or being an array, or their first elements decide and the
comparator ends. -/
theorem array_equality_iff (ha : m.deref a.variant = some c) (hb : m.deref b.variant = some d)
    (hca : Comparable (m.content c)) (hcb : Comparable (m.content d))
    (h : HoldsArray (m.content c) ∨ HoldsArray (m.content d)) :
    (∃ r, Ends (equal a b m) r ∧ (r = true ↔ EqualArrays (m.content c) (m.content d))) ↔
      (SameShape (m.content c) (m.content d) →
        (∀ t, (m.content c).type = some t → ¬ CallsItself t.typeKind) ∧
          FirstsDecide (m.content c).elements (m.content d).elements) := by
  rw [equal_of_deref ha hb]
  by_cases hs : SameShape (m.content c) (m.content d)
  · have harr : HoldsArray (m.content c) := h.elim id hs.symm.holdsArray
    rw [arrays_of_shape hs harr hca hcb]
    exact ⟨fun hp _ => hp, fun hp => hp hs⟩
  · have hne := h.imp (·.1) (·.1)
    refine ⟨fun _ hs' => absurd hs' hs, fun _ => ⟨false, ⟨0, contentEqual_of_not_shape hs hne 0⟩, ?_⟩⟩
    exact ⟨fun hf => (by cases hf), fun he => absurd he.shape hs⟩

/-- `std::vector<int>` in a Variant. -/
def ints (xs : List Int32) : Ua.Variant := .setArrayCopy (some (xs.map .int32)) (builtin .int32)

theorem ints_comparable (xs : List Int32) : Comparable (ints xs) := by
  intro t ht
  have hkind : ∀ v ∈ xs.map Value.int32, v.kind = .int32 := by
    intro v hv
    obtain ⟨i, _, rfl⟩ := List.mem_map.mp hv
    rfl
  refine ⟨Ua.Variant.setArrayCopy_wellFormed hkind, ?_⟩
  have htype : (ints xs).type = some (builtin .int32) := by cases xs <;> rfl
  rw [htype, Option.some.injEq] at ht
  exact ht ▸ (by decide : HasComparator .int32)

/-- Two Variants from outside. -/
def twoCells (v w : Ua.Variant) : Memory := ⟨fun | .foreign 0 => v | _ => w, 0, []⟩

theorem array_equality_of_equal_ints :
    ∃ r, Ends (equal ⟨some (.foreign 0), false⟩ ⟨some (.foreign 1), false⟩
        (twoCells (ints [1, 2]) (ints [1, 2]))) r ∧
      (r = true ↔ EqualArrays (ints [1, 2]) (ints [1, 2])) :=
  (array_equality_iff (c := .foreign 0) (d := .foreign 1) rfl rfl (ints_comparable _) (ints_comparable _)
    (.inl ⟨rfl, rfl⟩)).mpr fun _ => by
      refine ⟨fun t ht => ?_, .inr (.cons rfl (.cons rfl .nil))⟩
      cases ht
      intro h
      rcases h with h | h <;> cases h

/-- `std::vector<int>{1, 2}` and `std::vector<int>{1, 3}` compare equal. -/
theorem arrays_compared_by_first : ¬ ∀ (m : Memory) (a b : ModernOpc.Variant) (c d : Cell),
    m.deref a.variant = some c → m.deref b.variant = some d →
    Comparable (m.content c) → Comparable (m.content d) →
    HoldsArray (m.content c) ∨ HoldsArray (m.content d) →
    ∃ r, Ends (equal a b m) r ∧ (r = true ↔ EqualArrays (m.content c) (m.content d)) := by
  intro h
  obtain ⟨r, ⟨n, hn⟩, hr⟩ := h (twoCells (ints [1, 2]) (ints [1, 3])) ⟨some (.foreign 0), false⟩
    ⟨some (.foreign 1), false⟩ (.foreign 0) (.foreign 1) rfl rfl (ints_comparable _) (ints_comparable _)
    (.inl ⟨rfl, rfl⟩)
  have htrue : r = true := by
    cases n with
    | zero => cases hn
    | succ n => exact (Option.some.inj hn).symm
  have helements := (hr.mp htrue).elements
  rcases helements with _ | ⟨_, _ | ⟨hsecond, _⟩⟩
  exact absurd (Value.int32.inj hsecond) (by decide)

/-- The comparison of scalars does what it should exactly if their types differ or their
kind is not one of `uint32_t`, and a copy equals its original exactly in the latter case. -/
theorem scalar_equality_iff (hm : m.Proper) (ha : m.deref a.variant = some c)
    (hb : m.deref b.variant = some d) (hsa : HoldsScalar (m.content c)) (hsb : HoldsScalar (m.content d))
    (hca : Comparable (m.content c)) (hcb : Comparable (m.content d)) (hexact : Exact (m.content c)) :
    ((∃ r, Ends (equal a b m) r ∧ (r = true ↔ EqualScalars (m.content c) (m.content d))) ↔
      ((m.content c).type = (m.content d).type →
        ∀ t, (m.content c).type = some t → ¬ CallsItself t.typeKind)) ∧
    ((∃ v m', a.copy m = some (v, m') ∧ Ends (equal v a m') true) ↔
      ∀ t, (m.content c).type = some t → ¬ CallsItself t.typeKind) := by
  constructor
  · rw [equal_of_deref ha hb]
    by_cases htype : (m.content c).type = (m.content d).type
    · rw [scalars_of_type htype hsa hsb hca hcb hexact]
      exact ⟨fun hp _ => hp, fun hp => hp htype⟩
    · have hshape : ¬ SameShape (m.content c) (m.content d) := fun hs => htype hs.type
      refine ⟨fun _ he => absurd he htype,
        fun _ => ⟨false, ⟨0, contentEqual_of_not_shape hshape (.inl hsa.1) 0⟩, ?_⟩⟩
      exact ⟨fun hf => (by cases hf), fun he => absurd he.type htype⟩
  · obtain ⟨v, m', e, hcopy, hv, hve, ha', hae⟩ := Variant.copy_of_deref hm ha
    have hequal := equal_of_deref hv ha'
    rw [hve, hae] at hequal
    have hself := scalars_of_type rfl hsa hsa hca hca hexact
    obtain ⟨t, ht⟩ := type_of_not_empty hsa.1
    obtain ⟨x, hx⟩ := List.length_eq_one_iff.mp ((hca t ht).1.scalar hsa.2)
    constructor
    · intro ⟨v', m'', hcopy', hends⟩
      cases hcopy.symm.trans hcopy'
      rw [hequal] at hends
      exact hself.mp ⟨true, hends, fun _ => ⟨rfl, x, hx, hx⟩, fun _ => rfl⟩
    · intro hp
      obtain ⟨r, hends, hr⟩ := hself.mpr hp
      rw [hr.mpr ⟨rfl, x, hx, hx⟩] at hends
      exact ⟨v, m', hcopy, hequal ▸ hends⟩

theorem scalar_comparable {x : Value} (h : HasComparator x.kind) :
    Comparable (.setScalarCopy x (builtin x.kind)) := by
  intro t ht
  cases ht
  exact ⟨Ua.Variant.setScalarCopy_wellFormed x, h⟩

theorem scalar_equality_of_ints :
    ∃ r, Ends (equal ⟨some (.foreign 0), false⟩ ⟨some (.foreign 1), false⟩
        (twoCells (.setScalarCopy (.int32 1) (builtin .int32)) (.setScalarCopy (.int32 2) (builtin .int32)))) r ∧
      (r = true ↔ EqualScalars (.setScalarCopy (.int32 1) (builtin .int32))
        (.setScalarCopy (.int32 2) (builtin .int32))) := by
  have hcomparable : ∀ i, Comparable (.setScalarCopy (.int32 i) (builtin .int32)) := fun i =>
    scalar_comparable (x := .int32 i) (by decide : HasComparator .int32)
  refine (scalar_equality_iff (c := .foreign 0) (d := .foreign 1) (fun n hn => by cases hn) rfl rfl
    ⟨rfl, rfl⟩ ⟨rfl, rfl⟩ (hcomparable 1) (hcomparable 2) ?_).1.mpr fun _ t ht => ?_
  · intro t ht
    cases ht
    exact ⟨nofun, nofun⟩
  · cases ht
    intro h
    rcases h with h | h <;> cases h

/-- The comparison of two `uint32_t` does not end. -/
theorem uint32_comparison_never_ends : ¬ ∀ (m : Memory) (a b : ModernOpc.Variant) (c d : Cell), m.Proper →
    m.deref a.variant = some c → m.deref b.variant = some d →
    HoldsScalar (m.content c) → HoldsScalar (m.content d) →
    Comparable (m.content c) → Comparable (m.content d) → Exact (m.content c) →
    ∃ r, Ends (equal a b m) r ∧ (r = true ↔ EqualScalars (m.content c) (m.content d)) := by
  intro h
  have hcomparable : Comparable (.setScalarCopy (.uint32 1) (builtin .uint32)) :=
    scalar_comparable (x := .uint32 1) (by decide : HasComparator .uint32)
  have hexact : Exact (.setScalarCopy (.uint32 1) (builtin .uint32)) := fun t ht => by
    cases ht
    exact ⟨nofun, nofun⟩
  obtain ⟨r, ⟨n, hn⟩, _⟩ := h
    (twoCells (.setScalarCopy (.uint32 1) (builtin .uint32)) (.setScalarCopy (.uint32 1) (builtin .uint32)))
    ⟨some (.foreign 0), false⟩ ⟨some (.foreign 1), false⟩ (.foreign 0) (.foreign 1)
    (fun n hn => by cases hn) rfl rfl ⟨rfl, rfl⟩ ⟨rfl, rfl⟩ hcomparable hcomparable hexact
  have hnone : uaPrimitiveEqual .uint32 n (.uint32 1) (.uint32 1) = some r := hn
  rw [uint32_never] at hnone
  cases hnone

end

end ModernOpc.Equality
