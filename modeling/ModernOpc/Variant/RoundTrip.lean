import ModernOpc.Variant.Memory
import ModernOpc.Variant.Value
import Mathlib.Data.List.Forall2

/-! Reading a Variant back.

`is_a` compares types and says nothing of scalars and arrays, which is what `isScalar`
is for; `isA_guards_iff` says when a type that `is_a` admits is decoded completely.

`value_round_trip`: the types that are encoded with their length come back whole from a
new Variant, from one that held something else, and from a copy.
`names_round_trip_iff`: browse names and texts go through C strings, and come back
exactly if they have no zero byte. -/
namespace ModernOpc

/-! ### The guard -/

/-- `Variant::is_a<T>`. Both branches compare the type with that of the elements. -/
def isA (t : CppType) (v : Ua.Variant) : Bool :=
  if t.isVector then v.type == some t.elem.dataType else v.type == some t.elem.dataType

/-- The value is what the element holds, and the whole of it. -/
def Scalar.Represents (s : Scalar) (u : Ua.Value) (x : s.El) : Prop :=
  s.ofValue u = some x ∧ ∀ u', s.ofValue u' = some x → u' = u

/-- The value is all that the Variant holds. -/
def Complete : (t : CppType) → Ua.Variant → t.El → Prop
  | .scalar s, v, x => ∃ u, v.elements = [u] ∧ s.Represents u x
  | .vector s, v, xs => List.Forall₂ s.Represents v.elements xs

/-- One element for a scalar type, an array for a vector type. -/
def Fits : CppType → Ua.Variant → Prop
  | .scalar _, v => v.isScalar = true ∨ v.arrayLength = 1
  | .vector _, v => v.isScalar = false

theorem isA_iff {t : CppType} {v : Ua.Variant} : isA t v = true ↔ v.type = some t.elem.dataType := by
  simp [isA]

theorem Scalar.ofValue_injective {s : Scalar} {u u' : Ua.Value} {x : s.El} (h : s.ofValue u = some x)
    (h' : s.ofValue u' = some x) : u' = u := by
  cases s <;> dsimp only [Scalar.ofValue] at h h'
  case string =>
    split at h <;> cases h
    split at h' <;> simp only [Option.some.injEq, fromUAString_eq, reduceCtorEq] at h'
    rw [h']
  case nodeId =>
    split at h <;> cases h
    split at h' <;> simp only [Option.some.injEq, reduceCtorEq] at h'
    rw [NodeId.fromUaNodeId_injective h']
  case qualifiedName =>
    split at h <;> cases h
    split at h' <;> simp only [Option.some.injEq, reduceCtorEq] at h'
    rw [fromUAQualifiedName_injective h']
  case localizedText =>
    split at h <;> cases h
    split at h' <;> simp only [Option.some.injEq, reduceCtorEq] at h'
    rw [fromUALocalizedText_injective h']
  all_goals
    split at h <;> cases h
    split at h' <;> cases h'
    rfl

theorem Scalar.represents_of_kind {s : Scalar} {u : Ua.Value} (h : u.kind = s.kind) :
    ∃ x, s.ofValue u = some x ∧ s.Represents u x := by
  obtain ⟨x, hx⟩ := Scalar.ofValue_of_kind h
  exact ⟨x, hx, hx, fun u' hu' => Scalar.ofValue_injective hx hu'⟩

theorem mapM_represents {s : Scalar} {us : List Ua.Value} (h : ∀ u ∈ us, u.kind = s.kind) :
    ∃ xs, us.mapM s.ofValue = some xs ∧ List.Forall₂ s.Represents us xs := by
  induction us with
  | nil => exact ⟨[], rfl, .nil⟩
  | cons u us ih =>
    obtain ⟨x, hx, hrep⟩ := Scalar.represents_of_kind (h u (List.mem_cons_self ..))
    obtain ⟨xs, hxs, hreps⟩ := ih fun u' hu' => h u' (List.mem_cons_of_mem _ hu')
    exact ⟨x :: xs, by simp [hx, hxs], .cons hrep hreps⟩

section Guard
variable {s : Scalar} {v : Ua.Variant}

theorem element_kind (hw : v.WellFormed) (htype : v.type = some s.dataType) :
    ∀ u ∈ v.elements, u.kind = s.kind := by
  obtain ⟨t, ht, hkind, _⟩ := hw.typed
  cases ht.symm.trans htype
  exact hkind

/-- A scalar type is decoded completely where there is one element. -/
theorem get_scalar_iff (hw : v.WellFormed) (htype : v.type = some s.dataType) :
    (∃ x, get (.scalar s) v = some x ∧ Complete (.scalar s) v x) ↔ Fits (.scalar s) v := by
  constructor
  · intro ⟨x, _, u, hu, _⟩
    cases hs : v.isScalar with
    | true => exact .inl hs
    | false => exact .inr ((hw.array hs).symm.trans (congrArg List.length hu))
  · intro hfits
    have hone : v.elements.length = 1 := by
      cases hs : v.isScalar with
      | true => exact hw.scalar hs
      | false =>
        have hlength := hfits.resolve_left (Bool.eq_false_iff.mp hs)
        exact (hw.array hs).trans hlength
    obtain ⟨u, hu⟩ := List.length_eq_one_iff.mp hone
    obtain ⟨x, hx, hrep⟩ := Scalar.represents_of_kind
      (element_kind hw htype u (hu ▸ List.mem_singleton_self u))
    refine ⟨x, ?_, u, hu, hrep⟩
    show getScalar s v = some x
    rw [getScalar, Ua.Variant.data_of_elements hu]
    exact hx

/-- A vector type is decoded completely from an array; from a scalar nothing is read. -/
theorem get_vector_iff (hw : v.WellFormed) (htype : v.type = some s.dataType) :
    (∃ xs, get (.vector s) v = some xs ∧ Complete (.vector s) v xs) ↔ Fits (.vector s) v := by
  constructor
  · intro ⟨xs, hget, hreps⟩
    refine Bool.eq_false_iff.mpr fun hs => ?_
    have hnone : getVector s v = some [] := if_pos (Ua.Variant.arrayLength_of_scalar hs)
    cases hnone.symm.trans hget
    have hlength := hreps.length_eq
    rw [hw.scalar hs] at hlength
    cases hlength
  · intro hs
    obtain ⟨xs, hxs, hreps⟩ := mapM_represents (element_kind hw htype)
    refine ⟨xs, ?_, hreps⟩
    show getVector s v = some xs
    have hlength := hw.array hs
    cases hu : v.elements with
    | nil =>
      rw [hu] at hlength hxs
      exact (if_pos hlength.symm).trans hxs
    | cons u us =>
      rw [hu] at hlength hxs
      have hne : v.arrayLength ≠ 0 := hlength ▸ Nat.succ_ne_zero _
      rw [getVector, if_neg hne, Ua.Variant.data_of_elements hu, ← hlength]
      show (if (u :: us).length ≤ (u :: us).length then ((u :: us).take (u :: us).length).mapM s.ofValue
        else none) = _
      rw [if_pos (Nat.le_refl _), List.take_length]
      exact hxs

end Guard

/-- Of a Variant whose type `is_a` admits, `get` returns the complete value exactly if the
Variant holds one element, for a scalar type, or an array, for a vector type. -/
theorem isA_guards_iff {t : CppType} {v : Ua.Variant} (hw : v.isEmpty = false → v.WellFormed)
    (h : isA t v = true) : (∃ x, get t v = some x ∧ Complete t v x) ↔ Fits t v := by
  have htype := isA_iff.mp h
  have hw := hw (by simp [Ua.Variant.isEmpty, htype])
  cases t with
  | scalar s => exact get_scalar_iff hw htype
  | vector s => exact get_vector_iff hw htype

theorem isA_guards_array :
    ∃ x, get (.vector .int32) (.setArrayCopy (some [.int32 1, .int32 2]) (Ua.builtin .int32)) = some x ∧
      Complete (.vector .int32) (.setArrayCopy (some [.int32 1, .int32 2]) (Ua.builtin .int32)) x :=
  (isA_guards_iff (fun _ => Ua.Variant.setArrayCopy_wellFormed (by simp [Ua.Value.kind])) rfl).mpr rfl

/-- An array of three is an `int32_t` for `is_a`, and `get` returns the first. -/
theorem isA_admits_arrays : ¬ ∀ (t : CppType) (v : Ua.Variant), t.hasDataType = true → t.hasGet = true →
    (v.isEmpty = false → v.WellFormed) → isA t v = true → ∃ x, get t v = some x ∧ Complete t v x := by
  intro h
  obtain ⟨x, _, u, hu, _⟩ := h (.scalar .int32)
    (.setArrayCopy (some [.int32 1, .int32 2, .int32 3]) (Ua.builtin .int32)) rfl rfl
    (fun _ => Ua.Variant.setArrayCopy_wellFormed (by simp [Ua.Value.kind])) rfl
  cases hu

/-! ### Values encoded with their length -/

/-- `bool`, the integers and strings, and the vectors of these that are encoded and decoded. -/
def CppType.Plain : CppType → Bool
  | .scalar .float | .scalar .double | .scalar .nodeId | .scalar .qualifiedName | .scalar .localizedText => false
  | .scalar _ => true
  | .vector .string | .vector .int32 | .vector .uint32 | .vector .uint64 => true
  | .vector _ => false

/-- The content of a Variant that holds a value. -/
structure Encodes (t : CppType) (x : t.El) (u : Ua.Variant) : Prop where
  decoded : get t u = some x
  type : u.type = some t.elem.dataType
  notEmpty : u.isEmpty = false
  scalar : u.isScalar = true ↔ t.isVector = false

/-- The Variant holds the value, and so does a copy of it. -/
def Keeps (t : CppType) (x : t.El) (v : Variant) (m : Memory) : Prop :=
  (∃ c, m.deref v.variant = some c ∧ Encodes t x (m.content c)) ∧
    ∃ w m' d, v.copy m = some (w, m') ∧ m'.deref w.variant = some d ∧ Encodes t x (m'.content d)

theorem setArrayCopy_not_scalar (source : Option (List Ua.Value)) (t : Ua.DataType) :
    (Ua.Variant.setArrayCopy source t).isScalar = false := by
  unfold Ua.Variant.setArrayCopy
  split <;> rfl

theorem toUAVariant_isScalar {t : CppType} {x : t.El} {u : Ua.Variant} (h : toUAVariant t x = some u) :
    u.isScalar = true ↔ t.isVector = false := by
  cases t with
  | scalar s =>
    obtain ⟨v, _, rfl⟩ := Option.map_eq_some_iff.mp h
    exact ⟨fun _ => rfl, fun _ => rfl⟩
  | vector s =>
    obtain ⟨vs, _, rfl | rfl⟩ := toUAVariantVector_cases h <;> rw [setArrayCopy_not_scalar] <;>
      exact ⟨nofun, nofun⟩

theorem CppType.Plain.marshalled {t : CppType} (h : t.Plain = true) (x : t.El) : t.Marshalled ∧ t.Faithful x := by
  cases t with
  | scalar s => cases s <;> first | exact ⟨⟨rfl, rfl⟩, trivial⟩ | cases h
  | vector s => cases s <;> first | exact ⟨⟨rfl, rfl⟩, fun _ _ => trivial⟩ | cases h

theorem exists_encodes {t : CppType} (h : t.Plain = true) (x : t.El) :
    ∃ u, toUAVariant t x = some u ∧ Encodes t x u := by
  obtain ⟨hm, hf⟩ := CppType.Plain.marshalled h x
  obtain ⟨u, hu, hreceived⟩ := (CppType.faithful_iff hm x).mpr hf
  have hget := CppType.get_toUAVariant hu
  have htype := (toUAVariant_shape hu).1
  refine ⟨u, hu, hreceived ▸ hget, htype, ?_, toUAVariant_isScalar hu⟩
  simp [Ua.Variant.isEmpty, htype]

theorem keeps_of_deref {t : CppType} {x : t.El} {v : Variant} {m : Memory} {c : Cell} (hm : m.Proper)
    (hc : m.deref v.variant = some c) (h : Encodes t x (m.content c)) : Keeps t x v m := by
  obtain ⟨w, m', d, hcopy, hd, hcontent, _⟩ := Variant.copy_of_deref hm hc
  exact ⟨⟨c, hc, h⟩, w, m', d, hcopy, hd, hcontent ▸ h⟩

/-- A value of a plain type comes back from a Variant made of it, from one it was stored
in, whatever that held, and from copies of these. -/
theorem value_round_trip {t : CppType} (ht : t.Plain = true) (x : t.El) {m : Memory} (hm : m.Proper) :
    (∃ v m', Variant.ofValue (toUAVariant t x) m = (some v, m') ∧ Keeps t x v m') ∧
    ∀ (self : Variant) (c : Cell), m.deref self.variant = some c →
      ∃ m', self.call (toUAVariant t x) m = some m' ∧ Keeps t x self m' := by
  obtain ⟨u, hu, hencodes⟩ := exists_encodes ht x
  rw [hu]
  constructor
  · obtain ⟨v, m', c, hmade, hm', hc, hcontent⟩ := Variant.ofValue_stores hm u
    exact ⟨v, m', hmade, keeps_of_deref hm' hc (hcontent ▸ hencodes)⟩
  · intro self c hc
    obtain ⟨m', hcall, hm', hc', hcontent⟩ := Variant.call_stores hc u
    exact ⟨m', hcall, keeps_of_deref (hm' hm) hc' (hcontent ▸ hencodes)⟩

/-- The string of one zero byte. -/
theorem zero_byte_round_trip : ∃ v m',
    Variant.ofValue (toUAVariant (.scalar .string) ([0] : List UInt8)) ⟨fun _ => .init, 0, []⟩ = (some v, m') ∧
      Keeps (.scalar .string) ([0] : List UInt8) v m' :=
  (value_round_trip (t := .scalar .string) rfl ([0] : List UInt8) (fun n hn => by cases hn)).1

/-! ### Names and texts -/

/-- The value comes back from a Variant made of it, and from any it is stored in. -/
def ReadsBack (t : CppType) (x : t.El) (m : Memory) : Prop :=
  (∃ v m' c, Variant.ofValue (toUAVariant t x) m = (some v, m') ∧ m'.deref v.variant = some c ∧
    get t (m'.content c) = some x) ∧
  ∀ (self : Variant) (c : Cell), m.deref self.variant = some c →
    ∃ m', self.call (toUAVariant t x) m = some m' ∧ get t (m'.content c) = some x

theorem readsBack_iff {t : CppType} {x : t.El} {u : Ua.Variant} {m : Memory} (hm : m.Proper)
    (hu : toUAVariant t x = some u) : ReadsBack t x m ↔ t.received x = x := by
  have hget := CppType.get_toUAVariant hu
  obtain ⟨v, m', c, hmade, _, hc, hcontent⟩ := Variant.ofValue_stores hm u
  unfold ReadsBack
  rw [hu]
  constructor
  · intro ⟨⟨v', m'', c', hmade', hc', hback⟩, _⟩
    cases hmade.symm.trans hmade'
    cases hc.symm.trans hc'
    rw [hcontent, hget] at hback
    exact Option.some.inj hback
  · intro hsame
    rw [hsame] at hget
    refine ⟨⟨v, m', c, hmade, hc, hcontent ▸ hget⟩, fun self c' hc' => ?_⟩
    obtain ⟨m'', hcall, _, _, hcontent'⟩ := Variant.call_stores hc' u
    exact ⟨m'', hcall, hcontent' ▸ hget⟩

theorem QualifiedName.fromQualifiedName_eq_iff {q q' : QualifiedName} :
    fromQualifiedName q' = fromQualifiedName q ↔ q'.truncated = q.truncated := by
  rw [← QualifiedName.fromUAQualifiedName_fromQualifiedName,
    ← QualifiedName.fromUAQualifiedName_fromQualifiedName]
  exact ⟨congrArg fromUAQualifiedName, fromUAQualifiedName_injective⟩

theorem QualifiedName.truncated_zeroFree (q : QualifiedName) : q.truncated.ZeroFree :=
  Library.Bytes.zero_not_mem_cString q.n

/-- A browse name is told apart from the others that survive exactly if it does. -/
theorem QualifiedName.told_apart_iff (q : QualifiedName) :
    (∀ q' : QualifiedName, q'.ZeroFree → q' ≠ q → (fromQualifiedName q').equal (fromQualifiedName q) = false) ↔
      q.ZeroFree := by
  constructor
  · intro h
    refine Classical.byContradiction fun hz => ?_
    have hne : q.truncated ≠ q := fun he => hz (truncated_eq_self.mp he)
    have hsame : fromQualifiedName q.truncated = fromQualifiedName q :=
      fromQualifiedName_eq_iff.mpr (truncated_eq_self.mpr q.truncated_zeroFree)
    have hapart := h q.truncated q.truncated_zeroFree hne
    rw [(Ua.QualifiedName.equal_iff _ _).mpr hsame] at hapart
    cases hapart
  · intro hz q' hz' hne
    refine Bool.eq_false_iff.mpr fun heq => hne ?_
    have hsame := fromQualifiedName_eq_iff.mp ((Ua.QualifiedName.equal_iff _ _).mp heq)
    rwa [truncated_eq_self.mpr hz', truncated_eq_self.mpr hz] at hsame

/-- Browse names and texts come back from open62541 and from a Variant, and names are told
apart, exactly if they have no zero byte. -/
theorem names_round_trip_iff {m : Memory} (hm : m.Proper) (q : QualifiedName) (lt : LocalizedText) :
    (fromUAQualifiedName (fromQualifiedName q) = q ↔ q.ZeroFree) ∧
    (ReadsBack (.scalar .qualifiedName) q m ↔ q.ZeroFree) ∧
    ((∀ q' : QualifiedName, q'.ZeroFree → q' ≠ q → (fromQualifiedName q').equal (fromQualifiedName q) = false) ↔
      q.ZeroFree) ∧
    (fromUALocalizedText (fromLocalizedText lt) = lt ↔ lt.ZeroFree) ∧
    (ReadsBack (.scalar .localizedText) lt m ↔ lt.ZeroFree) := by
  refine ⟨?_, ?_, q.told_apart_iff, ?_, ?_⟩
  · rw [QualifiedName.fromUAQualifiedName_fromQualifiedName]
    exact QualifiedName.truncated_eq_self
  · exact (readsBack_iff hm rfl).trans QualifiedName.truncated_eq_self
  · rw [LocalizedText.fromUALocalizedText_fromLocalizedText]
    exact LocalizedText.truncated_eq_self
  · exact (readsBack_iff hm rfl).trans LocalizedText.truncated_eq_self

/-- `QualifiedName(1, "ab")` and `LocalizedText("", "ab")`. -/
theorem names_round_trip_ab :
    fromUAQualifiedName (fromQualifiedName ⟨1, [0x61, 0x62]⟩) = ⟨1, [0x61, 0x62]⟩ ∧
    ReadsBack (.scalar .localizedText) (⟨[], [0x61, 0x62]⟩ : LocalizedText) ⟨fun _ => .init, 0, []⟩ :=
  have hproper : Memory.Proper ⟨fun _ => .init, 0, []⟩ := fun n hn => by cases hn
  have ⟨htrip, _, _, _, hback⟩ := names_round_trip_iff hproper ⟨1, [0x61, 0x62]⟩ ⟨[], [0x61, 0x62]⟩
  ⟨htrip.mpr (by simp [QualifiedName.ZeroFree]), hback.mpr (by simp [LocalizedText.ZeroFree])⟩

/-- The name of `a`, a zero byte and `b` comes back as `a`. -/
theorem name_cut_at_zero : ¬ ∀ q : QualifiedName, fromUAQualifiedName (fromQualifiedName q) = q := by
  intro h
  have hcut := h ⟨1, [0x61, 0, 0x62]⟩
  exact absurd hcut (by decide)

end ModernOpc
