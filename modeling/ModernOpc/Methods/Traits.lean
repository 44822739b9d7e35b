import ModernOpc.Methods.Call

/-! Declared arguments against dispatched ones.

`ObjectNode::addMethod` declares a method's arguments with `MethodTraits` and then
binds a `Call`, two recursions over one signature. open62541 refuses a request that
does not fit the declaration, so what matters is that they agree (`Agrees`): as many
arguments declared as decoded and written, encoded values allowed where they belong,
and every allowed Variant decoded completely.

`agrees_iff`: they agree exactly on signatures with no vector parameter and no vector
result under `const` or a reference. -/
namespace ModernOpc
open Library

/-- A parameter or result type as written: the type, and whether under `const` or a
reference. -/
structure Declared where
  type : CppType
  qualified : Bool
  deriving DecidableEq, Repr

inductive DeclaredResult where
  | void
  | single (d : Declared)
  | tuple (ds : List Declared)
  deriving DecidableEq, Repr

/-- A method's signature; the object of a member function is not part of it. -/
structure Signature where
  inputs : List Declared
  result : DeclaredResult
  deriving DecidableEq, Repr

def DeclaredResult.components : DeclaredResult → List Declared
  | void => []
  | single d => [d]
  | tuple ds => ds

/-- The result as `Call` sees it: `R result` drops the qualifiers. -/
def DeclaredResult.shape : DeclaredResult → ResultShape
  | void => .void
  | single d => .single d.type
  | tuple ds => .tuple (ds.map Declared.type)

/-- The signatures `ObjectNode::addMethod` compiles for. -/
structure Signature.Accepted (sig : Signature) : Prop where
  inputs : ∀ d ∈ sig.inputs, d.type.hasDataType = true ∧ d.type.defaultConstructible = true
  outputs : ∀ d ∈ sig.result.components, d.type.hasDataType = true

theorem Signature.Accepted.constructible {sig : Signature} (h : sig.Accepted) :
    ∀ t ∈ sig.inputs.map Declared.type, t.defaultConstructible = true := by
  intro t ht
  obtain ⟨d, hd, rfl⟩ := List.mem_map.mp ht
  exact (h.inputs d hd).2

namespace MethodTraits

/-- `is_vector<T>::value`: not of a qualified type. -/
def isVector (d : Declared) : Bool := d.type.isVector && !d.qualified

/-- `getDataType<std::remove_const_t<std::remove_reference_t<T>>>()->typeId`. -/
def dataTypeId (d : Declared) : Ua.NodeId := d.type.elem.dataType.typeId

/-- `getInputArgument<T>`. -/
def getInputArgument (d : Declared) : Ua.Argument :=
  { name := []
    dataType := dataTypeId d
    valueRank := Ua.valueRankScalar }

/-- `getOutputArgument<T>`. -/
def getOutputArgument (d : Declared) : Ua.Argument :=
  { name := []
    dataType := dataTypeId d
    valueRank := if isVector d then Ua.valueRankOneDimension else Ua.valueRankScalar }

/-- `getInputArguments`. -/
def getInputArguments (sig : Signature) : List Ua.Argument :=
  if sig.inputs.length ≤ 0 then [] else sig.inputs.map getInputArgument

/-- `getOutputArguments`: nothing for `void`, one for each component of a tuple. -/
def getOutputArguments (sig : Signature) : List Ua.Argument :=
  match sig.result with
  | .void => []
  | .tuple ds => ds.map getOutputArgument
  | .single d => [getOutputArgument d]

theorem getInputArguments_eq (sig : Signature) :
    getInputArguments sig = sig.inputs.map getInputArgument := by
  unfold getInputArguments
  split
  · next h => rw [List.eq_nil_of_length_eq_zero (Nat.le_zero.mp h), List.map_nil]
  · rfl

theorem getOutputArguments_eq (sig : Signature) :
    getOutputArguments sig = sig.result.components.map getOutputArgument := by
  unfold getOutputArguments DeclaredResult.components
  split <;> simp_all

end MethodTraits

/-! ### What a Variant holds -/

/-- The Variant holds the value and nothing else: one element for a scalar, all the
elements of an array for a vector. -/
def Holds : (t : CppType) → Ua.Variant → t.El → Prop
  | .scalar s, v, x => v.isScalar = true ∧ ∃ u, v.elements = [u] ∧ s.ofValue u = some x
  | .vector s, v, xs => v.isScalar = false ∧ v.elements.mapM s.ofValue = some xs

/-- A well-formed Variant of a scalar's type and no dimension holds one value of it. -/
theorem get_scalar_complete {s : Scalar} {v : Ua.Variant} (hw : v.WellFormed)
    (ht : ∃ t, v.type = some t ∧ t.typeId = s.dataType.typeId) (hr : v.rank = 0) :
    ∃ x, get (.scalar s) v = some x ∧ Holds (.scalar s) v x := by
  obtain ⟨t, hvt, hid⟩ := ht
  obtain ⟨t', hvt', hkind, hreg⟩ := hw.typed
  rw [hvt, Option.some.injEq] at hvt'
  subst hvt'
  have hbuiltin : t = Ua.builtin s.kind := hreg s.kind hid
  have hscalar : v.isScalar = true := by
    unfold Ua.Variant.rank at hr
    split at hr
    · split at hr
      · assumption
      · cases hr
    · next hd =>
      rw [List.isEmpty_iff] at hd
      exact absurd (List.length_eq_zero_iff.mp hr) hd
  obtain ⟨u, hu⟩ := List.length_eq_one_iff.mp (hw.scalar hscalar)
  obtain ⟨x, hx⟩ : ∃ x, s.ofValue u = some x := by
    apply Scalar.ofValue_of_kind
    rw [hkind u (by rw [hu]; exact List.mem_singleton_self u), hbuiltin]
    rfl
  refine ⟨x, ?_, hscalar, u, hu, hx⟩
  show getScalar s v = some x
  rw [getScalar, Ua.Variant.data_of_elements hu]
  exact hx

/-- Declaration and dispatch agree on a signature. -/
structure Agrees (sig : Signature) : Prop where
  /-- As many inputs are declared as the input loop counts. -/
  decoded : ∀ inputs args k,
    Call.decodeInputs (sig.inputs.map Declared.type) inputs = some (args, k) →
      k = (MethodTraits.getInputArguments sig).length
  /-- As many outputs are declared as are written. -/
  written : ∀ (result : sig.result.shape.El) vs,
    (sig.result.shape.toTuple result).traverse toUAVariant = some vs →
      vs.length = (MethodTraits.getOutputArguments sig).length ∧
      ∀ outputs : List Ua.Variant, vs.length ≤ outputs.length →
        Call.encodeResult sig.result.shape result outputs = some (Tuple.overwrite outputs 0 vs)
  /-- What a parameter's values are encoded to is allowed at its place. -/
  inputs_fit : ∀ (i : Nat) d arg, sig.inputs[i]? = some d →
    (MethodTraits.getInputArguments sig)[i]? = some arg →
      ∀ x v, toUAVariant d.type x = some v → arg.Allows v
  /-- What a result's values are encoded to is allowed at its place. -/
  outputs_fit : ∀ (i : Nat) d arg, sig.result.components[i]? = some d →
    (MethodTraits.getOutputArguments sig)[i]? = some arg →
      ∀ x v, toUAVariant d.type x = some v → arg.Allows v
  /-- Inputs that fit what is declared are decoded completely. -/
  complete : ∀ inputs : List Ua.Variant, inputs.length = (MethodTraits.getInputArguments sig).length →
    (∀ (i : Nat) arg v, (MethodTraits.getInputArguments sig)[i]? = some arg → inputs[i]? = some v →
      v.WellFormed ∧ arg.Allows v) →
    ∃ args k, Call.decodeInputs (sig.inputs.map Declared.type) inputs = some (args, k) ∧
      ∀ (j : Nat) (c : Sigma CppType.El), args.components[j]? = some c →
        ∃ v, inputs[j]? = some v ∧ Holds c.1 v c.2

namespace MethodTraits

theorem getInputArgument_allows {d : Declared} {v : Ua.Variant} :
    (getInputArgument d).Allows v ↔
      (∃ t, v.type = some t ∧ t.typeId = dataTypeId d) ∧ v.rank = 0 := by
  simp [Ua.Argument.Allows, getInputArgument]

theorem getOutputArgument_allows {d : Declared} {v : Ua.Variant} :
    (getOutputArgument d).Allows v ↔
      (∃ t, v.type = some t ∧ t.typeId = dataTypeId d) ∧ v.rank = if isVector d then 1 else 0 := by
  unfold Ua.Argument.Allows getOutputArgument
  cases isVector d <;> simp

/-- An encoded value fits the input declared for it unless it is a vector. -/
theorem encoded_input_allowed {d : Declared} {x : d.type.El} {v : Ua.Variant}
    (h : toUAVariant d.type x = some v) :
    (getInputArgument d).Allows v ↔ d.type.isVector = false := by
  obtain ⟨ht, hr⟩ := toUAVariant_shape h
  rw [getInputArgument_allows, hr]
  cases d.type.isVector
  · exact ⟨fun _ => rfl, fun _ => ⟨⟨_, ht, rfl⟩, rfl⟩⟩
  · exact ⟨fun ha => absurd ha.2 (by decide), fun hv => absurd hv (by decide)⟩

/-- An encoded value fits the output declared for it unless it is a qualified vector. -/
theorem encoded_output_allowed {d : Declared} {x : d.type.El} {v : Ua.Variant}
    (h : toUAVariant d.type x = some v) :
    (getOutputArgument d).Allows v ↔ (d.type.isVector = true → d.qualified = false) := by
  obtain ⟨ht, hr⟩ := toUAVariant_shape h
  have htype : ∃ t, v.type = some t ∧ t.typeId = dataTypeId d := ⟨_, ht, rfl⟩
  rw [getOutputArgument_allows, hr, isVector]
  cases d.type.isVector <;> cases d.qualified <;> simp [htype]

/-- A value of every type with a data type can be encoded. -/
theorem exists_encoded {t : CppType} (h : t.hasDataType = true) : ∃ x v, toUAVariant t x = some v := by
  cases t with
  | scalar s =>
    cases hs : s.default with
    | some x =>
      refine ⟨x, ?_⟩
      cases s <;> cases hs <;> exact ⟨_, rfl⟩
    | none =>
      cases s
      case localizedText => exact ⟨(⟨[], []⟩ : LocalizedText), _, rfl⟩
      all_goals cases hs
  | vector s =>
    refine ⟨[], ?_⟩
    cases s <;> first | exact ⟨_, rfl⟩ | exact absurd h (by decide)

/-- Every position of the declared inputs declares the parameter there. -/
theorem input_at {sig : Signature} {i : Nat} {d : Declared} {arg : Ua.Argument}
    (hd : sig.inputs[i]? = some d) (ha : (getInputArguments sig)[i]? = some arg) :
    arg = getInputArgument d := by
  rw [getInputArguments_eq, List.getElem?_map, hd, Option.map_some, Option.some.injEq] at ha
  exact ha.symm

theorem output_at {sig : Signature} {i : Nat} {d : Declared} {arg : Ua.Argument}
    (hd : sig.result.components[i]? = some d) (ha : (getOutputArguments sig)[i]? = some arg) :
    arg = getOutputArgument d := by
  rw [getOutputArguments_eq, List.getElem?_map, hd, Option.map_some, Option.some.injEq] at ha
  exact ha.symm

/-- A Variant allowed at the place of a scalar parameter decodes there. -/
theorem allowed_decodes {sig : Signature} (hins : ∀ d ∈ sig.inputs, d.type.isVector = false) {i : Nat}
    {t : CppType} {inputs : List Ua.Variant} {v : Ua.Variant}
    (ht : (sig.inputs.map Declared.type)[i]? = some t) (hv : inputs[i]? = some v)
    (hfit : ∀ arg v, (getInputArguments sig)[i]? = some arg → inputs[i]? = some v →
      v.WellFormed ∧ arg.Allows v) :
    ∃ x, get t v = some x ∧ Holds t v x := by
  rw [List.getElem?_map, Option.map_eq_some_iff] at ht
  obtain ⟨d, hd, rfl⟩ := ht
  have harg : (getInputArguments sig)[i]? = some (getInputArgument d) := by
    rw [getInputArguments_eq, List.getElem?_map, hd, Option.map_some]
  obtain ⟨hw, hallow⟩ := hfit _ v harg hv
  rw [getInputArgument_allows] at hallow
  have hscalar := hins d (List.mem_of_getElem? hd)
  obtain ⟨t, q⟩ := d
  cases t with
  | vector s => exact absurd hscalar (by simp [CppType.isVector])
  | scalar s => exact get_scalar_complete (s := s) hw hallow.1 hallow.2

end MethodTraits

theorem DeclaredResult.shape_types_length (r : DeclaredResult) :
    r.shape.types.length = r.components.length := by
  cases r with
  | void => rfl
  | single d => rfl
  | tuple ds => simp [shape, ResultShape.types, components]

namespace Agrees
variable {sig : Signature}

/-- A vector parameter is declared a scalar. -/
theorem no_vector_input (ha : Agrees sig) (h : sig.Accepted) : ∀ d ∈ sig.inputs, d.type.isVector = false := by
  intro d hd
  obtain ⟨i, hi⟩ := List.getElem?_of_mem hd
  obtain ⟨x, v, hv⟩ := MethodTraits.exists_encoded (h.inputs d hd).1
  have harg : (MethodTraits.getInputArguments sig)[i]? = some (MethodTraits.getInputArgument d) := by
    rw [MethodTraits.getInputArguments_eq, List.getElem?_map, hi, Option.map_some]
  exact (MethodTraits.encoded_input_allowed hv).mp (ha.inputs_fit i d _ hi harg x v hv)

/-- So is a vector result under `const` or a reference. -/
theorem no_qualified_vector_output (ha : Agrees sig) (h : sig.Accepted) :
    ∀ d ∈ sig.result.components, d.type.isVector = true → d.qualified = false := by
  intro d hd
  obtain ⟨i, hi⟩ := List.getElem?_of_mem hd
  obtain ⟨x, v, hv⟩ := MethodTraits.exists_encoded (h.outputs d hd)
  have harg : (MethodTraits.getOutputArguments sig)[i]? = some (MethodTraits.getOutputArgument d) := by
    rw [MethodTraits.getOutputArguments_eq, List.getElem?_map, hi, Option.map_some]
  exact (MethodTraits.encoded_output_allowed hv).mp (ha.outputs_fit i d _ hi harg x v hv)

/-- Nothing else stands in the way. -/
theorem of_scalar_inputs (h : sig.Accepted) (hins : ∀ d ∈ sig.inputs, d.type.isVector = false)
    (houts : ∀ d ∈ sig.result.components, d.type.isVector = true → d.qualified = false) :
    Agrees sig := by
  refine ⟨?_, ?_, ?_, ?_, ?_⟩
  · intro inputs args k hk
    rw [Call.decodeInputs_eq h.constructible] at hk
    obtain ⟨_, _, he⟩ := Option.map_eq_some_iff.mp hk
    obtain ⟨rfl, rfl⟩ := he
    rw [MethodTraits.getInputArguments_eq, List.length_map, List.length_map]
  · intro result vs hvs
    have hlen := Tuple.traverse_length hvs
    refine ⟨?_, fun outputs ho => ?_⟩
    · rw [hlen, MethodTraits.getOutputArguments_eq, List.length_map, DeclaredResult.shape_types_length]
    · rw [Call.encodeResult_eq _ outputs (by rw [← hlen]; exact ho), hvs]
      rfl
  · intro i d arg hd ha x v hv
    rw [MethodTraits.input_at hd ha, MethodTraits.encoded_input_allowed hv]
    exact hins d (List.mem_of_getElem? hd)
  · intro i d arg hd ha x v hv
    rw [MethodTraits.output_at hd ha, MethodTraits.encoded_output_allowed hv]
    exact houts d (List.mem_of_getElem? hd)
  · intro inputs hlen hfit
    rw [MethodTraits.getInputArguments_eq, List.length_map] at hlen
    have hdecoded : ∀ (i : Nat) t v, (sig.inputs.map Declared.type)[i]? = some t → inputs[i]? = some v →
        ∃ x, get t v = some x ∧ Holds t v x :=
      fun i t v ht hv => MethodTraits.allowed_decodes hins ht hv (hfit i)
    obtain ⟨args, hargs, hholds⟩ := Tuple.ofList_complete (by rw [List.length_map, hlen]) hdecoded
    exact ⟨args, _, by rw [Call.decodeInputs_eq h.constructible, hargs]; rfl, hholds⟩

end Agrees

/-- Declaration and dispatch agree exactly on the signatures with no vector parameter
and no vector result under `const` or a reference. -/
theorem agrees_iff (sig : Signature) (h : sig.Accepted) :
    Agrees sig ↔ (∀ d ∈ sig.inputs, d.type.isVector = false) ∧
      (∀ d ∈ sig.result.components, d.type.isVector = true → d.qualified = false) :=
  ⟨fun ha => ⟨ha.no_vector_input h, ha.no_qualified_vector_output h⟩,
    fun ⟨hins, houts⟩ => .of_scalar_inputs h hins houts⟩

/-- `std::tuple<int, std::vector<int>> f(int, const std::string &)`. -/
theorem agrees_int_string :
    Agrees ⟨[⟨.scalar .int32, false⟩, ⟨.scalar .string, true⟩],
      .tuple [⟨.scalar .int32, false⟩, ⟨.vector .int32, false⟩]⟩ :=
  (agrees_iff _ ⟨by decide, by decide⟩).mpr ⟨by decide, by decide⟩

/-- `void f(std::vector<int>)` is accepted, and its parameter declared a scalar. -/
theorem vector_parameter_disagrees : ¬ ∀ sig : Signature, sig.Accepted → Agrees sig := by
  intro h
  have haccepted : Signature.Accepted ⟨[⟨.vector .int32, false⟩], .void⟩ := ⟨by decide, by decide⟩
  exact absurd ((h _ haccepted).no_vector_input haccepted) (by decide)

end ModernOpc
