import ModernOpc.Library.Tuple
import ModernOpc.Variant.Value

/-! Typed callables behind Variants.

`Call<std::function<…>>::call` decodes the input Variants into a tuple with a running
index, applies the function and encodes the result into the output Variants, with a
second running index when the result is a tuple. There are two such classes, one for
functions and one for member functions, which are applied to the object as well.

The two vectors are taken by what their Variants hold. A callable may keep state of
its own: its result depends on the invocations it has seen, and that history is what
shows how often, and on what, it was invoked. -/
namespace ModernOpc
open Library

/-- The values of a `std::tuple` of C++ types. -/
abbrev Args (ts : List CppType) := Tuple CppType.El ts

/-- What a callable returns: nothing, one value, or a tuple. -/
inductive ResultShape where
  | void
  | single (t : CppType)
  | tuple (ts : List CppType)
  deriving DecidableEq, Repr

namespace ResultShape

@[reducible] def El : ResultShape → Type
  | void => Unit
  | single t => t.El
  | tuple ts => Args ts

@[reducible] def types : ResultShape → List CppType
  | void => []
  | single t => [t]
  | tuple ts => ts

/-- A result as the tuple of its components. -/
@[reducible] def toTuple : (res : ResultShape) → res.El → Args res.types
  | void, _ => .nil
  | single _, x => .cons x .nil
  | tuple _, xs => xs

end ResultShape

/-- One invocation: the object, for a member function, and the arguments. -/
structure Invocation (ω : Type) (ins : List CppType) where
  obj : Option ω
  args : Args ins

/-- A callable: its result from the earlier invocations and the present one. -/
abbrev Callable (ω : Type) (ins : List CppType) (res : ResultShape) :=
  List (Invocation ω ins) → Invocation ω ins → res.El

/-- What a call leaves: the status returned, the two vectors and the callable's history. -/
structure Called (ω : Type) (ins : List CppType) where
  returned : Bool
  inputs : List Ua.Variant
  outputs : List Ua.Variant
  history : List (Invocation ω ins)

namespace Call
variable {ω : Type} {ins : List CppType} {res : ResultShape}

/-- `std::tuple<…> inputArgs;` and `for_each` over it: `x = inputArguments[i].get<…>(); i++;`.
The class does not compile for a type without a default constructor, so no call has a
result there. -/
def decodeInputs (ins : List CppType) (inputArguments : List Ua.Variant) : Option (Args ins × Nat) := do
  let inputArgs ← Tuple.fill CppType.default ins
  inputArgs.forEach (Tuple.readBody get inputArguments) 0

/-- `if constexpr`: nothing for `void`, `for_each` for a tuple, else `outputArguments[0]`. -/
def encodeResult : (res : ResultShape) → res.El → List Ua.Variant → Option (List Ua.Variant)
  | .void, _, outputArguments => some outputArguments
  | .tuple _, result, outputArguments =>
    (result.forEach (Tuple.writeBody toUAVariant) (outputArguments, 0)).map (·.2.1)
  | .single t, result, outputArguments =>
    (Tuple.writeBody toUAVariant t result (outputArguments, 0)).map (·.2.1)

/-- Decode, invoke, encode. -/
def run (f : Callable ω ins res) (obj : Option ω) (inputArguments outputArguments : List Ua.Variant)
    (history : List (Invocation ω ins)) : Option (Called ω ins) := do
  let (inputArgs, _) ← decodeInputs ins inputArguments
  let invocation := ⟨obj, inputArgs⟩
  let result := f history invocation
  let outputs ← encodeResult res result outputArguments
  return ⟨true, inputArguments, outputs, history ++ [invocation]⟩

/-- `Call<std::function<R(INARGS...)>>::call`: the object is not used. -/
def callFunction (f : Callable ω ins res) (_obj : ω) (inputArguments outputArguments : List Ua.Variant)
    (history : List (Invocation ω ins)) : Option (Called ω ins) :=
  run f none inputArguments outputArguments history

/-- `Call<std::function<R(ClassType *, INARGS...)>>::call`: the object comes first. -/
def callMember (f : Callable ω ins res) (obj : ω) (inputArguments outputArguments : List Ua.Variant)
    (history : List (Invocation ω ins)) : Option (Called ω ins) :=
  run f (some obj) inputArguments outputArguments history

theorem fill_default_isSome : (Tuple.fill CppType.default ins).isSome = true ↔
    ∀ t ∈ ins, t.defaultConstructible = true := by
  simp only [Tuple.fill_isSome, List.all_eq_true, CppType.default_isSome]

/-- The input loop reads the Variants in order, one for each parameter. -/
theorem decodeInputs_eq (hdef : ∀ t ∈ ins, t.defaultConstructible = true) (inputArguments : List Ua.Variant) :
    decodeInputs ins inputArguments = (Tuple.ofList get ins inputArguments).map (·, ins.length) := by
  obtain ⟨inputArgs, hargs⟩ := Option.isSome_iff_exists.mp (fill_default_isSome.mpr hdef)
  rw [decodeInputs, hargs, Option.bind_eq_bind, Option.bind_some, Tuple.forEach_read, List.drop_zero,
    Nat.zero_add]

/-- Where a call has a result, its arguments have default constructors. -/
theorem constructible_of_run {f : Callable ω ins res} {obj : Option ω} {inputs outputs : List Ua.Variant}
    {past : List (Invocation ω ins)} {called : Called ω ins} (h : run f obj inputs outputs past = some called) :
    ∀ t ∈ ins, t.defaultConstructible = true := by
  obtain ⟨_, hdecoded, _⟩ := Option.bind_eq_some_iff.mp h
  obtain ⟨inputArgs, hargs, _⟩ := Option.bind_eq_some_iff.mp hdecoded
  exact fill_default_isSome.mp (Option.isSome_iff_exists.mpr ⟨inputArgs, hargs⟩)

/-- Decoding encoded arguments gives them as received. -/
theorem decodeInputs_encoded (hdef : ∀ t ∈ ins, t.defaultConstructible = true) {args : Args ins}
    {inputs : List Ua.Variant} (h : args.traverse toUAVariant = some inputs) :
    decodeInputs ins inputs = some (args.map CppType.received, ins.length) := by
  have hdec := Tuple.ofList_traverse (g := get) (r := CppType.received)
    (fun _ _ _ => CppType.get_toUAVariant) h []
  rw [List.append_nil] at hdec
  rw [decodeInputs_eq hdef, hdec]
  rfl

/-- The output loop overwrites the first outputs with the components, in order. -/
theorem encodeTuple_eq {ts : List CppType} (result : Args ts) (outputs : List Ua.Variant)
    (h : ts.length ≤ outputs.length) :
    (result.forEach (Tuple.writeBody toUAVariant) (outputs, 0)).map (·.2.1) =
      (result.traverse toUAVariant).map (Tuple.overwrite outputs 0) := by
  rw [Tuple.forEach_write toUAVariant result outputs 0 (by omega), Option.map_map]
  rfl

/-- A single result is written as a tuple of one, and nothing as the empty tuple. -/
theorem encodeResult_forEach (result : res.El) (outputs : List Ua.Variant) :
    encodeResult res result outputs =
      ((res.toTuple result).forEach (Tuple.writeBody toUAVariant) (outputs, 0)).map (·.2.1) := by
  cases res with
  | void => rfl
  | tuple ts => rfl
  | single t =>
    rw [encodeResult, Tuple.forEach]
    cases Tuple.writeBody toUAVariant t result (outputs, 0) <;> rfl

theorem encodeResult_eq (result : res.El) (outputs : List Ua.Variant)
    (h : res.types.length ≤ outputs.length) :
    encodeResult res result outputs =
      ((res.toTuple result).traverse toUAVariant).map (Tuple.overwrite outputs 0) := by
  rw [encodeResult_forEach, encodeTuple_eq _ outputs h]

/-- A call on encoded arguments invokes the callable once, on the arguments as received,
and encodes what it returns. -/
theorem run_encoded (hdef : ∀ t ∈ ins, t.defaultConstructible = true) (f : Callable ω ins res) (obj : Option ω)
    {args : Args ins} {inputs : List Ua.Variant} (h : args.traverse toUAVariant = some inputs)
    (outputs : List Ua.Variant) (hlen : res.types.length ≤ outputs.length)
    (past : List (Invocation ω ins)) :
    run f obj inputs outputs past =
      ((res.toTuple (f past ⟨obj, args.map CppType.received⟩)).traverse toUAVariant).map fun vs =>
        ⟨true, inputs, Tuple.overwrite outputs 0 vs, past ++ [⟨obj, args.map CppType.received⟩]⟩ := by
  simp only [run, decodeInputs_encoded hdef h, encodeResult_eq _ outputs hlen, Option.bind_eq_bind,
    Option.bind_some, Option.pure_def]
  cases (res.toTuple (f past ⟨obj, args.map CppType.received⟩)).traverse toUAVariant <;> rfl

/-! ### Marshalling -/

/-- A tuple of types that can be encoded and decoded survives both exactly if every
component is faithful. -/
theorem survives_iff {ts : List CppType} (hts : ∀ t ∈ ts, t.Marshalled) (xs : Args ts) :
    ((∃ vs, xs.traverse toUAVariant = some vs) ∧ xs.map CppType.received = xs) ↔
      xs.All CppType.Faithful := by
  have hall : ∀ c ∈ xs.components,
      ((∃ v, toUAVariant c.1 c.2 = some v) ∧ c.1.received c.2 = c.2) ↔ c.1.Faithful c.2 := by
    intro c hc
    rw [← CppType.faithful_iff (hts _ (Tuple.mem_of_mem_components hc)) c.2]
    exact ⟨fun ⟨⟨v, hv⟩, hx⟩ => ⟨v, hv, hx⟩, fun ⟨v, hv, hx⟩ => ⟨⟨v, hv⟩, hx⟩⟩
  rw [Tuple.map_eq_self]
  constructor
  · intro ⟨⟨vs, hvs⟩, hx⟩
    have henc := (Tuple.all_iff_components xs).mp (Tuple.all_of_traverse hvs)
    rw [Tuple.all_iff_components] at hx ⊢
    exact fun c hc => (hall c hc).mp ⟨henc c hc, hx c hc⟩
  · intro hf
    rw [Tuple.all_iff_components] at hf ⊢
    refine ⟨Tuple.traverse_of_all ((Tuple.all_iff_components xs).mpr ?_), ?_⟩
    · exact fun c hc => ((hall c hc).mpr (hf c hc)).1
    · exact fun c hc => ((hall c hc).mpr (hf c hc)).2

/-- Output `j` decodes to the `j`-th component, for every `j`. -/
def Decodes {ts : List CppType} (xs : Args ts) (outputs : List Ua.Variant) : Prop :=
  ∀ (j : Nat) (c : Sigma CppType.El), xs.components[j]? = some c →
    ∃ v, outputs[j]? = some v ∧ get c.1 v = some c.2

theorem decodes_encoded {ts : List CppType} {xs : Args ts} {vs : List Ua.Variant}
    (h : xs.traverse toUAVariant = some vs) (outputs : List Ua.Variant) :
    Decodes xs (Tuple.overwrite outputs 0 vs) ↔ xs.map CppType.received = xs := by
  have hget : ∀ (j : Nat) (c : Sigma CppType.El), xs.components[j]? = some c →
      ∃ v, (Tuple.overwrite outputs 0 vs)[j]? = some v ∧ get c.1 v = some (c.1.received c.2) := by
    intro j c hc
    obtain ⟨v, hv, henc⟩ := Tuple.traverse_getElem h j c hc
    have hj : j < vs.length := (List.getElem?_eq_some_iff.mp hv).1
    exact ⟨v, by rw [Tuple.overwrite_getElem?_inside _ _ hj, hv], CppType.get_toUAVariant henc⟩
  rw [Tuple.map_eq_self, Tuple.all_iff_components]
  constructor
  · intro hd c hc
    obtain ⟨j, hj⟩ := List.getElem?_of_mem hc
    obtain ⟨v, hv, hx⟩ := hget j c hj
    obtain ⟨v', hv', hx'⟩ := hd j c hj
    rw [hv, Option.some.injEq] at hv'
    subst hv'
    rw [hx, Option.some.injEq] at hx'
    exact hx'
  · intro hr j c hc
    obtain ⟨v, hv, hx⟩ := hget j c hc
    rw [hr c (List.mem_of_getElem? hc)] at hx
    exact ⟨v, hv, hx⟩

/-- The marshalling contract of a call on the encoded arguments: the callable is invoked
exactly once, on the object and exactly the arguments; the call returns true; the
outputs decode to the result; those beyond it and the inputs are as before. -/
def Marshals (call : List Ua.Variant → Option (Called ω ins)) (f : Callable ω ins res)
    (invocation : Invocation ω ins) (outputs : List Ua.Variant) (past : List (Invocation ω ins)) : Prop :=
  ∃ inputs called, invocation.args.traverse toUAVariant = some inputs ∧ call inputs = some called ∧
    called.history = past ++ [invocation] ∧ called.returned = true ∧
    Decodes (res.toTuple (f past invocation)) called.outputs ∧
    (∀ j, res.types.length ≤ j → called.outputs[j]? = outputs[j]?) ∧ called.inputs = inputs

theorem marshals_iff (f : Callable ω ins res) (obj : Option ω) (args : Args ins)
    (outputs : List Ua.Variant) (past : List (Invocation ω ins))
    (hins : ∀ t ∈ ins, t.Marshalled) (hres : ∀ t ∈ res.types, t.Marshalled)
    (hlen : res.types.length ≤ outputs.length) :
    Marshals (fun inputs => run f obj inputs outputs past) f ⟨obj, args⟩ outputs past ↔
      (∀ t ∈ ins, t.defaultConstructible = true) ∧ args.All CppType.Faithful ∧
        (res.toTuple (f past ⟨obj, args⟩)).All CppType.Faithful := by
  rw [← survives_iff hins, ← survives_iff hres]
  constructor
  · intro ⟨inputs, called, hin, hrun, hhist, _, hdec, _⟩
    have hrun : run f obj inputs outputs past = some called := hrun
    have hdef := constructible_of_run hrun
    rw [run_encoded hdef f obj hin outputs hlen past] at hrun
    obtain ⟨vs, hvs, rfl⟩ := Option.map_eq_some_iff.mp hrun
    have hargs : args.map CppType.received = args := by
      have := List.append_cancel_left hhist
      simp only [List.cons.injEq, Invocation.mk.injEq, true_and, and_true] at this
      exact this
    rw [hargs] at hvs
    exact ⟨hdef, ⟨⟨inputs, hin⟩, hargs⟩, ⟨vs, hvs⟩, (decodes_encoded hvs outputs).mp hdec⟩
  · intro ⟨hdef, ⟨⟨inputs, hin⟩, hargs⟩, ⟨vs, hvs⟩, hres'⟩
    have hrun := run_encoded hdef f obj hin outputs hlen past
    rw [hargs, hvs] at hrun
    refine ⟨inputs, _, hin, hrun, rfl, rfl, (decodes_encoded hvs outputs).mpr hres', fun j hj => ?_, rfl⟩
    exact Tuple.overwrite_getElem?_outside _ _ (by rw [Tuple.traverse_length hvs]; exact hj)

/-- Both `Call` classes marshal a call exactly when the parameters have default constructors
and no argument and no component of the result carries, in an identifier, a name or a text, a
zero byte that the encoding cuts it at (or an identifier of another kind than its tag). -/
theorem call_marshals_iff (f : Callable ω ins res) (obj : ω) (args : Args ins)
    (outputs : List Ua.Variant) (past : List (Invocation ω ins))
    (hins : ∀ t ∈ ins, t.Marshalled) (hres : ∀ t ∈ res.types, t.Marshalled)
    (hlen : res.types.length ≤ outputs.length) :
    (Marshals (fun inputs => callFunction f obj inputs outputs past) f ⟨none, args⟩ outputs past ↔
      (∀ t ∈ ins, t.defaultConstructible = true) ∧ args.All CppType.Faithful ∧
        (res.toTuple (f past ⟨none, args⟩)).All CppType.Faithful) ∧
    (Marshals (fun inputs => callMember f obj inputs outputs past) f ⟨some obj, args⟩ outputs past ↔
      (∀ t ∈ ins, t.defaultConstructible = true) ∧ args.All CppType.Faithful ∧
        (res.toTuple (f past ⟨some obj, args⟩)).All CppType.Faithful) :=
  ⟨marshals_iff f none args outputs past hins hres hlen,
    marshals_iff f (some obj) args outputs past hins hres hlen⟩

/-- `int f(int i) { return i + 1; }`. -/
def increment : Callable Unit [.scalar .int32] (.single (.scalar .int32)) := fun _ invocation =>
  match invocation.args with
  | .cons i .nil => (i + 1 : Int32)

/-- Called with 7, as a function and as a member function. -/
theorem call_marshals_increment :
    Marshals (fun inputs => callFunction increment () inputs [.init] []) increment
      ⟨none, .cons (7 : Int32) .nil⟩ [.init] [] ∧
    Marshals (fun inputs => callMember increment () inputs [.init] []) increment
      ⟨some (), .cons (7 : Int32) .nil⟩ [.init] [] :=
  have h := call_marshals_iff increment () (.cons (7 : Int32) .nil) [.init] [] (by decide) (by decide)
    (by decide)
  have hdef : ∀ t ∈ [CppType.scalar .int32], t.defaultConstructible = true := by decide
  ⟨h.1.mpr ⟨hdef, ⟨trivial, trivial⟩, ⟨trivial, trivial⟩⟩, h.2.mpr ⟨hdef, ⟨trivial, trivial⟩, ⟨trivial, trivial⟩⟩⟩

/-- `void f(NodeId)`. -/
def ignoreNodeId : Callable Unit [.scalar .nodeId] .void := fun _ _ => ()

/-- On the id of `a`, a zero byte and `b` it is invoked with another id. -/
theorem call_cuts_nodeId :
    ¬ ∀ n : NodeId, n.Matching →
      Marshals (fun inputs => callFunction ignoreNodeId () inputs [] []) ignoreNodeId
        ⟨none, .cons n .nil⟩ [] [] := by
  intro h
  have hm := h (NodeId.ofString 1 [0x61, 0, 0x62] .string) (by decide)
  have hf := ((marshals_iff ignoreNodeId none _ [] [] (by decide) (by decide) (by decide)).mp hm).2.1
  exact absurd hf.1.2 (by decide)

end Call

end ModernOpc
