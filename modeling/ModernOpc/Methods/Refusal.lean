import ModernOpc.Methods.Traits
import ModernOpc.Variant.RoundTrip

/-! Calls with arguments the signature does not expect.

`Call::call` could answer `false`, which `internalMethodCallback` turns into
`BADMETHODINVALID`; but it indexes and reads unconditionally and always answers `true`.
Here its loops say how they fail, and `withFaults_toOption` shows that otherwise they are
those of `Call`.

`call_refuses_iff`: what does not match the signature is refused, and nothing is read or
written that is not there, exactly if the arguments match it. -/
namespace ModernOpc.Call
open Library

/-- Why a call does not return: an element outside a vector, a payload that is not there
at its type, an exception while a result is encoded, or that the class does not compile. -/
inductive Fault where
  | outside
  | misread
  | thrown
  | illFormed
  deriving DecidableEq, Repr

/-- `inputArguments[i].get<…>()`. -/
def readAt (t : CppType) (inputArguments : List Ua.Variant) (i : Nat) : Except Fault t.El :=
  match inputArguments[i]? with
  | none => .error .outside
  | some v =>
    match get t v with
    | none => .error .misread
    | some x => .ok x

/-- The input loop. -/
def readFrom : (ts : List CppType) → List Ua.Variant → Nat → Except Fault (Args ts)
  | [], _, _ => .ok .nil
  | t :: ts, inputArguments, i => do
    let x ← readAt t inputArguments i
    let xs ← readFrom ts inputArguments (i + 1)
    return .cons x xs

/-- The tuple with its default values, which the input loop replaces. -/
def readInputs (ins : List CppType) (inputArguments : List Ua.Variant) : Except Fault (Args ins) :=
  match Tuple.fill CppType.default ins with
  | none => .error .illFormed
  | some _ => readFrom ins inputArguments 0

/-- `Variant &var = outputArguments[i]; var(x);` -/
def writeAt (t : CppType) (x : t.El) (outputArguments : List Ua.Variant) (i : Nat) :
    Except Fault (List Ua.Variant) :=
  match outputArguments[i]? with
  | none => .error .outside
  | some _ =>
    match toUAVariant t x with
    | none => .error .thrown
    | some v => .ok (outputArguments.set i v)

/-- The output loop, or its one round for a single result. -/
def writeFrom : {ts : List CppType} → Args ts → List Ua.Variant → Nat → Except Fault (List Ua.Variant)
  | [], .nil, outputArguments, _ => .ok outputArguments
  | t :: _, .cons x xs, outputArguments, i => do
    let outputArguments ← writeAt t x outputArguments i
    writeFrom xs outputArguments (i + 1)

section Calls
variable {ω : Type} {ins : List CppType} {res : ResultShape}

/-- Decode, invoke, encode. -/
def withFaults (f : Callable ω ins res) (obj : Option ω) (inputArguments outputArguments : List Ua.Variant)
    (history : List (Invocation ω ins)) : Except Fault (Called ω ins) := do
  let inputArgs ← readInputs ins inputArguments
  let invocation := ⟨obj, inputArgs⟩
  let outputs ← writeFrom (res.toTuple (f history invocation)) outputArguments 0
  return ⟨true, inputArguments, outputs, history ++ [invocation]⟩

/-! ### The loops of `Call` -/

theorem readAt_toOption (t : CppType) (inputs : List Ua.Variant) (i : Nat) :
    (readAt t inputs i).toOption = inputs[i]?.bind (get t) := by
  unfold readAt
  cases inputs[i]? with
  | none => rfl
  | some v => cases h : get t v <;> simp [Except.toOption, h]

theorem bind_toOption {α β : Type} (r : Except Fault α) (f : α → Except Fault β) :
    (r >>= f).toOption = r.toOption.bind fun a => (f a).toOption := by
  cases r <;> rfl

theorem readFrom_toOption (ts : List CppType) (inputs : List Ua.Variant) (i : Nat) :
    (readFrom ts inputs i).toOption = Tuple.ofList get ts (inputs.drop i) := by
  induction ts generalizing i with
  | nil => rfl
  | cons t ts ih =>
    rw [readFrom, bind_toOption, readAt_toOption, ← List.head?_drop]
    have hrest : inputs.drop (i + 1) = (inputs.drop i).tail := (List.tail_drop ..).symm
    cases hd : inputs.drop i with
    | nil => rfl
    | cons v rest =>
      rw [hd, List.tail_cons] at hrest
      simp only [List.head?_cons, Option.bind_some, bind_toOption, ih, hrest, Tuple.ofList]
      rfl

theorem writeAt_toOption {t : CppType} (x : t.El) (outputs : List Ua.Variant) (i : Nat) :
    Tuple.writeBody toUAVariant t x (outputs, i) =
      (writeAt t x outputs i).toOption.map fun written => (x, (written, i + 1)) := by
  unfold writeAt Tuple.writeBody
  cases outputs[i]? <;> cases toUAVariant t x <;> rfl

theorem writeFrom_toOption {ts : List CppType} (xs : Args ts) (outputs : List Ua.Variant) (i : Nat) :
    (writeFrom xs outputs i).toOption =
      (xs.forEach (Tuple.writeBody toUAVariant) (outputs, i)).map (·.2.1) := by
  induction xs generalizing outputs i with
  | nil => rfl
  | cons x xs ih =>
    rw [writeFrom, bind_toOption, Tuple.forEach, writeAt_toOption]
    cases (writeAt _ x outputs i).toOption with
    | none => rfl
    | some written =>
      simp only [Option.map_some, Option.bind_some, ih, Option.bind_eq_bind]
      cases xs.forEach (Tuple.writeBody toUAVariant) (written, i + 1) <;> rfl

/-- A call with its faults is the call. -/
theorem withFaults_toOption (f : Callable ω ins res) (obj : Option ω) (inputs outputs : List Ua.Variant)
    (past : List (Invocation ω ins)) :
    (withFaults f obj inputs outputs past).toOption = run f obj inputs outputs past := by
  cases hfill : Tuple.fill CppType.default ins with
  | none =>
    rw [withFaults, run, readInputs, decodeInputs, hfill]
    rfl
  | some inputArgs =>
    have hdef := fill_default_isSome.mp (Option.isSome_iff_exists.mpr ⟨inputArgs, hfill⟩)
    rw [withFaults, run, decodeInputs_eq hdef, readInputs, hfill, bind_toOption, readFrom_toOption, List.drop_zero]
    cases Tuple.ofList get ins inputs with
    | none => rfl
    | some args =>
      show ((writeFrom _ outputs 0 >>= _).toOption : Option (Called ω ins)) = _
      rw [bind_toOption, writeFrom_toOption, ← encodeResult_forEach]
      rfl

/-! ### Matching arguments -/

/-- The Variant has the type of the parameter, and no dimension for a scalar, one for a
vector. -/
def Accepts (t : CppType) (v : Ua.Variant) : Prop :=
  v.type = some t.elem.dataType ∧ v.rank = if t.isVector then 1 else 0

instance (t : CppType) (v : Ua.Variant) : Decidable (Accepts t v) := inferInstanceAs (Decidable (_ ∧ _))

/-- One input for each parameter, of its type and rank, and room for the result. -/
structure Matches (ins : List CppType) (res : ResultShape) (inputs outputs : List Ua.Variant) : Prop where
  arity : inputs.length = ins.length
  accepts : ∀ (i : Nat) t v, ins[i]? = some t → inputs[i]? = some v → Accepts t v
  room : res.types.length ≤ outputs.length

/-- Nothing is read or written that is not there. -/
def Safe {α : Type} (r : Except Fault α) : Prop := r ≠ .error .outside ∧ r ≠ .error .misread

/-- What does not match is refused: `false`, no invocation, and the outputs as they were;
and a call is safe in any case. -/
structure Refuses (ins : List CppType) (res : ResultShape) (inputs outputs : List Ua.Variant)
    (past : List (Invocation ω ins)) (outcome : Except Fault (Called ω ins)) : Prop where
  refused : ¬ Matches ins res inputs outputs →
    ∃ called, outcome = .ok called ∧ called.returned = false ∧ called.history = past ∧ called.outputs = outputs
  safe : Safe outcome

theorem Safe.ok {α : Type} (a : α) : Safe (.ok a : Except Fault α) := by
  constructor <;> intro h <;> cases h

theorem Safe.thrown {α : Type} : Safe (.error .thrown : Except Fault α) := by
  constructor <;> intro h <;> cases h

theorem Safe.illFormed {α : Type} : Safe (.error .illFormed : Except Fault α) := by
  constructor <;> intro h <;> cases h

theorem Safe.bind {α β : Type} {r : Except Fault α} {f : α → Except Fault β} (hr : Safe r)
    (hf : ∀ a, r = .ok a → Safe (f a)) : Safe (r >>= f) := by
  cases r with
  | ok a => exact hf a rfl
  | error fault =>
    refine ⟨fun h => ?_, fun h => ?_⟩
    · cases h
      exact hr.1 rfl
    · cases h
      exact hr.2 rfl

/-- A well-formed Variant that a parameter accepts can be read. -/
theorem get_of_accepts {t : CppType} {v : Ua.Variant} (hw : v.isEmpty = false → v.WellFormed)
    (h : Accepts t v) : ∃ x, get t v = some x := by
  obtain ⟨htype, hrank⟩ := h
  have hw := hw (by rw [Ua.Variant.isEmpty, htype]; rfl)
  cases t with
  | scalar s =>
    obtain ⟨x, hx, _⟩ := get_scalar_complete hw ⟨_, htype, rfl⟩ hrank
    exact ⟨x, hx⟩
  | vector s =>
    cases hs : v.isScalar with
    | true => exact ⟨[], if_pos (Ua.Variant.arrayLength_of_scalar hs)⟩
    | false =>
      obtain ⟨xs, hxs, _⟩ := (get_vector_iff hw htype).mpr hs
      exact ⟨xs, hxs⟩

theorem writeAt_safe {t : CppType} (x : t.El) {outputs : List Ua.Variant} {i : Nat} (h : i < outputs.length) :
    Safe (writeAt t x outputs i) ∧
      ∀ written, writeAt t x outputs i = .ok written → written.length = outputs.length := by
  unfold writeAt
  rw [List.getElem?_eq_getElem h]
  cases toUAVariant t x with
  | none => exact ⟨.thrown, fun written hwritten => by cases hwritten⟩
  | some u =>
    refine ⟨.ok _, fun written hwritten => ?_⟩
    cases hwritten
    exact List.length_set

/-- With room for every component, the output loop stays inside. -/
theorem writeFrom_safe {ts : List CppType} (xs : Args ts) (outputs : List Ua.Variant) (i : Nat)
    (h : i + ts.length ≤ outputs.length) : Safe (writeFrom xs outputs i) := by
  induction xs generalizing outputs i with
  | nil => exact .ok _
  | cons x xs ih =>
    rw [List.length_cons] at h
    obtain ⟨hsafe, hlength⟩ := writeAt_safe x (show i < outputs.length by omega)
    refine hsafe.bind fun written hwritten => ih written (i + 1) ?_
    rw [hlength written hwritten]
    omega

theorem withFaults_returned {f : Callable ω ins res} {obj : Option ω} {inputs outputs : List Ua.Variant}
    {past : List (Invocation ω ins)} {called : Called ω ins}
    (h : withFaults f obj inputs outputs past = .ok called) : called.returned = true := by
  have hrun : run f obj inputs outputs past = some called := by
    rw [← withFaults_toOption, h]
    rfl
  simp only [run, Option.bind_eq_bind, Option.bind_eq_some_iff, Option.pure_def, Option.some.injEq] at hrun
  obtain ⟨_, _, _, _, rfl⟩ := hrun
  rfl

theorem withFaults_safe (f : Callable ω ins res) (obj : Option ω) {inputs outputs : List Ua.Variant}
    (past : List (Invocation ω ins)) (hw : ∀ v ∈ inputs, v.isEmpty = false → v.WellFormed)
    (h : Matches ins res inputs outputs) : Safe (withFaults f obj inputs outputs past) := by
  have hlength := Nat.le_of_eq h.arity.symm
  obtain ⟨args, hargs, _⟩ := Tuple.ofList_complete (g := get) (P := fun _ _ _ => True) hlength
    fun i t v ht hv => by
      obtain ⟨x, hx⟩ := get_of_accepts (hw v (List.mem_of_getElem? hv)) (h.accepts i t v ht hv)
      exact ⟨x, hx, trivial⟩
  have hread : (readFrom ins inputs 0).toOption = some args := by rw [readFrom_toOption, List.drop_zero, hargs]
  have hinputs : Safe (readInputs ins inputs) := by
    unfold readInputs
    split
    · exact .illFormed
    · cases hr : readFrom ins inputs 0 with
      | error fault =>
        rw [hr] at hread
        cases hread
      | ok args' => exact .ok args'
  refine hinputs.bind fun _ _ => Safe.bind (writeFrom_safe _ outputs 0 ?_) fun _ _ => .ok _
  rw [Nat.zero_add]
  exact h.room

theorem refuses_iff (f : Callable ω ins res) (obj : Option ω) (inputs outputs : List Ua.Variant)
    (past : List (Invocation ω ins)) (hw : ∀ v ∈ inputs, v.isEmpty = false → v.WellFormed) :
    Refuses ins res inputs outputs past (withFaults f obj inputs outputs past) ↔
      Matches ins res inputs outputs := by
  constructor
  · intro h
    by_contra hno
    obtain ⟨called, hcalled, hfalse, _⟩ := h.refused hno
    rw [withFaults_returned hcalled] at hfalse
    cases hfalse
  · intro h
    exact ⟨fun hno => absurd h hno, withFaults_safe f obj past hw h⟩

/-- Both `Call` classes refuse what does not match, and touch nothing that is not there,
exactly if the arguments match. -/
theorem call_refuses_iff (f : Callable ω ins res) (obj : ω) (inputs outputs : List Ua.Variant)
    (past : List (Invocation ω ins)) (hw : ∀ v ∈ inputs, v.isEmpty = false → v.WellFormed) :
    (Refuses ins res inputs outputs past (withFaults f none inputs outputs past) ↔
      Matches ins res inputs outputs) ∧
    (Refuses ins res inputs outputs past (withFaults f (some obj) inputs outputs past) ↔
      Matches ins res inputs outputs) ∧
    callFunction f obj inputs outputs past = (withFaults f none inputs outputs past).toOption ∧
    callMember f obj inputs outputs past = (withFaults f (some obj) inputs outputs past).toOption :=
  ⟨refuses_iff f none inputs outputs past hw, refuses_iff f (some obj) inputs outputs past hw,
    (withFaults_toOption f none inputs outputs past).symm,
    (withFaults_toOption f (some obj) inputs outputs past).symm⟩

end Calls

/-- One `Int32` for one `int`. -/
theorem call_refuses_increment :
    Refuses [.scalar .int32] (.single (.scalar .int32))
      [.setScalarCopy (.int32 7) (Ua.builtin .int32)] [.init] []
      (withFaults increment none [.setScalarCopy (.int32 7) (Ua.builtin .int32)] [.init] []) := by
  refine (call_refuses_iff increment () [.setScalarCopy (.int32 7) (Ua.builtin .int32)] [.init] [] ?_).1.mpr ?_
  · intro v hv _
    rw [List.mem_singleton.mp hv]
    exact Ua.Variant.setScalarCopy_wellFormed (.int32 7)
  · refine ⟨rfl, fun i t v ht hv => ?_, Nat.le_refl _⟩
    cases i with
    | zero =>
      cases ht
      cases hv
      decide
    | succ i => cases ht

/-- Without an argument, an element outside the inputs is read. -/
theorem call_reads_outside : ¬ ∀ (inputs outputs : List Ua.Variant),
    (∀ v ∈ inputs, v.isEmpty = false → v.WellFormed) →
    Refuses [.scalar .int32] (.single (.scalar .int32)) inputs outputs []
      (withFaults increment none inputs outputs []) := by
  intro h
  have hrefuses := h [] [.init] (fun v hv => by cases hv)
  exact hrefuses.safe.1 rfl

end ModernOpc.Call
