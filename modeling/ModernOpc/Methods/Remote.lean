import ModernOpc.Client.Call
import ModernOpc.Methods.Refusal

/-! Methods called from clients.

A client sends the ids of an object and of a method, and the Variants it is given.
open62541's Call service finds the method, checks the inputs against what its node
declares, sets up as many outputs as are declared and calls `internalMethodCallback`; the
typed callable behind it decodes the inputs, is invoked and stores its result, and the
outputs come back as Variants of the client's own. The service is a parameter (`Service`).

`remote_eq_local`: what comes back, and what was invoked, is what `Call::call` does with
the Variants sent on the method named, or else the call is refused. `remote_call_iff`: the
callable's result comes back to whoever encodes the arguments exactly if no parameter is a
vector and nothing is cut. `served_in_order`: whatever any clients send, each callable sees
what names it and fits, once and in order. -/
namespace ModernOpc.Remote
open Library ClientCall

section Callback
variable {ω : Type} {ins : List CppType} {res : ResultShape}

/-- `Variant &var = outputArguments[i]; var(x); i++;` for what the components encode to. -/
def stores : Nat → List Ua.Variant → List Writer
  | _, [] => []
  | i, v :: rest => .call (.output i) v :: stores (i + 1) rest

/-- `Call::call`: the stores into the outputs, and the callable's history. -/
def perform (f : Callable ω ins res) (obj : Option ω) (inputArguments : List Ua.Variant)
    (past : List (Invocation ω ins)) : Option (Body × List (Invocation ω ins)) := do
  let (inputArgs, _) ← Call.decodeInputs ins inputArguments
  let invocation := ⟨obj, inputArgs⟩
  let vs ← (res.toTuple (f past invocation)).traverse toUAVariant
  return (⟨[], stores 0 vs⟩, past ++ [invocation])

/-- `Server::internalMethodCallback` on the node of a typed callable, which sees the inputs
where they were put. -/
def dispatch (grows : Nat → Bool) (f : Callable ω ins res) (obj : Option ω)
    (input inputSize output outputSize : Nat) (m : Memory) (past : List (Invocation ω ins)) :
    Option (Ua.StatusCode × Memory × List (Invocation ω ins)) := do
  let (body, history) ← perform f obj (handed m input inputSize) past
  let (status, m) ← internalMethodCallback grows (some fun _ => (body, true)) input inputSize output
    outputSize m
  return (status, m, history)

/-! ### Stores -/

/-- Each output is stored into once, its own component, and stays with its Variant. -/
theorem stores_ledger {l : Ledger} {n i : Nat} {vs : List Ua.Variant} (hn : i + vs.length ≤ n)
    (hholds : ∀ j < n, (l.holds (.output j)).join.isSome = true) (hholder : ∀ j < n, l.holder j = some (.output j)) :
    ∃ l', Run.final Ledger.step l (stores i vs) = some l' ∧ l'.claimed = l.claimed ∧
      (∀ j < i, l'.stored j = l.stored j ∧ l'.written j = l.written j) ∧
      ∀ (j : Nat) v, vs[j]? = some v → l'.stored (i + j) = some v ∧ l'.written (i + j) = v := by
  induction vs generalizing l i with
  | nil => exact ⟨l, rfl, rfl, fun _ _ => ⟨rfl, rfl⟩, fun j v h => by cases h⟩
  | cons v rest ih =>
    rw [List.length_cons] at hn
    have hi : i < n := by omega
    obtain ⟨w, hw⟩ := Option.isSome_iff_exists.mp (hholds i hi)
    have hstep : l.step (.call (.output i) v) = some (l.call (.output i) v) := by
      simp [Ledger.step, Ref.writable, hw]
    have hne {j : Nat} (hj : j ≠ i) : Ref.output j ≠ Ref.output i := fun he => hj (Ref.output.inj he)
    obtain ⟨l', hfinal, hclaimed, hbefore, hafter⟩ := ih (l := l.call (.output i) v) (i := i + 1) (by omega)
      (fun j hj => by
        by_cases he : j = i
        · subst he
          simp [Ledger.call]
        · simpa [Ledger.call, Function.update_of_ne (hne he)] using hholds j hj)
      hholder
    refine ⟨l', by simp [stores, Run.final, hstep, hfinal], hclaimed, fun j hj => ?_, fun j x hx => ?_⟩
    · obtain ⟨hstored, hwritten⟩ := hbefore j (by omega)
      have hji : j ≠ i := Nat.ne_of_lt hj
      have hother : l.holder j ≠ some (.output i) := fun he =>
        hne hji (Option.some.inj ((hholder j (hj.trans hi)).symm.trans he))
      exact ⟨hstored.trans (if_neg (hne hji).symm), hwritten.trans (if_neg hother)⟩
    · cases j with
      | zero =>
        cases hx
        obtain ⟨hstored, hwritten⟩ := hbefore i (Nat.lt_succ_self i)
        exact ⟨hstored.trans (if_pos rfl), hwritten.trans (if_pos (hholder i hi))⟩
      | succ j =>
        have hrest := hafter j x (by simpa using hx)
        rwa [show i + 1 + j = i + (j + 1) by omega] at hrest

/-- The outputs, read back from where they were put. -/
def fetch (m : Memory) (output outputSize : Nat) : Option (List Ua.Variant) :=
  (List.range' output outputSize).mapM fun k => (m.deref (some (.foreign k))).map m.content

theorem fetch_eq {m : Memory} {output outputSize : Nat}
    (hlive : ∀ j < outputSize, .foreign (output + j) ∉ m.deleted) :
    fetch m output outputSize = some (handed m output outputSize) := by
  induction outputSize generalizing output with
  | zero => rfl
  | succ n ih =>
    have hfirst : m.deref (some (.foreign output)) = some (.foreign output) :=
      Memory.deref_eq_some.mpr ⟨rfl, Memory.exists?_iff.mpr ⟨hlive 0 (Nat.succ_pos n), fun _ he => by cases he⟩⟩
    have hrest : fetch m (output + 1) n = some (handed m (output + 1) n) := ih fun j hj => by
      rw [Nat.add_assoc, Nat.add_comm 1]
      exact hlive (j + 1) (Nat.succ_lt_succ hj)
    unfold fetch at hrest
    unfold fetch handed
    rw [List.range'_succ, List.mapM_cons, hfirst, hrest]
    rfl

/-- The callback writes the values it is to store, deletes none of the outputs, and
answers good. -/
theorem internalMethodCallback_stores (grows : Nat → Bool) {input inputSize output : Nat} {m : Memory}
    {vs : List Ua.Variant} (h : Handed m input inputSize output vs.length) :
    ∃ m', internalMethodCallback grows (some fun _ => (⟨[], stores 0 vs⟩, true)) input inputSize output vs.length m =
        some (.good, m') ∧ fetch m' output vs.length = some vs := by
  have hlength : (handed m output vs.length).length = vs.length := by simp [handed]
  obtain ⟨l, hl, hclaimed, -, hstored⟩ := stores_ledger (i := 0) (n := vs.length)
    (l := .opening (handed m input inputSize) (handed m output vs.length) []) (Nat.le_of_eq (Nat.zero_add _))
    (fun j hj => by simp [Ledger.opening, handed_getElem?, hj])
    (fun j hj => by simp [Ledger.opening, hlength, hj])
  rcases internalMethodCallback_cases grows (fun _ => (⟨[], stores 0 vs⟩, true)) h with
    ⟨hnone, -⟩ | ⟨l', m', hl', hcall, hperformed⟩
  · cases hl.symm.trans hnone
  cases hl.symm.trans hl'
  have hslot : ∀ (j : Nat) v, vs[j]? = some v →
      m'.content (.foreign (output + j)) = v ∧ .foreign (output + j) ∉ m'.deleted := by
    intro j v hv
    obtain ⟨hs, hw⟩ := hstored j v hv
    rw [Nat.zero_add] at hs hw
    have hintact : l.Intact j := ⟨congrFun hclaimed j, hs.trans (congrArg some hw.symm)⟩
    obtain ⟨hdelivered, hlive⟩ := (hperformed.delivered j (List.getElem?_eq_some_iff.mp hv).1).mpr hintact
    exact ⟨(Option.some.inj (hs.symm.trans hdelivered)).symm, hlive⟩
  refine ⟨m', hcall, ?_⟩
  rw [fetch_eq fun j hj => (hslot j _ (List.getElem?_eq_getElem hj)).2]
  refine congrArg some (List.ext_getElem? fun j => ?_)
  by_cases hj : j < vs.length
  · have hv := List.getElem?_eq_getElem hj
    simp [handed, hj, (hslot j _ hv).1]
  · simp [handed, hj]

/-- A call on as many outputs as the result has components: all are overwritten. -/
theorem run_eq_some_iff {f : Callable ω ins res} {obj : Option ω} {inputs outputs : List Ua.Variant}
    {past : List (Invocation ω ins)} {called : Called ω ins} (hlen : outputs.length = res.types.length) :
    Call.run f obj inputs outputs past = some called ↔ ∃ args k vs,
      Call.decodeInputs ins inputs = some (args, k) ∧
      (res.toTuple (f past ⟨obj, args⟩)).traverse toUAVariant = some vs ∧
      called = ⟨true, inputs, vs, past ++ [⟨obj, args⟩]⟩ := by
  have hall {args : Args ins} {vs : List Ua.Variant}
      (hvs : (res.toTuple (f past ⟨obj, args⟩)).traverse toUAVariant = some vs) :
      Tuple.overwrite outputs 0 vs = vs :=
    Tuple.overwrite_all (hlen.trans (Tuple.traverse_length hvs).symm)
  simp only [Call.run, Call.encodeResult_eq _ outputs (Nat.le_of_eq hlen.symm), Option.bind_eq_bind,
    Option.bind_eq_some_iff, Option.map_eq_some_iff, Option.pure_def, Option.some.injEq, Prod.exists]
  constructor
  · rintro ⟨args, k, hdecoded, _, ⟨vs, hvs, rfl⟩, rfl⟩
    exact ⟨args, k, vs, hdecoded, hvs, by rw [hall hvs]⟩
  · rintro ⟨args, k, vs, hdecoded, hvs, rfl⟩
    exact ⟨args, k, hdecoded, _, ⟨vs, hvs, rfl⟩, by rw [hall hvs]⟩

theorem perform_eq_some_iff {f : Callable ω ins res} {obj : Option ω} {inputs : List Ua.Variant}
    {past history : List (Invocation ω ins)} {body : Body} :
    perform f obj inputs past = some (body, history) ↔ ∃ args k vs,
      Call.decodeInputs ins inputs = some (args, k) ∧
      (res.toTuple (f past ⟨obj, args⟩)).traverse toUAVariant = some vs ∧
      body = ⟨[], stores 0 vs⟩ ∧ history = past ++ [⟨obj, args⟩] := by
  simp only [perform, Option.bind_eq_bind, Option.bind_eq_some_iff, Option.pure_def, Option.some.injEq,
    Prod.mk.injEq, Prod.exists]
  constructor
  · rintro ⟨args, k, hdecoded, vs, hvs, rfl, rfl⟩
    exact ⟨args, k, vs, hdecoded, hvs, rfl, rfl⟩
  · rintro ⟨args, k, vs, hdecoded, hvs, rfl, rfl⟩
    exact ⟨args, k, hdecoded, vs, hvs, rfl, rfl⟩

/-- With as many outputs as components, the callback does what `Call::call` does, and the
outputs can be fetched. -/
theorem dispatch_iff (grows : Nat → Bool) (f : Callable ω ins res) (obj : Option ω) {input inputSize output : Nat}
    {m : Memory} (past : List (Invocation ω ins)) (h : Handed m input inputSize output res.types.length)
    {outputs : List Ua.Variant} (hlen : outputs.length = res.types.length)
    (status : Ua.StatusCode) (written : List Ua.Variant) (history : List (Invocation ω ins)) :
    (∃ m', dispatch grows f obj input inputSize output res.types.length m past = some (status, m', history) ∧
      fetch m' output res.types.length = some written) ↔
    ∃ called, Call.run f obj (handed m input inputSize) outputs past = some called ∧
      status = .good ∧ written = called.outputs ∧ history = called.history := by
  have hcallback {args : Args ins} {vs : List Ua.Variant}
      (hvs : (res.toTuple (f past ⟨obj, args⟩)).traverse toUAVariant = some vs) :
      ∃ m', internalMethodCallback grows (some fun _ => (⟨[], stores 0 vs⟩, true)) input inputSize output
          res.types.length m = some (.good, m') ∧ fetch m' output res.types.length = some vs := by
    rw [← Tuple.traverse_length hvs] at h ⊢
    exact internalMethodCallback_stores grows h
  simp only [dispatch, Option.bind_eq_bind, Option.bind_eq_some_iff, Option.pure_def, Option.some.injEq,
    Prod.mk.injEq, Prod.exists, perform_eq_some_iff, run_eq_some_iff hlen]
  constructor
  · rintro ⟨_, ⟨_, _, ⟨args, k, vs, hdecoded, hvs, rfl, rfl⟩, _, m', hm', rfl, rfl, rfl⟩, hfetched⟩
    obtain ⟨m₁, hm₁, hfetched₁⟩ := hcallback hvs
    cases hm'.symm.trans hm₁
    cases hfetched.symm.trans hfetched₁
    exact ⟨_, ⟨args, k, _, hdecoded, hvs, rfl⟩, rfl, rfl, rfl⟩
  · rintro ⟨_, ⟨args, k, vs, hdecoded, hvs, rfl⟩, rfl, rfl, rfl⟩
    obtain ⟨m', hm', hfetched⟩ := hcallback hvs
    exact ⟨m', ⟨_, _, ⟨args, k, _, hdecoded, hvs, rfl, rfl⟩, _, m', hm', rfl, rfl, rfl⟩, hfetched⟩

end Callback

/-! ### The service -/

/-- Where open62541 puts the inputs and the outputs of a call. -/
structure Place where
  memory : Memory
  input : Nat
  output : Nat

/-- The inputs are there, and room for the outputs. -/
structure Place.Holds (place : Place) (inputs : List Ua.Variant) (outputSize : Nat) : Prop where
  handed : Handed place.memory place.input inputs.length place.output outputSize
  inputs : ModernOpc.handed place.memory place.input inputs.length = inputs

instance (arg : Ua.Argument) (v : Ua.Variant) : Decidable (arg.Allows v) :=
  decidable_of_iff (v.type.map (·.typeId) = some arg.dataType ∧ Ua.rankAllowed arg.valueRank v.rank = true)
    (and_congr_left' Option.map_eq_some_iff)

/-- The inputs are as the method's node declares: as many, and each allowed. -/
def Fits (sig : Signature) (inputs : List Ua.Variant) : Prop :=
  List.Forall₂ Ua.Argument.Allows (MethodTraits.getInputArguments sig) inputs

instance (sig : Signature) (inputs : List Ua.Variant) : Decidable (Fits sig inputs) :=
  inferInstanceAs (Decidable (List.Forall₂ _ _ _))

/-- The types of a signature's parameters. -/
abbrev Signature.ins (sig : Signature) : List CppType := sig.inputs.map Declared.type

/-- A callable of a signature. -/
abbrev Method (ω : Type) (sig : Signature) := Callable ω (Signature.ins sig) sig.result.shape

abbrev History (ω : Type) (sig : Signature) := List (Invocation ω (Signature.ins sig))

/-- A server's methods: the one that a client calls by the ids of an object and a method, and what is bound
to each. -/
structure Methods (ω ι : Type) where
  find : Ua.NodeId → Ua.NodeId → Option ι
  sig : ι → Signature
  accepted : ∀ i, (sig i).Accepted
  callable : (i : ι) → Method ω (sig i)
  obj : ι → Option ω

namespace Methods
variable {ω ι : Type} [DecidableEq ι] (ms : Methods ω ι)

/-- What the callables have seen. -/
abbrev Histories := (i : ι) → History ω (ms.sig i)

/-- The method's callback on the inputs, and the answer made of its status and the outputs, which reach the
client at `base`. -/
def invoke (grows : Nat → Bool) (place : Place) (base : Nat) (i : ι) (past : ms.Histories) (req : Request) :
    Option (Answer × ms.Histories) := do
  let outputSize := (MethodTraits.getOutputArguments (ms.sig i)).length
  let (status, m, history) ← dispatch grows (ms.callable i) (ms.obj i) place.input req.input.length place.output
    outputSize place.memory (past i)
  return (⟨status, base, ← fetch m place.output outputSize⟩, Function.update past i history)

/-- The request names a method, and its inputs fit. -/
def Admits (req : Request) (i : ι) : Prop :=
  ms.find req.objectId req.methodId = some i ∧ Fits (ms.sig i) req.input

/-- open62541's Call service: a request that names a method and whose inputs are as declared makes the method's
callback be called on them; another is answered with a bad status, and nothing is called. -/
structure Service (serve : ms.Histories → Request → Option (Answer × ms.Histories)) : Prop where
  invokes : ∀ past req i, ms.Admits req i → ∃ grows place base,
    Place.Holds place req.input (MethodTraits.getOutputArguments (ms.sig i)).length ∧
      serve past req = ms.invoke grows place base i past req
  refuses : ∀ past req, (∀ i, ¬ ms.Admits req i) → ∃ status base, status ≠ .good ∧
    serve past req = some (⟨status, base, []⟩, past)

end Methods

section Service
variable {ω ι : Type} [DecidableEq ι] {ms : Methods ω ι}

/-- `Client::call` against that service: what it returns or throws, the client's memory, and what the callables
have seen. -/
def remoteCall (serve : ms.Histories → Request → Option (Answer × ms.Histories)) (grows : Nat → Bool)
    (objId methodId : NodeId) (inputArgs : List Variant) (m : Memory) (past : ms.Histories) :
    Option (Except Client.OpcException (List Variant) × Memory × ms.Histories) := do
  let req ← request objId methodId inputArgs m
  let (answer, past) ← serve past req
  let (result, m) ← call (fun _ => answer) grows objId methodId inputArgs m
  return (result, m, past)

/-! ### One call -/

/-- The Variants hold the inputs. -/
def Sent (inputArgs : List Variant) (m : Memory) (inputs : List Ua.Variant) : Prop :=
  List.Forall₂ (fun v input => ∃ c, m.deref v.variant = some c ∧ m.content c = input) inputArgs inputs

theorem request_eq {objId methodId : NodeId} {objectId method : Ua.NodeId}
    (hobject : fromNodeId objId = some objectId) (hmethod : fromNodeId methodId = some method)
    {inputArgs : List Variant} {m : Memory} {inputs : List Ua.Variant}
    (hsent : Sent inputArgs m inputs) : request objId methodId inputArgs m = some ⟨objectId, method, inputs⟩ := by
  have hinputs : (inputArgs.mapM fun inputVar => (m.deref inputVar.variant).map m.content) = some inputs := by
    induction hsent with
    | nil => rfl
    | cons hfirst _ ih =>
      obtain ⟨c, hc, hcontent⟩ := hfirst
      rw [List.mapM_cons, ih, hc, Option.map_some, hcontent]
      rfl
  simp [request, hinputs, hobject, hmethod]

theorem getOutputArguments_length (sig : Signature) :
    (MethodTraits.getOutputArguments sig).length = sig.result.shape.types.length := by
  rw [MethodTraits.getOutputArguments_eq, List.length_map, DeclaredResult.shape_types_length]

/-- The server's side of a call that is admitted is `Call::call` on the inputs. -/
theorem invoke_eq (grows : Nat → Bool) {place : Place} (base : Nat) (i : ι) (past : ms.Histories) {req : Request}
    (hplace : place.Holds req.input (MethodTraits.getOutputArguments (ms.sig i)).length)
    {outputs : List Ua.Variant} (hlen : outputs.length = (MethodTraits.getOutputArguments (ms.sig i)).length) :
    ms.invoke grows place base i past req =
      (Call.run (ms.callable i) (ms.obj i) req.input outputs (past i)).map fun called =>
        (⟨.good, base, called.outputs⟩, Function.update past i called.history) := by
  obtain ⟨hhanded, hinputs⟩ := hplace
  rw [getOutputArguments_length] at hhanded hlen
  have hdispatch := dispatch_iff grows (ms.callable i) (ms.obj i) (past i) hhanded hlen
  rw [hinputs] at hdispatch
  refine Option.ext fun ⟨⟨status, base', written⟩, histories⟩ => ?_
  simp only [Methods.invoke, getOutputArguments_length, Option.bind_eq_bind, Option.bind_eq_some_iff,
    Option.map_eq_some_iff, Option.pure_def, Option.some.injEq, Prod.mk.injEq, Answer.mk.injEq, Prod.exists]
  constructor
  · rintro ⟨_, m', _, hd, _, hfetched, ⟨rfl, rfl, rfl⟩, rfl⟩
    obtain ⟨called, hrun, rfl, rfl, rfl⟩ := (hdispatch _ _ _).mp ⟨m', hd, hfetched⟩
    exact ⟨called, hrun, ⟨rfl, rfl, rfl⟩, rfl⟩
  · rintro ⟨called, hrun, ⟨rfl, rfl, rfl⟩, rfl⟩
    obtain ⟨m', hd, hfetched⟩ := (hdispatch _ _ _).mpr ⟨called, hrun, rfl, rfl, rfl⟩
    exact ⟨_, m', _, hd, _, hfetched, ⟨rfl, rfl, rfl⟩, rfl⟩

section RemoteCall
variable {serve : ms.Histories → Request → Option (Answer × ms.Histories)} (grows : Nat → Bool)
  (past : ms.Histories) {objId methodId : NodeId} {objectId method : Ua.NodeId} {inputArgs : List Variant}
  {inputs : List Ua.Variant} {m : Memory}

/-- A remote call is the same call made locally on the method that the ids name, or, where they name none or the
Variants sent do not fit, an exception, and no callable is invoked. -/
theorem remote_eq_local (hserve : ms.Service serve) (hobject : fromNodeId objId = some objectId)
    (hmethod : fromNodeId methodId = some method) (hsent : Sent inputArgs m inputs) :
    (∀ i, ms.find objectId method = some i → Fits (ms.sig i) inputs → ∀ outputs : List Ua.Variant,
      outputs.length = (MethodTraits.getOutputArguments (ms.sig i)).length →
      (∀ called, Call.run (ms.callable i) (ms.obj i) inputs outputs (past i) = some called →
        ∃ out m', remoteCall serve grows objId methodId inputArgs m past =
            some (.ok out, m', Function.update past i called.history) ∧ values out m' = called.outputs) ∧
      (Call.run (ms.callable i) (ms.obj i) inputs outputs (past i) = none →
        remoteCall serve grows objId methodId inputArgs m past = none)) ∧
    ((∀ i, ms.find objectId method = some i → ¬ Fits (ms.sig i) inputs) →
      remoteCall serve grows objId methodId inputArgs m past = some (.error ⟨"error on call"⟩, m, past)) := by
  have hreq := request_eq hobject hmethod hsent
  refine ⟨fun i hfind hfits outputs hlen => ?_, fun hrefused => ?_⟩
  · obtain ⟨grows', place, base, hplace, hinvokes⟩ :=
      hserve.invokes past ⟨objectId, method, inputs⟩ i ⟨hfind, hfits⟩
    rw [invoke_eq grows' base i past hplace hlen] at hinvokes
    refine ⟨fun called hrun => ?_, fun hrun => ?_⟩
    · let answer : Answer := ⟨.good, base, called.outputs⟩
      have hcall : call (fun _ => answer) grows objId methodId inputArgs m =
          some (.ok (owners base called.outputs.length), answer.deliver m) := call_eq grows hreq rfl
      rw [hrun] at hinvokes
      refine ⟨_, _, ?_, values_owners answer m⟩
      simp only [remoteCall, hreq, hinvokes, Option.map_some, Option.bind_eq_bind, Option.bind_some, hcall,
        Option.pure_def, answer]
    · rw [hrun] at hinvokes
      simp [remoteCall, hreq, hinvokes]
  · obtain ⟨status, base, hbad, hrefuses⟩ :=
      hserve.refuses past ⟨objectId, method, inputs⟩ fun i hi => hrefused i hi.1 hi.2
    simp [remoteCall, hreq, hrefuses, call, hbad]

/-! ### A server with one method -/

/-- The inputs put one after another, and the outputs behind them. -/
def placed (req : Request) : Place :=
  ⟨⟨fun
    | .foreign k => req.input[k]?.getD .init
    | .allocated _ => .init, 0, []⟩, 0, req.input.length⟩

theorem placed_holds (req : Request) (outputSize : Nat) : (placed req).Holds req.input outputSize where
  handed :=
    { proper := by intro n hn; cases hn
      inputs := by intro i hi hn; cases hn
      outputs := by intro j hj hn; cases hn
      apart := by
        intro i hi j hj
        show 0 + i ≠ req.input.length + j
        omega }
  inputs := List.ext_getElem? fun j => by by_cases hj : j < req.input.length <;> simp [handed, placed, hj]

/-- A service that looks for the method and then at the inputs. -/
def served (ms : Methods ω ι) (past : ms.Histories) (req : Request) : Option (Answer × ms.Histories) :=
  match ms.find req.objectId req.methodId with
  | none => some (⟨.badMethodInvalid, 0, []⟩, past)
  | some i =>
    let declared := (MethodTraits.getInputArguments (ms.sig i)).length
    if Fits (ms.sig i) req.input then ms.invoke (fun _ => true) (placed req) 0 i past req
    else if req.input.length < declared then some (⟨.badArgumentsMissing, 0, []⟩, past)
    else if declared < req.input.length then some (⟨.badTooManyArguments, 0, []⟩, past)
    else some (⟨.badInvalidArgument, 0, []⟩, past)

theorem served_service (ms : Methods ω ι) : ms.Service (served ms) where
  invokes past req i := by
    intro ⟨hfind, hfits⟩
    refine ⟨fun _ => true, placed req, 0, placed_holds req _, ?_⟩
    simp [served, hfind, hfits]
  refuses past req hno := by
    unfold served
    cases hfind : ms.find req.objectId req.methodId with
    | none => exact ⟨_, _, by decide, rfl⟩
    | some i =>
      have hfits : ¬ Fits (ms.sig i) req.input := fun h => hno i ⟨hfind, h⟩
      simp only [if_neg hfits]
      split
      · exact ⟨_, _, by decide, rfl⟩
      · split <;> exact ⟨_, _, by decide, rfl⟩

/-- `int f(int)`. -/
def intToInt : Signature := ⟨[⟨.scalar .int32, false⟩], .single ⟨.scalar .int32, false⟩⟩

/-- The method `ns=1;i=1` of the object `ns=0;i=85` increments. -/
def incrementing : Methods Unit Unit where
  find objectId methodId := if objectId = ⟨0, .numeric 85⟩ ∧ methodId = ⟨1, .numeric 1⟩ then some () else none
  sig _ := intToInt
  accepted _ := ⟨by decide, by decide⟩
  callable _ := Call.increment
  obj _ := none

/-- A client's memory with 7 in the cell 0. -/
def seven : Memory := ⟨fun _ => .setScalarCopy (.int32 7) (Ua.builtin .int32), 0, []⟩

theorem sent_seven :
    Sent [⟨some (.foreign 0), true⟩] seven [.setScalarCopy (.int32 7) (Ua.builtin .int32)] :=
  .cons ⟨.foreign 0, rfl, rfl⟩ .nil

theorem remote_increment_of_seven : ∃ out m',
    remoteCall (served incrementing) (fun _ => true) (.ofInt 0 85) (.ofInt 1 1) [⟨some (.foreign 0), true⟩] seven
      (fun _ => []) = some (.ok out, m', Function.update (fun _ => []) () [⟨none, .cons (7 : Int32) .nil⟩]) ∧
    values out m' = [.setScalarCopy (.int32 8) (Ua.builtin .int32)] := by
  have hlen : [Ua.Variant.init].length = (MethodTraits.getOutputArguments intToInt).length := rfl
  have hobject : fromNodeId (.ofInt 0 85) = some ⟨0, .numeric 85⟩ := rfl
  have hmethod : fromNodeId (.ofInt 1 1) = some ⟨1, .numeric 1⟩ := rfl
  obtain ⟨hlocal, -⟩ := remote_eq_local (fun _ => true) (fun _ => []) (served_service incrementing) hobject hmethod
    sent_seven
  exact (hlocal () rfl (by decide) _ hlen).1 _ rfl

/-! ### Encoded arguments -/

theorem hasDataType_marshalled {t : CppType} (h : t.hasDataType = true) : t.Marshalled := by
  cases t with
  | scalar s => exact ⟨rfl, rfl⟩
  | vector s => cases s <;> first | exact ⟨rfl, rfl⟩ | cases h

/-- Encoded arguments fit what is declared exactly if none is a vector. -/
theorem encoded_allowed_iff {ds : List Declared} {args : Args (ds.map Declared.type)} {inputs : List Ua.Variant}
    (h : args.traverse toUAVariant = some inputs) :
    List.Forall₂ Ua.Argument.Allows (ds.map MethodTraits.getInputArgument) inputs ↔
      ∀ d ∈ ds, d.type.isVector = false := by
  induction ds generalizing inputs with
  | nil =>
    cases args
    cases h
    simp
  | cons d rest ih =>
    cases args with
    | cons x xs =>
      simp only [Tuple.traverse, Option.bind_eq_bind, Option.bind_eq_some_iff, Option.pure_def,
        Option.some.injEq] at h
      obtain ⟨v, hv, vs, hvs, rfl⟩ := h
      rw [List.map_cons, List.forall₂_cons, MethodTraits.encoded_input_allowed hv, ih hvs, List.forall_mem_cons]

theorem shape_types (r : DeclaredResult) : r.shape.types = r.components.map Declared.type := by
  cases r <;> rfl

/-- Every type in an accepted signature can be encoded and decoded. -/
theorem accepted_marshalled {sig : Signature} (h : sig.Accepted) :
    (∀ t ∈ Signature.ins sig, t.Marshalled) ∧ ∀ t ∈ sig.result.shape.types, t.Marshalled := by
  rw [shape_types]
  refine ⟨fun t ht => ?_, fun t ht => ?_⟩
  · obtain ⟨d, hd, rfl⟩ := List.mem_map.mp ht
    exact hasDataType_marshalled (h.inputs d hd).1
  · obtain ⟨d, hd, rfl⟩ := List.mem_map.mp ht
    exact hasDataType_marshalled (h.outputs d hd)

/-- The callable's result comes back to a client that names the method and sends the encoded arguments, and the
callable is invoked once and on the arguments, exactly if no parameter is a vector and neither the arguments nor
the result are cut. -/
theorem remote_call_iff (hserve : ms.Service serve) (hobject : fromNodeId objId = some objectId)
    (hmethod : fromNodeId methodId = some method) (hsent : Sent inputArgs m inputs) {i : ι}
    (hfind : ms.find objectId method = some i) {args : Args (Signature.ins (ms.sig i))}
    (hencoded : args.traverse toUAVariant = some inputs) :
    (∃ out m', remoteCall serve grows objId methodId inputArgs m past =
        some (.ok out, m', Function.update past i (past i ++ [⟨ms.obj i, args⟩])) ∧
      Call.Decodes ((ms.sig i).result.shape.toTuple (ms.callable i (past i) ⟨ms.obj i, args⟩)) (values out m')) ↔
    (∀ d ∈ (ms.sig i).inputs, d.type.isVector = false) ∧ args.All CppType.Faithful ∧
      ((ms.sig i).result.shape.toTuple (ms.callable i (past i) ⟨ms.obj i, args⟩)).All CppType.Faithful := by
  let outputs : List Ua.Variant := List.replicate (MethodTraits.getOutputArguments (ms.sig i)).length .init
  have hlen : outputs.length = (MethodTraits.getOutputArguments (ms.sig i)).length := List.length_replicate
  have hsize : outputs.length = (ms.sig i).result.shape.types.length :=
    hlen.trans (getOutputArguments_length (ms.sig i))
  obtain ⟨hins, hres⟩ := accepted_marshalled (ms.accepted i)
  obtain ⟨hlocal, hrefused⟩ := remote_eq_local grows past hserve hobject hmethod hsent
  have hfits : Fits (ms.sig i) inputs ↔ ∀ d ∈ (ms.sig i).inputs, d.type.isVector = false := by
    rw [Fits, MethodTraits.getInputArguments_eq]
    exact encoded_allowed_iff hencoded
  have hmarshals := Call.marshals_iff (ms.callable i) (ms.obj i) args outputs (past i) hins hres
    (Nat.le_of_eq hsize.symm)
  rw [and_iff_right (ms.accepted i).constructible] at hmarshals
  rw [← hmarshals, ← hfits]
  constructor
  · intro ⟨out, m', hremote, hdecodes⟩
    by_cases hf : Fits (ms.sig i) inputs
    · obtain ⟨hreturns, hfails⟩ := hlocal i hfind hf outputs hlen
      cases hrun : Call.run (ms.callable i) (ms.obj i) inputs outputs (past i) with
      | none =>
        rw [hfails hrun] at hremote
        cases hremote
      | some called =>
        obtain ⟨out', m'', hremote', hvalues⟩ := hreturns called hrun
        rw [hremote', Option.some.injEq, Prod.mk.injEq, Prod.mk.injEq] at hremote
        obtain ⟨hout, rfl, hhistories⟩ := hremote
        cases hout
        have hhistory : called.history = past i ++ [⟨ms.obj i, args⟩] := by
          have := congrFun hhistories i
          rwa [Function.update_self, Function.update_self] at this
        obtain ⟨args', _, vs, _, hvs, rfl⟩ := (run_eq_some_iff hsize).mp hrun
        have hnone : ∀ j, (ms.sig i).result.shape.types.length ≤ j → vs[j]? = outputs[j]? := fun j hj => by
          rw [List.getElem?_eq_none (Tuple.traverse_length hvs ▸ hj), List.getElem?_eq_none (hsize ▸ hj)]
        exact ⟨hf, inputs, _, hencoded, hrun, hhistory, rfl, hvalues ▸ hdecodes, hnone, rfl⟩
    · have hno : ∀ i', ms.find objectId method = some i' → ¬ Fits (ms.sig i') inputs := by
        intro i' hi'
        cases hfind.symm.trans hi'
        exact hf
      rw [hrefused hno] at hremote
      cases hremote
  · intro ⟨hf, inputs', called, hinputs, hrun, hhistory, _, hdecodes, _⟩
    cases hencoded.symm.trans hinputs
    obtain ⟨out, m', hremote, hvalues⟩ := (hlocal i hfind hf outputs hlen).1 called hrun
    exact ⟨out, m', hhistory ▸ hremote, hvalues ▸ hdecodes⟩

/-- Called with 7. -/
theorem remote_call_of_seven : ∃ out m',
    remoteCall (served incrementing) (fun _ => true) (.ofInt 0 85) (.ofInt 1 1) [⟨some (.foreign 0), true⟩] seven
      (fun _ => []) = some (.ok out, m', Function.update (fun _ => []) () [⟨none, .cons (7 : Int32) .nil⟩]) ∧
    Call.Decodes (.cons (8 : Int32) .nil : Args [.scalar .int32]) (values out m') := by
  have hobject : fromNodeId (.ofInt 0 85) = some ⟨0, .numeric 85⟩ := rfl
  have hmethod : fromNodeId (.ofInt 1 1) = some ⟨1, .numeric 1⟩ := rfl
  have hencoded : (.cons (7 : Int32) .nil : Args (Signature.ins (incrementing.sig ()))).traverse toUAVariant =
      some [.setScalarCopy (.int32 7) (Ua.builtin .int32)] := rfl
  have hfind : incrementing.find ⟨0, .numeric 85⟩ ⟨1, .numeric 1⟩ = some () := rfl
  exact (remote_call_iff (fun _ => true) (fun _ => []) (served_service incrementing) hobject hmethod sent_seven
    hfind hencoded).mpr ⟨by decide, ⟨trivial, trivial⟩, ⟨trivial, trivial⟩⟩

end RemoteCall

/-! ### Any requests of any clients -/

/-- What open62541 keeps of the Variants it receives. -/
def Request.WellFormed (req : Request) : Prop := ∀ v ∈ req.input, v.isEmpty = false → v.WellFormed

/-- A parameter decodes what is allowed at its place, completely unless it is a vector. -/
theorem get_of_allowed {d : Declared} {v : Ua.Variant} (hw : v.isEmpty = false → v.WellFormed)
    (h : (MethodTraits.getInputArgument d).Allows v) :
    ∃ x, get d.type v = some x ∧ (d.type.isVector = false → Holds d.type v x) := by
  obtain ⟨⟨t, htype, hid⟩, hrank⟩ := MethodTraits.getInputArgument_allows.mp h
  have hw := hw (by rw [Ua.Variant.isEmpty, htype]; rfl)
  obtain ⟨type, qualified⟩ := d
  cases type with
  | scalar s =>
    obtain ⟨x, hx, hholds⟩ := get_scalar_complete hw ⟨t, htype, hid⟩ hrank
    exact ⟨x, hx, fun _ => hholds⟩
  | vector s =>
    have hscalar : v.arrayLength = 0 := by
      unfold Ua.Variant.rank at hrank
      split at hrank
      · split at hrank
        · next hs => exact Ua.Variant.arrayLength_of_scalar hs
        · cases hrank
      · next hd => exact absurd (List.isEmpty_iff.mpr (List.length_eq_zero_iff.mp hrank)) hd
    exact ⟨[], if_pos hscalar, fun hno => by cases hno⟩

/-- Inputs that fit are decoded. -/
theorem decodes_of_fits {sig : Signature} (hdef : ∀ t ∈ Signature.ins sig, t.defaultConstructible = true)
    {inputs : List Ua.Variant} (hw : ∀ v ∈ inputs, v.isEmpty = false → v.WellFormed)
    (h : Fits sig inputs) :
    ∃ args : Args (Signature.ins sig), Call.decodeInputs (Signature.ins sig) inputs =
        some (args, (Signature.ins sig).length) ∧
      ∀ (j : Nat) (c : Sigma CppType.El), args.components[j]? = some c →
        ∃ v, inputs[j]? = some v ∧ (c.1.isVector = false → Holds c.1 v c.2) := by
  rw [Fits, MethodTraits.getInputArguments_eq, List.forall₂_map_left_iff] at h
  have hlen : (Signature.ins sig).length ≤ inputs.length := by rw [List.length_map, h.length_eq]
  obtain ⟨args, hargs, hholds⟩ := Tuple.ofList_complete (g := get)
    (P := fun t v x => t.isVector = false → Holds t v x) hlen fun i t v ht hv => by
      rw [List.getElem?_map, Option.map_eq_some_iff] at ht
      obtain ⟨d, hd, rfl⟩ := ht
      have hallowed := (List.forall₂_iff_get.mp h).2 i (List.getElem?_eq_some_iff.mp hd).1
        (List.getElem?_eq_some_iff.mp hv).1
      rw [List.get_eq_getElem, List.get_eq_getElem, (List.getElem?_eq_some_iff.mp hd).2,
        (List.getElem?_eq_some_iff.mp hv).2] at hallowed
      exact get_of_allowed (hw v (List.mem_of_getElem? hv)) hallowed
  exact ⟨args, by rw [Call.decodeInputs_eq hdef, hargs]; rfl, hholds⟩

/-- What a request makes the callable of a method see. -/
def Methods.invocation (ms : Methods ω ι) (i : ι) (req : Request) :
    Option (Invocation ω (Signature.ins (ms.sig i))) :=
  if ms.find req.objectId req.methodId = some i ∧ Fits (ms.sig i) req.input then
    (Call.decodeInputs (Signature.ins (ms.sig i)) req.input).map fun decoded => ⟨ms.obj i, decoded.1⟩
  else none

/-- What the callables have seen after a request. -/
def step (serve : ms.Histories → Request → Option (Answer × ms.Histories)) (past : ms.Histories) (req : Request) :
    Option ms.Histories :=
  (serve past req).map (·.2)

/-- The service does what it should with a request: one that names a method and fits is carried out, the arguments
being what the inputs hold and the outputs what the callable returns; another is refused. -/
inductive Answered (ms : Methods ω ι) (past : ms.Histories) (req : Request) :
    Option (Answer × ms.Histories) → Prop where
  | carriedOut (i : ι) (admits : ms.Admits req i) (args : Args (Signature.ins (ms.sig i))) (vs : List Ua.Variant)
      (base : Nat)
      (holds : ∀ (j : Nat) (c : Sigma CppType.El), args.components[j]? = some c →
        ∃ v, req.input[j]? = some v ∧ (c.1.isVector = false → Holds c.1 v c.2))
      (returned : ((ms.sig i).result.shape.toTuple (ms.callable i (past i) ⟨ms.obj i, args⟩)).traverse toUAVariant =
        some vs) :
      Answered ms past req (some (⟨.good, base, vs⟩, Function.update past i (past i ++ [⟨ms.obj i, args⟩])))
  | refused (admits : ∀ i, ¬ ms.Admits req i) (status : Ua.StatusCode) (base : Nat) (bad : status ≠ .good) :
      Answered ms past req (some (⟨status, base, []⟩, past))

section Runs
variable {serve : ms.Histories → Request → Option (Answer × ms.Histories)}

theorem serve_answered (hserve : ms.Service serve)
    (hreturns : ∀ i past invocation, ∃ vs,
      ((ms.sig i).result.shape.toTuple (ms.callable i past invocation)).traverse toUAVariant = some vs)
    (past : ms.Histories) {req : Request} (hw : Request.WellFormed req) :
    Answered ms past req (serve past req) ∧
      step serve past req = some fun i => past i ++ (ms.invocation i req).toList := by
  by_cases hadmits : ∃ i, ms.Admits req i
  · obtain ⟨i, hfind, hfits⟩ := hadmits
    obtain ⟨args, hdecoded, hholds⟩ := decodes_of_fits (ms.accepted i).constructible hw hfits
    obtain ⟨vs, hvs⟩ := hreturns i (past i) ⟨ms.obj i, args⟩
    let outputs : List Ua.Variant := List.replicate (MethodTraits.getOutputArguments (ms.sig i)).length .init
    have hlen : outputs.length = (MethodTraits.getOutputArguments (ms.sig i)).length := List.length_replicate
    have hrun : Call.run (ms.callable i) (ms.obj i) req.input outputs (past i) =
        some ⟨true, req.input, vs, past i ++ [⟨ms.obj i, args⟩]⟩ :=
      (run_eq_some_iff (hlen.trans (getOutputArguments_length _))).mpr ⟨args, _, vs, hdecoded, hvs, rfl⟩
    obtain ⟨grows, place, base, hplace, hinvokes⟩ := hserve.invokes past req i ⟨hfind, hfits⟩
    rw [invoke_eq grows base i past hplace hlen, hrun, Option.map_some] at hinvokes
    refine ⟨hinvokes ▸ .carriedOut i ⟨hfind, hfits⟩ args vs base hholds hvs, ?_⟩
    rw [step, hinvokes, Option.map_some, Option.some.injEq]
    funext k
    by_cases hk : k = i
    · subst hk
      simp [Methods.invocation, hfind, hfits, hdecoded]
    · have hother : ms.find req.objectId req.methodId ≠ some k := fun he =>
        hk (Option.some.inj (he.symm.trans hfind))
      simp [Methods.invocation, hother, Function.update_of_ne hk]
  · have hno : ∀ i, ¬ ms.Admits req i := fun i hi => hadmits ⟨i, hi⟩
    obtain ⟨status, base, hbad, hrefuses⟩ := hserve.refuses past req hno
    refine ⟨hrefuses ▸ .refused hno status base hbad, ?_⟩
    rw [step, hrefuses, Option.map_some, Option.some.injEq]
    funext i
    have hnone : ms.invocation i req = none := if_neg (hno i)
    rw [hnone, Option.toList_none, List.append_nil]

/-- Whatever well-formed Variants any clients send to whatever ids, in any order, every call is answered, and each
callable is invoked once for each request that names its method and fits, in the order of the requests, and for no
other. -/
theorem served_in_order (hserve : ms.Service serve)
    (hreturns : ∀ i past invocation, ∃ vs,
      ((ms.sig i).result.shape.toTuple (ms.callable i past invocation)).traverse toUAVariant = some vs)
    (past : ms.Histories) {reqs : List Request} (hw : ∀ req ∈ reqs, Request.WellFormed req) :
    (∀ e ∈ Run.edges (step serve) past reqs, Answered ms e.1 e.2 (serve e.1 e.2)) ∧
    Run.final (step serve) past reqs = some fun i => past i ++ reqs.filterMap (ms.invocation i) := by
  have hanswered {req : Request} (past : ms.Histories) (hw : Request.WellFormed req) :=
    serve_answered hserve hreturns past hw
  refine ⟨fun e he => (hanswered e.1 (hw e.2 (Run.edge_mem he))).1, ?_⟩
  induction reqs generalizing past with
  | nil => simp [Run.final]
  | cons req rest ih =>
    have hstep := (hanswered past (hw req (List.mem_cons_self ..))).2
    have hrest := ih (fun i => past i ++ (ms.invocation i req).toList) fun r hr => hw r (List.mem_cons_of_mem _ hr)
    rw [Run.final, hstep]
    simp only [hrest, List.append_assoc, Option.some.injEq]
    funext i
    cases hinvocation : ms.invocation i req <;> simp [hinvocation]

end Runs

end Service

/-- 7, then an argument too many, then 7 to another method, then 7 again. -/
theorem served_of_four :
    (Run.final (step (served incrementing)) (fun _ => [])
      [⟨⟨0, .numeric 85⟩, ⟨1, .numeric 1⟩, [.setScalarCopy (.int32 7) (Ua.builtin .int32)]⟩,
        ⟨⟨0, .numeric 85⟩, ⟨1, .numeric 1⟩, List.replicate 2 (.setScalarCopy (.int32 7) (Ua.builtin .int32))⟩,
        ⟨⟨0, .numeric 85⟩, ⟨1, .numeric 2⟩, [.setScalarCopy (.int32 7) (Ua.builtin .int32)]⟩,
        ⟨⟨0, .numeric 85⟩, ⟨1, .numeric 1⟩, [.setScalarCopy (.int32 7) (Ua.builtin .int32)]⟩]).map (· ()) =
    some [⟨none, .cons (7 : Int32) .nil⟩, ⟨none, .cons (7 : Int32) .nil⟩] := by
  have hreturns : ∀ (i : Unit) (past : History Unit (incrementing.sig i))
      (invocation : Invocation Unit (Signature.ins (incrementing.sig i))), ∃ vs,
      ((incrementing.sig i).result.shape.toTuple (incrementing.callable i past invocation)).traverse toUAVariant =
        some vs := fun _ _ _ => ⟨_, rfl⟩
  rw [(served_in_order (served_service incrementing) hreturns (fun _ => []) fun req hreq v hv _ => ?_).2]
  · rfl
  · have hseven : v = .setScalarCopy (.int32 7) (Ua.builtin .int32) := by
      simp only [List.mem_cons, List.not_mem_nil, or_false] at hreq
      rcases hreq with rfl | rfl | rfl | rfl <;> simpa using hv
    exact hseven ▸ Ua.Variant.setScalarCopy_wellFormed (.int32 7)

end ModernOpc.Remote
