import ModernOpc.Client.Namespaces
import ModernOpc.Server.Callbacks
import ModernOpc.Variant.Ownership

/-! `Client::call` and what becomes of its results.

open62541 hands the outputs over as one block of `UA_Variant`s. The client wraps each of
them in a Variant that owns it, but only the address a block starts at may be deleted,
and deleting it releases the whole block.

`call_results_iff`: the results can be used and dropped independently of each other
exactly if there is at most one. -/
namespace ModernOpc.ClientCall
open Library Library.Custody Ownership

/-- What `UA_Client_call` is given. -/
structure Request where
  objectId : Ua.NodeId
  methodId : Ua.NodeId
  input : List Ua.Variant

/-- What it answers: a status, and the outputs in the cells from `base` on. -/
structure Answer where
  status : Ua.StatusCode
  base : Nat
  output : List Ua.Variant

namespace Answer

/-- Memory with the outputs in it. -/
def deliver (answer : Answer) (m : Memory) : Memory :=
  {m with content := fun
    | .foreign k =>
      if answer.base ≤ k then (answer.output[k - answer.base]?).getD (m.content (.foreign k))
      else m.content (.foreign k)
    | .allocated n => m.content (.allocated n)}

/-- The cells a block of memory starts at: all but the outputs after the first. -/
def Starts (answer : Answer) : Cell → Prop
  | .foreign k => ¬ (answer.base < k ∧ k < answer.base + answer.output.length)
  | .allocated _ => True

end Answer

/-- The ids converted, and the inputs copied bit by bit. -/
def request (objId methodId : NodeId) (inputArgs : List Variant) (m : Memory) : Option Request := do
  let input ← inputArgs.mapM fun inputVar => (m.deref inputVar.variant).map m.content
  let objectId ← fromNodeId objId
  let methodId ← fromNodeId methodId
  return ⟨objectId, methodId, input⟩

/-- `for (auto var = output; var < output + outputSize; var++)`, with `n` to go. -/
def collect (grows : Nat → Bool) (var : Nat) : Nat → List Variant → Memory → Option (List Variant × Memory)
  | 0, out, m => some (out, m)
  | n + 1, out, m => do
    let (out, m) ← emplaceBack grows out (Variant.wrap (.foreign var) true) m
    collect grows (var + 1) n out m

/-- `Client::call`: the results or the exception, and memory. -/
def call (server : Request → Answer) (grows : Nat → Bool) (objId methodId : NodeId) (inputArgs : List Variant)
    (m : Memory) : Option (Except Client.OpcException (List Variant) × Memory) := do
  let answer := server (← request objId methodId inputArgs m)
  if answer.status ≠ .good then
    return (.error ⟨"error on call"⟩, m)
  else
    let (out, m) ← collect grows answer.base answer.output.length [] (answer.deliver m)
    return (.ok out, m)

/-! ### The life of the results -/

/-- The caller holds the results under the names from `x` on. -/
def holding (s : State) (x : Nat) (answer : Answer) (out : List Variant) (m : Memory) : State where
  memory := m
  objects i := if i < x then s.objects i else out[i - x]?
  taken := List.range' answer.base answer.output.length ++ s.taken

/-- The operations on the results, and on Variants made from them. -/
def OnResults (x : Nat) : Op → Prop
  | .default y | .destroy y | .call y _ | .copyCtor y _ | .copyAssign y _ => x ≤ y
  | .ofValue y encoding => x ≤ y ∧ encoding ≠ none
  | .moveCtor y z | .moveAssign y z => x ≤ y ∧ x ≤ z
  | .wrap .. => False

/-- The caller's state before a call: custody is in order, the names from `x` on are
free, and no cell of the block was handed over or deleted before. -/
structure Ready (s : State) (x : Nat) (answer : Answer) : Prop where
  sound : s.custody.Sound
  free : ∀ i, x ≤ i → s.objects i = none
  fresh : ∀ k, answer.base ≤ k → k < answer.base + answer.output.length →
    k ∉ s.taken ∧ .foreign k ∉ s.memory.deleted

/-- Results that stand for themselves. -/
structure Independent (s : State) (x : Nat) (answer : Answer) (out : List Variant) (m : Memory) : Prop where
  count : out.length = answer.output.length
  values : values out m = answer.output
  /-- Each owns a block of its own. -/
  own : ∀ (i : Nat) (v : Variant), out[i]? = some v → v.owned = true ∧ ∃ c, v.variant = some c ∧ answer.Starts c ∧
    ∀ (j : Nat) (w : Variant), out[j]? = some w → w.variant = some c → j = i
  /-- However they are used, what is deleted is a block, and every block is in one
  Variant's custody or was deleted once. -/
  released : ∀ ops, (∀ op ∈ ops, OnResults x op) → ∀ t ∈ Run.visited step (holding s x answer out m) ops,
    t.custody.Sound ∧ ∀ c ∈ t.memory.deleted, answer.Starts c

/-! ### What the call returns -/

def owners (var n : Nat) : List Variant := (List.range' var n).map fun k => ⟨some (.foreign k), true⟩

theorem collect_eq (grows : Nat → Bool) (var n : Nat) (out : List Variant) (m : Memory) :
    collect grows var n out m = some (out ++ owners var n, m) := by
  induction n generalizing var out with
  | zero => simp [collect, owners]
  | succ n ih => simp [collect, emplaceBack_eq, ih, owners, Variant.wrap, List.range'_succ]

theorem call_eq {server : Request → Answer} (grows : Nat → Bool) {objId methodId : NodeId}
    {inputArgs : List Variant} {m : Memory} {req : Request}
    (hreq : request objId methodId inputArgs m = some req)
    (hgood : (server req).status = .good) :
    call server grows objId methodId inputArgs m =
      some (.ok (owners (server req).base (server req).output.length), (server req).deliver m) := by
  simp [call, hreq, hgood, collect_eq]

theorem owners_getElem? (var n i : Nat) :
    (owners var n)[i]? = if i < n then some ⟨some (.foreign (var + i)), true⟩ else none := by
  by_cases h : i < n <;> simp [owners, h]

theorem owners_cases {var n i : Nat} {v : Variant} (h : (owners var n)[i]? = some v) :
    i < n ∧ v = ⟨some (.foreign (var + i)), true⟩ := by
  rw [owners_getElem?] at h
  split at h
  · next hi => exact ⟨hi, (Option.some.inj h).symm⟩
  · cases h

/-- The results hold the outputs. -/
theorem values_owners (answer : Answer) (m : Memory) :
    values (owners answer.base answer.output.length) (answer.deliver m) = answer.output := by
  have hvalues : values (owners answer.base answer.output.length) (answer.deliver m) =
      (List.range' answer.base answer.output.length).map fun k => (answer.deliver m).content (.foreign k) := by
    simp [values, owners, List.filterMap_map]
  rw [hvalues]
  refine List.ext_getElem? fun i => ?_
  by_cases hi : i < answer.output.length
  · simp [Answer.deliver, hi]
  · simp [hi]

/-! ### Results of calls with at most one output -/

theorem starts_of_le_one {answer : Answer} (h : answer.output.length ≤ 1) (c : Cell) : answer.Starts c := by
  cases c with
  | foreign k =>
    intro ⟨_, hk⟩
    omega
  | allocated n => trivial

/-- The block is handed over to the one result, if there is one. -/
theorem holding_orderly {s : State} {x : Nat} {answer : Answer} (h : Ready s x answer)
    (hone : answer.output.length ≤ 1) :
    s.custody.Orderly
      (holding s x answer (owners answer.base answer.output.length) (answer.deliver s.memory)).custody := by
  have hobjects : ∀ i, ¬ i < x → s.custody.holds i = none := fun i hi =>
    holds_fresh (h.free i (Nat.not_lt.mp hi))
  rcases Nat.le_one_iff_eq_zero_or_eq_one.mp hone with hn | hn
  · have hsame : (holding s x answer (owners answer.base answer.output.length)
        (answer.deliver s.memory)).custody = s.custody := by
      refine Book.ext (funext fun i => ?_) (funext fun c => ?_) rfl
      · show (if i < x then s.objects i else (owners answer.base answer.output.length)[i - x]?).bind _ = _
        split
        · rfl
        · next hi => rw [hobjects i hi, owners_getElem?, hn]; rfl
      · cases c <;> simp [State.custody, State.Entrusted, holding, Answer.deliver, hn]
    exact hsame ▸ .refl _
  · have hacquired : (holding s x answer (owners answer.base answer.output.length)
        (answer.deliver s.memory)).custody = s.custody.acquire x (.foreign answer.base) := by
      refine Book.ext (funext fun i => ?_) (funext fun c => ?_) rfl
      · show (if i < x then s.objects i else (owners answer.base answer.output.length)[i - x]?).bind _ =
          Function.update s.custody.holds x _ i
        rw [owners_getElem?, hn]
        rcases Nat.lt_trichotomy i x with hi | rfl | hi
        · rw [if_pos hi, Function.update_of_ne (Nat.ne_of_lt hi)]
          rfl
        · simp [Variant.held]
        · rw [if_neg (by omega), if_neg (by omega), Function.update_of_ne (by omega), hobjects i (by omega)]
          rfl
      · cases c with
        | foreign k => simp [State.custody, State.Entrusted, holding, hn, Book.acquire, or_comm]
        | allocated k => simp [State.custody, State.Entrusted, holding, Answer.deliver, Book.acquire]
    have hfresh := (h.fresh answer.base (Nat.le_refl _) (by omega)).1
    exact hacquired ▸ .acquire _ (hobjects x (Nat.lt_irrefl x)) hfresh

/-- The results, and what is made of them, own what they point to. -/
def Owning (x : Nat) (s : State) : Prop :=
  ∀ z w, x ≤ z → s.objects z = some w → w.owned = true ∨ w.variant = none

theorem step_owning {x : Nat} {s t : State} {op : Op} (h : Owning x s) (hop : OnResults x op)
    (hstep : step s op = some t) : Owning x t := by
  obtain ⟨_, horigin⟩ := step_origin hstep
  intro z w hz hw
  cases horigin z w hw with
  | kept hk => exact h z w hz hk
  | made hnew _ => exact .inl (hnew ▸ rfl)
  | wrapped var owner hwrap =>
    subst hwrap
    exact hop.elim
  | moved y hmove hy =>
    have hxy : x ≤ y := by
      rcases hmove with rfl | rfl <;> exact hop.2
    exact h y w hxy hy
  | left hleft => exact .inr (hleft ▸ rfl)
  | assigned y v c _ _ _ hclaim => exact .inl (hclaim ▸ rfl)

/-- Such operations never claim a cell that was not handed over. -/
theorem respects_of_owning {x : Nat} {s t : State} {op : Op} (h : Owning x s) (hop : OnResults x op)
    (hstep : step s op = some t) : Respects s op := by
  cases op with
  | ofValue y encoding => exact hop.2
  | copyAssign y z =>
    intro v hv
    obtain ⟨self, c, _, hself, hc, _⟩ := step_copyAssign hstep
    cases hself.symm.trans hv
    refine (h y v hop hv).resolve_right fun hnull => ?_
    rw [hnull] at hc
    cases hc
  | _ => trivial

theorem released_of_owning {x : Nat} {s : State} (hs : s.custody.Sound) (ho : Owning x s) {ops : List Op}
    (hops : ∀ op ∈ ops, OnResults x op) : ∀ t ∈ Run.visited step s ops, t.custody.Sound := by
  intro t ht
  refine (Run.holds_of_kept (I := fun s => s.custody.Sound ∧ Owning x s) (G := fun _ op => OnResults x op)
    (fun s op t hi hop hstep => ?_) ⟨hs, ho⟩ (fun e he => hops e.2 (Run.edge_mem he)) t ht).1
  exact ⟨hi.1.of_orderly (step_orderly (respects_of_owning hi.2 hop hstep) hstep), step_owning hi.2 hop hstep⟩

/-- The results after the first do not own a block. -/
theorem at_most_one {s : State} {x : Nat} {answer : Answer} {m : Memory}
    (h : Independent s x answer (owners answer.base answer.output.length) m) : answer.output.length ≤ 1 := by
  refine Nat.le_of_not_lt fun hn => ?_
  have hsecond : (owners answer.base answer.output.length)[1]? =
      some ⟨some (.foreign (answer.base + 1)), true⟩ := by
    rw [owners_getElem?, if_pos hn]
  obtain ⟨_, c, hc, hstarts, _⟩ := h.own 1 _ hsecond
  cases hc
  exact hstarts ⟨Nat.lt_succ_self _, Nat.add_lt_add_left hn _⟩

/-- A call that succeeds returns independent results exactly if there is at most one. -/
theorem call_results_iff (server : Request → Answer) (grows : Nat → Bool) (objId methodId : NodeId)
    (inputArgs : List Variant) {s : State} {x : Nat} {req : Request}
    (hreq : request objId methodId inputArgs s.memory = some req) (hgood : (server req).status = .good)
    (hready : Ready s x (server req)) :
    (∃ out m, call server grows objId methodId inputArgs s.memory = some (.ok out, m) ∧
      Independent s x (server req) out m) ↔ (server req).output.length ≤ 1 := by
  have hcall := call_eq grows hreq hgood
  constructor
  · intro ⟨out, m, hout, h⟩
    cases hcall.symm.trans hout
    exact at_most_one h
  · intro hone
    refine ⟨_, _, hcall, ⟨by simp [owners], values_owners .., fun i v hv => ?_, fun ops hops t ht => ⟨?_, ?_⟩⟩⟩
    · obtain ⟨hi, rfl⟩ := owners_cases hv
      refine ⟨rfl, _, rfl, starts_of_le_one hone _, fun j w hw hc => ?_⟩
      obtain ⟨_, rfl⟩ := owners_cases hw
      have hsame := Cell.foreign.inj (Option.some.inj hc)
      omega
    · refine released_of_owning (hready.sound.of_orderly (holding_orderly hready hone)) ?_ hops t ht
      intro z w hz hw
      have hw : (if z < x then s.objects z else
        (owners (server req).base (server req).output.length)[z - x]?) = some w := hw
      rw [if_neg (Nat.not_lt.mpr hz)] at hw
      exact .inl ((owners_cases hw).2 ▸ rfl)
    · exact fun c _ => starts_of_le_one hone c

/-- A server whose method has these outputs. -/
def answering (output : List Ua.Variant) : Request → Answer := fun _ => ⟨.good, 0, output⟩

theorem ready_at_start (req : Request) (output : List Ua.Variant) :
    Ready (start fun _ => .init) 0 (answering output req) :=
  ⟨custody_start _, fun _ _ => rfl, fun _ _ _ => ⟨List.not_mem_nil, List.not_mem_nil⟩⟩

theorem call_results_of_one : ∃ out m,
    call (answering [.setScalarCopy (.int32 1) (Ua.builtin .int32)]) (fun _ => true) (NodeId.ofInt 0 85)
      (NodeId.ofInt 1 1) [] (start fun _ => .init).memory = some (.ok out, m) ∧
    Independent (start fun _ => .init) 0 ⟨.good, 0, [.setScalarCopy (.int32 1) (Ua.builtin .int32)]⟩ out m := by
  let req : Request := ⟨⟨0, .numeric 85⟩, ⟨1, .numeric 1⟩, []⟩
  have hrequest : request (NodeId.ofInt 0 85) (NodeId.ofInt 1 1) [] (start fun _ => .init).memory = some req :=
    rfl
  have hready := ready_at_start req [.setScalarCopy (.int32 1) (Ua.builtin .int32)]
  exact (call_results_iff _ _ _ _ _ hrequest rfl hready).mpr (Nat.le_refl 1)

/-- With two outputs, the second result owns the middle of a block. -/
theorem second_result_not_a_block : ¬ ∀ (server : Request → Answer) (grows : Nat → Bool) (objId methodId : NodeId)
    (inputArgs : List Variant) (s : State) (x : Nat) (req : Request),
    request objId methodId inputArgs s.memory = some req → (server req).status = .good →
    Ready s x (server req) →
    ∃ out m, call server grows objId methodId inputArgs s.memory = some (.ok out, m) ∧
      Independent s x (server req) out m := by
  intro h
  let req : Request := ⟨⟨0, .numeric 85⟩, ⟨1, .numeric 1⟩, []⟩
  let two : List Ua.Variant :=
    [.setScalarCopy (.int32 1) (Ua.builtin .int32), .setScalarCopy (.int32 2) (Ua.builtin .int32)]
  have hrequest : request (NodeId.ofInt 0 85) (NodeId.ofInt 1 1) [] (start fun _ => .init).memory = some req :=
    rfl
  obtain ⟨out, m, hout, hindependent⟩ :=
    h (answering two) (fun _ => true) (NodeId.ofInt 0 85) (NodeId.ofInt 1 1) []
    (start fun _ => .init) 0 req hrequest rfl (ready_at_start req two)
  cases (call_eq _ hrequest rfl).symm.trans hout
  exact absurd (at_most_one hindependent) (by decide)

end ModernOpc.ClientCall
