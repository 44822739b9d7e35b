import ModernOpc.Library.Run
import ModernOpc.Server.Callbacks

/-! Reading and writing a variable.

`VariableNode::read` and `write` turn a status of open62541 into a boolean. For a variable
with a data source that status is what `internalRead` and `internalWrite` return: they ask
the data source and return good whatever it answers. In `write` a semicolon ends the test
of the status, and the branch that returns true is taken always.

`status_propagates_iff`: in a run of reads and writes the booleans say what became of the
accesses exactly if no write is refused by anyone and no data source refuses a read. -/
namespace ModernOpc

/-- Where a variable has its value: in its node, or from a data source. A node with a data
source has its address as context, or null. -/
inductive ValueSource where
  | data (value : Ua.Variant)
  | dataSource (connected : Bool)

/-- A variable's node in the server, the user code's state, and memory. -/
structure VariableState (σ : Type) where
  source : ValueSource
  code : σ
  memory : Memory

/-- What meets one read or write: open62541's own status, good unless it refuses before the
data source is asked; the data source, as its callbacks behave this time; and the cell
that open62541 keeps the value in meanwhile. -/
structure Access (σ : Type) where
  own : Ua.StatusCode
  ds : DataSource σ
  value : Nat

variable {σ : Type}

/-- The context that the callbacks get. -/
def Access.nodeContext (a : Access σ) (connected : Bool) : Option (DataSource σ) :=
  if connected then some a.ds else none

/-- `UA_Server_readValue` into a cell. -/
def readValue (s : VariableState σ) (nodeId : Ua.NodeId) (v : Cell) (a : Access σ) :
    Option (Ua.StatusCode × VariableState σ) :=
  if a.own ≠ .good then some (a.own, s)
  else
    match s.source with
    | .data value => some (.good, {s with memory := s.memory.store v value})
    | .dataSource connected => do
      let (status, code, m) ← internalRead (a.nodeContext connected) s.code nodeId a.value s.memory
      if status ≠ .good then return (status, {s with code := code, memory := m})
      else return (status, {s with code := code, memory := m.store v (m.content (.foreign a.value))})

/-- `UA_Server_writeValue` from a cell. -/
def writeValue (s : VariableState σ) (nodeId : Ua.NodeId) (v : Cell) (a : Access σ) :
    Option (Ua.StatusCode × VariableState σ) :=
  if a.own ≠ .good then some (a.own, s)
  else
    match s.source with
    | .data _ => some (.good, {s with source := .data (s.memory.content v)})
    | .dataSource connected => do
      let m := s.memory.store (.foreign a.value) (s.memory.content v)
      let (status, code, m) ← internalWrite (a.nodeContext connected) s.code nodeId a.value m
      return (status, {s with code := code, memory := m})

/-- A variable's wrapper. -/
structure VariableNode where
  id : NodeId

namespace VariableNode

/-- `VariableNode::connectCallback`; the pointer may be null. -/
def connectCallback (self : VariableNode) (present : Bool) (s : VariableState σ) : Option (VariableState σ) := do
  let _ ← fromNodeId self.id
  return {s with source := .dataSource present}

/-- `VariableNode::read`. -/
def read (self : VariableNode) (var : Variant) (a : Access σ) (s : VariableState σ) :
    Option (Bool × VariableState σ) := do
  let v ← s.memory.deref var.variant
  -- `UA_Variant_clear`
  let s := {s with memory := s.memory.store v .init}
  let nodeId ← fromNodeId self.id
  let (status, s) ← readValue s nodeId v a
  if status = .good then return (true, s) else return (false, s)

/-- `VariableNode::write`. -/
def write (self : VariableNode) (var : Variant) (a : Access σ) (s : VariableState σ) :
    Option (Bool × VariableState σ) := do
  let v ← s.memory.deref var.variant
  let nodeId ← fromNodeId self.id
  let (_, s) ← writeValue s nodeId v a
  -- the semicolon is all that depends on the status
  return (true, s)

/-! ### What the booleans should say -/

/-- The read is good, and so is the data source's answer if there is one. -/
def ReadAccepted (s : VariableState σ) (nodeId : Ua.NodeId) (v : Cell) (a : Access σ) : Prop :=
  (∃ t, readValue s nodeId v a = some (.good, t)) ∧
    (s.source = .dataSource true → (a.ds.read s.code (fromUaNodeId nodeId)).2.2 = .good)

/-- The write is good, and so is the data source's answer if there is one. -/
def WriteAccepted (s : VariableState σ) (nodeId : Ua.NodeId) (v : Cell) (a : Access σ) : Prop :=
  (∃ t, writeValue s nodeId v a = some (.good, t)) ∧
    (s.source = .dataSource true → (a.ds.write s.code (fromUaNodeId nodeId) (s.memory.content v)).2 = .good)

inductive Op (σ : Type) where
  | connectCallback (present : Bool)
  | read (var : Variant) (a : Access σ)
  | write (var : Variant) (a : Access σ)

def step (self : VariableNode) (s : VariableState σ) : Op σ → Option (VariableState σ)
  | .connectCallback present => self.connectCallback present s
  | .read var a => (self.read var a s).map (·.2)
  | .write var a => (self.write var a s).map (·.2)

/-- The boolean returned is true exactly if the access was accepted. -/
def Propagates (self : VariableNode) (s : VariableState σ) : Op σ → Prop
  | .connectCallback _ => True
  | .read var a => ∀ nodeId v returned t, fromNodeId self.id = some nodeId → var.variant = some v →
      self.read var a s = some (returned, t) →
        (returned = true ↔ ReadAccepted {s with memory := s.memory.store v .init} nodeId v a)
  | .write var a => ∀ nodeId v returned t, fromNodeId self.id = some nodeId → var.variant = some v →
      self.write var a s = some (returned, t) → (returned = true ↔ WriteAccepted s nodeId v a)

/-- What an access must meet: a data source that is asked for the value has it, and a write
is refused by nobody. -/
def Respects (self : VariableNode) (s : VariableState σ) : Op σ → Prop
  | .connectCallback _ => True
  | .read _ a => ∀ nodeId, fromNodeId self.id = some nodeId →
      a.own = .good → s.source = .dataSource true → (a.ds.read s.code (fromUaNodeId nodeId)).2.2 = .good
  | .write var a => ∀ nodeId v, fromNodeId self.id = some nodeId → var.variant = some v →
      a.own = .good ∧
        match s.source with
        | .data _ => True
        | .dataSource connected =>
          connected = true ∧ (a.ds.write s.code (fromUaNodeId nodeId) (s.memory.content v)).2 = .good

/-! ### The two callbacks -/

/-- A read callback that returns has asked the data source, and says good if there is one. -/
theorem internalRead_status {nodeContext : Option (DataSource σ)} {code code' : σ} {nodeId : Ua.NodeId}
    {value : Nat} {m m' : Memory} {status : Ua.StatusCode}
    (h : internalRead nodeContext code nodeId value m = some (status, code', m')) :
    status = if nodeContext.isSome then .good else .badNoData := by
  cases nodeContext with
  | none =>
    cases h
    rfl
  | some ds =>
    obtain ⟨f, _, h⟩ := Option.bind_eq_some_iff.mp h
    obtain ⟨m₁, _, h⟩ := Option.bind_eq_some_iff.mp h
    cases h
    rfl

/-- A write callback returns: the Variant it wraps the value in borrows it. -/
theorem internalWrite_eq (nodeContext : Option (DataSource σ)) (code : σ) (nodeId : Ua.NodeId) (value : Nat)
    (m : Memory) :
    internalWrite nodeContext code nodeId value m =
      some (if nodeContext.isSome then .good else .badNoData,
        nodeContext.elim code fun ds => (ds.write code (fromUaNodeId nodeId) (m.content (.foreign value))).1, m) := by
  cases nodeContext <;> rfl

theorem badNoData_ne_good : Ua.StatusCode.badNoData ≠ .good := by decide

/-! ### One access -/

/-- A read is good exactly if open62541 does not refuse it and the context is not null. -/
theorem readValue_good_iff {s t : VariableState σ} {nodeId : Ua.NodeId} {v : Cell} {a : Access σ}
    {status : Ua.StatusCode} (h : readValue s nodeId v a = some (status, t)) :
    status = .good ↔ a.own = .good ∧ s.source ≠ .dataSource false := by
  unfold readValue at h
  split at h
  · next hown =>
    cases h
    exact ⟨fun h => absurd h hown, fun h => h.1⟩
  · next hown =>
    rw [not_not] at hown
    split at h
    · next hsource =>
      cases h
      simp [hown, hsource]
    · next connected hsource =>
      obtain ⟨⟨status', code, m⟩, hcall, h⟩ := Option.bind_eq_some_iff.mp h
      have hstatus := internalRead_status hcall
      have hsame : status = status' := by
        dsimp only at h
        split at h <;> (cases h; rfl)
      rw [hsame, hstatus, hsource]
      cases connected
      · simp [Access.nodeContext, badNoData_ne_good]
      · simp [Access.nodeContext, hown]

/-- A write is good exactly if open62541 does not refuse it and the context is not null. -/
theorem writeValue_good_iff (s : VariableState σ) (nodeId : Ua.NodeId) (v : Cell) (a : Access σ) :
    (∃ t, writeValue s nodeId v a = some (.good, t)) ↔ a.own = .good ∧ s.source ≠ .dataSource false := by
  unfold writeValue
  by_cases hown : a.own = .good
  · cases hsource : s.source with
    | data _ => simp [hown]
    | dataSource connected =>
      simp only [internalWrite_eq, Option.bind_eq_bind, Option.bind_some]
      cases connected <;> simp [Access.nodeContext, hown, badNoData_ne_good]
  · simp [hown]

/-- What a read returns says whether open62541's status is good. -/
theorem read_cases {self : VariableNode} {s t : VariableState σ} {var : Variant} {a : Access σ} {returned : Bool}
    (h : self.read var a s = some (returned, t)) :
    ∃ v nodeId status u, var.variant = some v ∧ fromNodeId self.id = some nodeId ∧
      readValue {s with memory := s.memory.store v .init} nodeId v a = some (status, u) ∧
      (returned = true ↔ status = .good) := by
  obtain ⟨v, hv, h⟩ := Option.bind_eq_some_iff.mp h
  obtain ⟨nodeId, hid, h⟩ := Option.bind_eq_some_iff.mp h
  obtain ⟨⟨status, u⟩, hvalue, h⟩ := Option.bind_eq_some_iff.mp h
  refine ⟨v, nodeId, status, u, (Memory.deref_eq_some.mp hv).1, hid, hvalue, ?_⟩
  dsimp only at h
  split at h <;> (cases h; simp [*])

/-- A write that returns at all returns true. -/
theorem write_cases {self : VariableNode} {s t : VariableState σ} {var : Variant} {a : Access σ} {returned : Bool}
    (h : self.write var a s = some (returned, t)) :
    ∃ v nodeId, var.variant = some v ∧ fromNodeId self.id = some nodeId ∧ returned = true := by
  obtain ⟨v, hv, h⟩ := Option.bind_eq_some_iff.mp h
  obtain ⟨nodeId, hid, h⟩ := Option.bind_eq_some_iff.mp h
  obtain ⟨_, _, h⟩ := Option.bind_eq_some_iff.mp h
  cases h
  exact ⟨v, nodeId, (Memory.deref_eq_some.mp hv).1, hid, rfl⟩

theorem read_propagates_iff {self : VariableNode} {s t : VariableState σ} {var : Variant} {a : Access σ}
    (h : step self s (.read var a) = some t) :
    Propagates self s (.read var a) ↔ Respects self s (.read var a) := by
  obtain ⟨⟨returned, t'⟩, hread, _⟩ := Option.map_eq_some_iff.mp h
  obtain ⟨v, nodeId, status, u, hpointer, hid, hvalue, hreturned⟩ := read_cases hread
  have hp : Propagates self s (.read var a) ↔
      (returned = true ↔ ReadAccepted {s with memory := s.memory.store v .init} nodeId v a) := by
    refine ⟨fun hp => hp nodeId v returned t' hid hpointer hread, ?_⟩
    intro hiff nodeId' v' r u' hid' hv' hread'
    cases hid.symm.trans hid'
    cases hpointer.symm.trans hv'
    cases hread.symm.trans hread'
    exact hiff
  have hr : Respects self s (.read var a) ↔
      (a.own = .good → s.source = .dataSource true → (a.ds.read s.code (fromUaNodeId nodeId)).2.2 = .good) := by
    simp [Respects, hid]
  have haccepted : ReadAccepted {s with memory := s.memory.store v .init} nodeId v a ↔
      status = .good ∧ (s.source = .dataSource true → (a.ds.read s.code (fromUaNodeId nodeId)).2.2 = .good) := by
    refine and_congr_left fun _ => ⟨fun ⟨w, hw⟩ => ?_, fun hs => ⟨u, hs ▸ hvalue⟩⟩
    rw [hvalue] at hw
    cases hw
    rfl
  -- the status does not depend on what the data source answers
  rw [hp, hr, hreturned, haccepted, readValue_good_iff hvalue]
  constructor
  · intro hiff hown hsource
    refine (hiff.mp ⟨hown, ?_⟩).2 hsource
    rw [hsource]
    simp
  · exact fun hr => ⟨fun hs => ⟨hs, hr hs.1⟩, fun hs => hs.1⟩

theorem write_propagates_iff {self : VariableNode} {s t : VariableState σ} {var : Variant} {a : Access σ}
    (h : step self s (.write var a) = some t) :
    Propagates self s (.write var a) ↔ Respects self s (.write var a) := by
  obtain ⟨⟨returned, t'⟩, hwrite, _⟩ := Option.map_eq_some_iff.mp h
  obtain ⟨v, nodeId, hpointer, hid, rfl⟩ := write_cases hwrite
  have hp : Propagates self s (.write var a) ↔ WriteAccepted s nodeId v a := by
    refine ⟨fun hp => (hp nodeId v true t' hid hpointer hwrite).mp rfl, ?_⟩
    intro hw nodeId' v' r u' hid' hv' hwrite'
    cases hid.symm.trans hid'
    cases hpointer.symm.trans hv'
    cases hwrite.symm.trans hwrite'
    exact ⟨fun _ => hw, fun _ => rfl⟩
  have hr : Respects self s (.write var a) ↔ a.own = .good ∧
      match s.source with
      | .data _ => True
      | .dataSource connected =>
        connected = true ∧ (a.ds.write s.code (fromUaNodeId nodeId) (s.memory.content v)).2 = .good := by
    refine ⟨fun hr => hr nodeId v hid hpointer, fun hgood nodeId' v' hid' hv' => ?_⟩
    cases hid.symm.trans hid'
    cases hpointer.symm.trans hv'
    exact hgood
  rw [hp, hr, WriteAccepted, writeValue_good_iff, and_assoc]
  refine and_congr_right fun _ => ?_
  cases hsource : s.source with
  | data _ => simp
  | dataSource connected => cases connected <;> simp

theorem propagates_iff {self : VariableNode} {s t : VariableState σ} {op : Op σ} (h : step self s op = some t) :
    Propagates self s op ↔ Respects self s op := by
  cases op with
  | connectCallback present => exact Iff.rfl
  | read var a => exact read_propagates_iff h
  | write var a => exact write_propagates_iff h

/-- In a run of reads and writes every boolean says whether its access was accepted exactly if
no write is refused, by open62541, for want of a context or by the data source, and no data
source refuses a read. -/
theorem status_propagates_iff (self : VariableNode) (s : VariableState σ) (ops : List (Op σ)) :
    (∀ e ∈ Library.Run.edges (step self) s ops, Propagates self e.1 e.2) ↔
      ∀ e ∈ Library.Run.edges (step self) s ops, Respects self e.1 e.2 := by
  refine forall₂_congr fun e he => ?_
  obtain ⟨t, ht⟩ := Library.Run.performed he
  exact propagates_iff ht

/-- A write that the data source refuses is reported as done. -/
theorem refused_write_reported : ¬ ∀ (self : VariableNode) (s : VariableState Unit) (ops : List (Op Unit)),
    ∀ e ∈ Library.Run.edges (step self) s ops, Propagates self e.1 e.2 := by
  intro h
  let self : VariableNode := ⟨.ofInt 1 1⟩
  let var : Variant := ⟨some (.foreign 0), false⟩
  let s : VariableState Unit := ⟨.data .init, (), .blank⟩
  let t : VariableState Unit := ⟨.dataSource true, (), .blank⟩
  let a : Access Unit := ⟨.good, readsOne, 1⟩
  have hsecond : (t, Op.write var a) ∈
      Library.Run.edges (step self) s [.connectCallback true, .write var a] :=
    List.mem_cons_of_mem _ (List.mem_singleton_self _)
  obtain ⟨u, hu⟩ : ∃ u, self.write var a t = some (true, u) := ⟨_, rfl⟩
  have hp := h self s _ _ hsecond ⟨1, .numeric 1⟩ (.foreign 0) true u rfl rfl hu
  exact absurd ((hp.mp rfl).2 rfl) badNoData_ne_good

end VariableNode

end ModernOpc
