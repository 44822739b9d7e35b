import ModernOpc.Server.Nodes
import Mathlib.Data.Option.Basic

/-! The objects behind the server's callbacks.

A `MethodNode` owns its callable and a `VariableNode` its data source, while the address
space keeps raw pointers to them as node contexts. Binding and connecting take several
steps, and open62541 may dispatch between any two of them.

`connectCallback` releases the old data source last, once the node has the new one.
`bindCallable` releases the old callable first. `contexts_live_iff`: a dispatch always
finds an object that is still owned exactly if no callable is replaced while a node
has it. Until its last step `connectCallback` itself owns the new data source, and the
second half of the theorem says what follows if it does not count as an owner.

`addMethod` is `createMethod` followed by `bindCallable` on the wrapper returned. Nodes
the server did not create have no context. -/
namespace ModernOpc.Server.Contexts
open Library

/-- What is left to do of the call in progress, on a wrapper and with a data source or none. -/
inductive Pending where
  | idle
  /-- `bindCallable`, the callable assigned. -/
  | setCallback (w : Nat)
  /-- The callback set as well. -/
  | setContext (w : Nat)
  /-- `connectCallback` with its argument, which may be null. -/
  | setSource (w : Nat) (ds : Option Nat)
  | setSourceContext (w : Nat) (ds : Option Nat)
  /-- All but `ds.reset(dataSource.release())`. -/
  | resetSource (w : Nat) (ds : Option Nat)
  deriving DecidableEq, Repr

/-- The server, what open62541 keeps of each node, and what the wrappers own. Callables
and data sources are numbered as they are passed; a null pointer leaves a number out. -/
structure State where
  server : Server.State
  /-- `method` for `internalMethodCallback`, `variable` for `internalRead` and `internalWrite`. -/
  callback : Ua.NodeId → Option Kind
  context : Ua.NodeId → Option Nat
  callable : Nat → Option Nat
  ds : Nat → Option Nat
  made : Nat
  pending : Pending

def start (space : AddressSpace) : State :=
  ⟨Server.start space, fun _ => none, fun _ => none, fun _ => none, fun _ => none, 0, .idle⟩

namespace State

/-- The node a wrapper's id names. -/
def target (s : State) (w : Nat) : Option Ua.NodeId := do
  let (_, id) ← s.server.wrapper w
  fromNodeId id

/-- `UA_Server_setMethodNode_callback` and `UA_Server_setVariableNode_dataSource`, which
fail on a node that is not there or of another class. -/
def setCallback (s : State) (w : Nat) (k : Kind) : State :=
  match s.target w with
  | none => s
  | some u =>
    if s.server.space.node u = some k.nodeClass then
      {s with callback := Function.update s.callback u (some k)}
    else s

/-- `UA_Server_setNodeContext`, which fails on a node that is not there. -/
def setContext (s : State) (w : Nat) (object : Option Nat) : State :=
  match s.target w with
  | none => s
  | some u =>
    if (s.server.space.node u).isSome then {s with context := Function.update s.context u object} else s

/-- `UA_Server_addMethodNode` gets the callback, and no context. -/
def created (s : State) (server : Server.State) : Server.Op → State
  | .create .method id (some assigned) =>
    {s with
      server := server
      callback := if (fromNodeId id).isSome then Function.update s.callback assigned (some .method) else s.callback}
  | _ => {s with server := server}

end State

inductive Op where
  /-- A call that creates or looks up a node. -/
  | node (op : Server.Op)
  /-- `MethodNode::bindCallable` begins: `callable = std::make_unique<…>(fn)`. -/
  | bindCallable (w : Nat)
  /-- `VariableNode::connectCallback` begins, with a data source of its own or a null pointer. -/
  | connectCallback (w : Nat) (present : Bool)
  /-- The call in progress makes its next step. -/
  | advance

def step (s : State) : Op → Option State
  | .node op => do
    guard (s.pending = .idle)
    let server ← Server.step s.server op
    return s.created server op
  | .bindCallable w => do
    guard (s.pending = .idle)
    let (k, _) ← s.server.wrapper w
    guard (k = .method)
    return {s with
      callable := Function.update s.callable w (some s.made)
      made := s.made + 1
      pending := .setCallback w}
  | .connectCallback w present => do
    guard (s.pending = .idle)
    let (k, _) ← s.server.wrapper w
    guard (k = .variable)
    return {s with made := s.made + 1, pending := .setSource w (if present then some s.made else none)}
  | .advance =>
    match s.pending with
    | .idle => none
    | .setCallback w => some {s.setCallback w .method with pending := .setContext w}
    | .setContext w => some {s.setContext w (s.callable w) with pending := .idle}
    | .setSource w ds => some {s.setCallback w .variable with pending := .setSourceContext w ds}
    | .setSourceContext w ds => some {s.setContext w ds with pending := .resetSource w ds}
    | .resetSource w ds => some {s with ds := Function.update s.ds w ds, pending := .idle}

/-! ### What a dispatch finds -/

/-- The context of every node with one of the server's callbacks is owned, by a wrapper in
the server's maps or by the argument of a `connectCallback` on one. -/
structure State.Live (s : State) : Prop where
  method : ∀ u o, s.callback u = some .method → s.context u = some o →
    ∃ id w, s.server.cache .method id = some w ∧ s.callable w = some o
  source : ∀ u o, s.callback u = some .variable → s.context u = some o →
    ∃ id w, s.server.cache .variable id = some w ∧ (s.ds w = some o ∨ s.pending = .resetSource w (some o))

/-- The wrapper is of a class, and its id names a node. -/
def State.Names (s : State) (w : Nat) (k : Kind) (u : Ua.NodeId) : Prop :=
  ∃ id, s.server.wrapper w = some (k, id) ∧ fromNodeId id = some u

/-- Which wrapper owns a node's context. -/
structure State.Owned (s : State) (u : Ua.NodeId) (o w : Nat) (k : Kind) : Prop where
  names : s.Names w k u
  node : s.server.space.node u = some k.nodeClass
  owns : match k with
    | .method => s.callable w = some o ∧ s.callback u = some .method
    | .variable => s.ds w = some o ∨ s.pending = .resetSource w (some o)
    | .object => False

/-- What the call in progress relies on. -/
def State.InProgress (s : State) : Pending → Prop
  | .idle => True
  | .setCallback w => ∃ id, s.server.wrapper w = some (.method, id)
  | .setContext w => ∃ id, s.server.wrapper w = some (.method, id) ∧
      ∀ u, fromNodeId id = some u → s.server.space.node u ≠ none → s.callback u = some .method
  | .setSource w _ => ∃ id, s.server.wrapper w = some (.variable, id)
  | .setSourceContext w _ => ∃ id, s.server.wrapper w = some (.variable, id)
  | .resetSource w ds => ∃ id, s.server.wrapper w = some (.variable, id) ∧
      ∀ u, fromNodeId id = some u → s.server.space.node u ≠ none → s.context u = ds

structure State.Inv (s : State) : Prop where
  wrapped : s.server.Wrapped
  /-- A callback is set on nodes of its class only. -/
  callbacks : ∀ u k, s.callback u = some k → s.server.space.node u = some k.nodeClass
  contexts : ∀ u o, s.context u = some o → ∃ w k, s.Owned u o w k
  /-- No callable has two owners. -/
  unique : ∀ w w' o, s.callable w = some o → s.callable w' = some o → w = w'
  bound : ∀ w o, s.callable w = some o → o < s.made
  inProgress : s.InProgress s.pending

theorem inv_start (space : AddressSpace) : (start space).Inv where
  wrapped := wrapped_start space
  callbacks := by intro u k h; cases h
  contexts := by intro u o h; cases h
  unique := by intro w w' o h; cases h
  bound := by intro w o h; cases h
  inProgress := trivial

/-- A wrapper that names a node that is there is of its class and the one in the map. -/
theorem State.Names.stored {s : State} (hs : s.server.Wrapped) {w : Nat} {k : Kind} {u : Ua.NodeId}
    (h : s.Names w k u) (hu : s.server.space.node u ≠ none) :
    s.server.space.node u = some k.nodeClass ∧ ∃ id, s.server.cache k id = some w := by
  obtain ⟨id, hw, hid⟩ := h
  obtain ⟨v, hv, hn⟩ := hs.named k id w hw
  rw [hid, Option.some.injEq] at hv
  subst hv
  obtain ⟨hc, hnode⟩ := hn fun hasks => hu (s.server.space.assigned u hasks)
  exact ⟨hnode, id, hc⟩

theorem live_of_inv {s : State} (h : s.Inv) : s.Live := by
  have hstored : ∀ u o, s.context u = some o → ∃ w k id, s.Owned u o w k ∧ s.server.cache k id = some w := by
    intro u o ho
    obtain ⟨w, k, how⟩ := h.contexts u o ho
    have hu : s.server.space.node u ≠ none := by rw [how.node]; exact Option.some_ne_none _
    obtain ⟨_, id, hid⟩ := how.names.stored h.wrapped hu
    exact ⟨w, k, id, how, hid⟩
  have hkind : ∀ {u o w k l}, s.callback u = some l → s.Owned u o w k → k = l := by
    intro u o w k l hc how
    have := h.callbacks u l hc
    rw [how.node, Option.some.injEq] at this
    exact Kind.nodeClass_injective this
  constructor
  · intro u o hc ho
    obtain ⟨w, k, id, how, hid⟩ := hstored u o ho
    obtain rfl := hkind hc how
    exact ⟨id, w, hid, how.owns.1⟩
  · intro u o hc ho
    obtain ⟨w, k, id, how, hid⟩ := hstored u o ho
    obtain rfl := hkind hc how
    exact ⟨id, w, hid, how.owns⟩

/-! ### One step -/

/-- What an operation must respect: no callable is replaced while a dispatch finds it. -/
def Respects (s : State) : Op → Prop
  | .bindCallable w => ∀ o u, s.callable w = some o → s.callback u = some .method → s.context u ≠ some o
  | _ => True

/-- A call begins only when none is in progress. -/
theorem step_node {s t : State} {op : Server.Op} (h : step s (.node op) = some t) :
    s.pending = .idle ∧ ∃ server, Server.step s.server op = some server ∧ t = s.created server op := by
  obtain ⟨_, hp, h⟩ := Option.bind_eq_some_iff.mp h
  obtain ⟨server, hserver, h⟩ := Option.bind_eq_some_iff.mp h
  cases h
  exact ⟨(Option.guard_eq_some' _).mp hp, server, hserver, rfl⟩

theorem step_bindCallable {s t : State} {w : Nat} (h : step s (.bindCallable w) = some t) :
    s.pending = .idle ∧ ∃ id, s.server.wrapper w = some (.method, id) ∧
      t = {s with
        callable := Function.update s.callable w (some s.made), made := s.made + 1, pending := .setCallback w} := by
  obtain ⟨_, hp, h⟩ := Option.bind_eq_some_iff.mp h
  obtain ⟨⟨k, id⟩, hw, h⟩ := Option.bind_eq_some_iff.mp h
  obtain ⟨_, hk, h⟩ := Option.bind_eq_some_iff.mp h
  obtain rfl : k = .method := (Option.guard_eq_some' _).mp hk
  cases h
  exact ⟨(Option.guard_eq_some' _).mp hp, id, hw, rfl⟩

theorem step_connectCallback {s t : State} {w : Nat} {present : Bool}
    (h : step s (.connectCallback w present) = some t) :
    s.pending = .idle ∧ ∃ id, s.server.wrapper w = some (.variable, id) ∧
      t = {s with made := s.made + 1, pending := .setSource w (if present then some s.made else none)} := by
  obtain ⟨_, hp, h⟩ := Option.bind_eq_some_iff.mp h
  obtain ⟨⟨k, id⟩, hw, h⟩ := Option.bind_eq_some_iff.mp h
  obtain ⟨_, hk, h⟩ := Option.bind_eq_some_iff.mp h
  obtain rfl : k = .variable := (Option.guard_eq_some' _).mp hk
  cases h
  exact ⟨(Option.guard_eq_some' _).mp hp, id, hw, rfl⟩

/-- A call in progress makes its steps in order. -/
theorem step_advance {s t : State} (h : step s .advance = some t) :
    (∃ w, s.pending = .setCallback w ∧ t = {s.setCallback w .method with pending := .setContext w}) ∨
    (∃ w, s.pending = .setContext w ∧ t = {s.setContext w (s.callable w) with pending := .idle}) ∨
    (∃ w ds, s.pending = .setSource w ds ∧
      t = {s.setCallback w .variable with pending := .setSourceContext w ds}) ∨
    (∃ w ds, s.pending = .setSourceContext w ds ∧
      t = {s.setContext w ds with pending := .resetSource w ds}) ∨
    ∃ w ds, s.pending = .resetSource w ds ∧
      t = {s with ds := Function.update s.ds w ds, pending := .idle} := by
  cases hp : s.pending with
  | idle => simp [step, hp] at h
  | setCallback w =>
    simp only [step, hp, Option.some.injEq] at h
    exact .inl ⟨w, rfl, h.symm⟩
  | setContext w =>
    simp only [step, hp, Option.some.injEq] at h
    exact .inr (.inl ⟨w, rfl, h.symm⟩)
  | setSource w ds =>
    simp only [step, hp, Option.some.injEq] at h
    exact .inr (.inr (.inl ⟨w, ds, rfl, h.symm⟩))
  | setSourceContext w ds =>
    simp only [step, hp, Option.some.injEq] at h
    exact .inr (.inr (.inr (.inl ⟨w, ds, rfl, h.symm⟩)))
  | resetSource w ds =>
    simp only [step, hp, Option.some.injEq] at h
    exact .inr (.inr (.inr (.inr ⟨w, ds, rfl, h.symm⟩)))

@[simp] theorem setCallback_server (s : State) (w : Nat) (k : Kind) : (s.setCallback w k).server = s.server := by
  unfold State.setCallback
  split
  · rfl
  · split <;> rfl

@[simp] theorem setContext_server (s : State) (w : Nat) (object : Option Nat) :
    (s.setContext w object).server = s.server := by
  unfold State.setContext
  split
  · rfl
  · split <;> rfl

/-- The node a wrapper acts on is not there, or is one of the wrapper's kind. -/
theorem target_cases {s : State} (hs : s.server.Wrapped) {w : Nat} {k : Kind} {id : NodeId}
    (hw : s.server.wrapper w = some (k, id)) :
    ∃ u, s.Names w k u ∧ s.target w = some u ∧
      (s.server.space.node u = none ∨ s.server.space.node u = some k.nodeClass) := by
  obtain ⟨u, hu, _⟩ := hs.named k id w hw
  have hnames : s.Names w k u := ⟨id, hw, hu⟩
  refine ⟨u, hnames, by simp [State.target, hw, hu], ?_⟩
  by_cases hn : s.server.space.node u = none
  · exact .inl hn
  · exact .inr (hnames.stored hs hn).1

/-- What `setCallback` does to that node. -/
theorem setCallback_cases {s : State} (hs : s.server.Wrapped) {w : Nat} {k : Kind} {id : NodeId}
    (hw : s.server.wrapper w = some (k, id)) :
    ∃ u, s.Names w k u ∧
      ((s.server.space.node u = none ∧ s.setCallback w k = s) ∨
        (s.server.space.node u = some k.nodeClass ∧
          s.setCallback w k = {s with callback := Function.update s.callback u (some k)})) := by
  obtain ⟨u, hnames, htarget, hn | hn⟩ := target_cases hs hw
  · exact ⟨u, hnames, .inl ⟨hn, by simp [State.setCallback, htarget, hn]⟩⟩
  · exact ⟨u, hnames, .inr ⟨hn, by simp [State.setCallback, htarget, hn]⟩⟩

theorem setContext_cases {s : State} (hs : s.server.Wrapped) {w : Nat} {k : Kind} {id : NodeId}
    (hw : s.server.wrapper w = some (k, id)) (object : Option Nat) :
    ∃ u, s.Names w k u ∧
      ((s.server.space.node u = none ∧ s.setContext w object = s) ∨
        (s.server.space.node u = some k.nodeClass ∧
          s.setContext w object = {s with context := Function.update s.context u object})) := by
  obtain ⟨u, hnames, htarget, hn | hn⟩ := target_cases hs hw
  · exact ⟨u, hnames, .inl ⟨hn, by simp [State.setContext, htarget, hn]⟩⟩
  · exact ⟨u, hnames, .inr ⟨hn, by simp [State.setContext, htarget, hn]⟩⟩

/-- The node a wrapper's id names is one. -/
theorem State.Names.unique {s : State} {w : Nat} {k l : Kind} {u v : Ua.NodeId} (h : s.Names w k u)
    (h' : s.Names w l v) : u = v := by
  obtain ⟨id, hw, hu⟩ := h
  obtain ⟨id', hw', hv⟩ := h'
  rw [hw, Option.some.injEq, Prod.mk.injEq] at hw'
  obtain ⟨_, rfl⟩ := hw'
  exact Option.some.inj (hu.symm.trans hv)

/-- A node that is there gets what its wrapper sets. -/
theorem setCallback_sets {s : State} (hs : s.server.Wrapped) {w : Nat} {k : Kind} {id : NodeId} {u : Ua.NodeId}
    (hw : s.server.wrapper w = some (k, id)) (hu : fromNodeId id = some u)
    (hnode : s.server.space.node u ≠ none) : (s.setCallback w k).callback u = some k := by
  obtain ⟨v, hnames, ⟨hno, _⟩ | ⟨_, he⟩⟩ := setCallback_cases hs hw
  · obtain rfl := hnames.unique ⟨id, hw, hu⟩
    exact absurd hno hnode
  · obtain rfl := hnames.unique ⟨id, hw, hu⟩
    rw [he]
    exact Function.update_self ..

theorem setContext_sets {s : State} (hs : s.server.Wrapped) {w : Nat} {k : Kind} {id : NodeId} {u : Ua.NodeId}
    (hw : s.server.wrapper w = some (k, id)) (hu : fromNodeId id = some u)
    (hnode : s.server.space.node u ≠ none) (object : Option Nat) :
    (s.setContext w object).context u = object := by
  obtain ⟨v, hnames, ⟨hno, _⟩ | ⟨_, he⟩⟩ := setContext_cases hs hw object
  · obtain rfl := hnames.unique ⟨id, hw, hu⟩
    exact absurd hno hnode
  · obtain rfl := hnames.unique ⟨id, hw, hu⟩
    rw [he]
    exact Function.update_self ..

/-- An owner stays the owner where names, nodes and what it owns stay. -/
theorem State.Owned.kept {s t : State} {u : Ua.NodeId} {o w : Nat} {k : Kind} (h : s.Owned u o w k)
    (hg : s.server.Grows t.server)
    (hmethod : s.callable w = some o → s.callback u = some .method →
      t.callable w = some o ∧ t.callback u = some .method)
    (hsource : k = .variable → s.ds w = some o ∨ s.pending = .resetSource w (some o) →
      t.ds w = some o ∨ t.pending = .resetSource w (some o)) : t.Owned u o w k where
  names := by
    obtain ⟨id, hw, hu⟩ := h.names
    exact ⟨id, hg.wrapper w _ hw, hu⟩
  node := hg.node u _ h.node
  owns := by
    match k, h with
    | .object, h => exact h.owns
    | .method, h => exact hmethod h.owns.1 h.owns.2
    | .variable, h => exact hsource rfl h.owns

theorem grows_refl (s : Server.State) : s.Grows s := ⟨fun _ _ h => h, fun _ _ h => h⟩

/-- A node operation sets the callback of a method it creates, and nothing else. -/
theorem created_cases {s : State} {server : Server.State} {op : Server.Op}
    (hstep : Server.step s.server op = some server) :
    s.created server op = {s with server := server} ∨
    ∃ a, server.space.node a = some .method ∧
      s.created server op = {s with server := server, callback := Function.update s.callback a (some .method)} := by
  unfold State.created
  split
  · next id assigned =>
    obtain ⟨⟨t, ptr⟩, hc, rfl⟩ := Option.map_eq_some_iff.mp ((step_create _ _ _ _).symm.trans hstep)
    rcases create_cases hc with ⟨rfl, rfl, hid | hno⟩ | ⟨requested, a, hr, ha, hadd, rfl, rfl⟩
    · exact .inl (by simp [hid])
    · cases hno
    · cases ha
      exact .inr ⟨assigned, AddressSpace.add_self s.server.space .method hadd.1, by simp [hr]⟩
  · exact .inl rfl

/-- Creating and looking up nodes. -/
theorem inv_node {s : State} {server : Server.State} {op : Server.Op} (h : s.Inv) (hp : s.pending = .idle)
    (hstep : Server.step s.server op = some server) : (s.created server op).Inv := by
  have hg := step_grows h.wrapped hstep
  have hw := step_wrapped h.wrapped hstep
  rcases created_cases hstep with he | ⟨a, ha, he⟩ <;> rw [he]
  · refine ⟨hw, fun u k hc => hg.node u _ (h.callbacks u k hc), ?_, h.unique, h.bound, ?_⟩
    · intro u o ho
      obtain ⟨w, k, how⟩ := h.contexts u o ho
      exact ⟨w, k, how.kept hg (fun hc hcb => ⟨hc, hcb⟩) fun _ hs => hs⟩
    · show State.InProgress _ s.pending
      rw [hp]
      trivial
  · refine ⟨hw, ?_, ?_, h.unique, h.bound, ?_⟩
    · intro u k hc
      by_cases hu : u = a
      · subst hu
        have hc : Function.update s.callback u (some .method) u = some k := hc
        rw [Function.update_self, Option.some.injEq] at hc
        exact hc ▸ ha
      · have hc : Function.update s.callback a (some .method) u = some k := hc
        rw [Function.update_of_ne hu] at hc
        exact hg.node u _ (h.callbacks u k hc)
    · intro u o ho
      obtain ⟨w, k, how⟩ := h.contexts u o ho
      refine ⟨w, k, how.kept hg (fun hc hcb => ⟨hc, ?_⟩) fun _ hs => hs⟩
      show Function.update s.callback a (some .method) u = some .method
      by_cases hu : u = a
      · rw [hu, Function.update_self]
      · rw [Function.update_of_ne hu, hcb]
    · show State.InProgress _ s.pending
      rw [hp]
      trivial

/-- Assigning a callable that no dispatch finds. -/
theorem inv_bind {s : State} {w : Nat} {id : NodeId} (h : s.Inv) (hp : s.pending = .idle)
    (hw : s.server.wrapper w = some (.method, id))
    (hg : ∀ o u, s.callable w = some o → s.callback u = some .method → s.context u ≠ some o) :
    State.Inv {s with
      callable := Function.update s.callable w (some s.made), made := s.made + 1, pending := .setCallback w} where
  wrapped := h.wrapped
  callbacks := h.callbacks
  contexts := by
    intro u o ho
    obtain ⟨w', k, how⟩ := h.contexts u o ho
    refine ⟨w', k, how.kept (grows_refl _) (fun hc hcb => ⟨?_, hcb⟩) fun _ hs => ?_⟩
    · have hne : w' ≠ w := by
        intro he
        subst he
        exact hg o u hc hcb ho
      exact (Function.update_of_ne hne ..).trans hc
    · rcases hs with hs | hs
      · exact .inl hs
      · rw [hp] at hs
        cases hs
  unique := by
    intro p q o hpo hqo
    have hpo : Function.update s.callable w (some s.made) p = some o := hpo
    have hqo : Function.update s.callable w (some s.made) q = some o := hqo
    by_cases hpw : p = w <;> by_cases hqw : q = w
    · rw [hpw, hqw]
    · subst hpw
      rw [Function.update_self, Option.some.injEq] at hpo
      rw [Function.update_of_ne hqw, ← hpo] at hqo
      exact absurd (h.bound q _ hqo) (Nat.lt_irrefl _)
    · subst hqw
      rw [Function.update_self, Option.some.injEq] at hqo
      rw [Function.update_of_ne hpw, ← hqo] at hpo
      exact absurd (h.bound p _ hpo) (Nat.lt_irrefl _)
    · rw [Function.update_of_ne hpw] at hpo
      rw [Function.update_of_ne hqw] at hqo
      exact h.unique p q o hpo hqo
  bound := by
    intro p o hpo
    have hpo : Function.update s.callable w (some s.made) p = some o := hpo
    show o < s.made + 1
    by_cases hpw : p = w
    · subst hpw
      rw [Function.update_self, Option.some.injEq] at hpo
      omega
    · rw [Function.update_of_ne hpw] at hpo
      exact Nat.lt_succ_of_lt (h.bound p o hpo)
  inProgress := ⟨id, hw⟩

/-- Entering `connectCallback`. -/
theorem inv_connect {s : State} {w : Nat} {id : NodeId} (h : s.Inv) (hp : s.pending = .idle)
    (hw : s.server.wrapper w = some (.variable, id)) (ds : Option Nat) :
    State.Inv {s with made := s.made + 1, pending := .setSource w ds} where
  wrapped := h.wrapped
  callbacks := h.callbacks
  contexts := by
    intro u o ho
    obtain ⟨w', k, how⟩ := h.contexts u o ho
    refine ⟨w', k, how.kept (grows_refl _) (fun hc hcb => ⟨hc, hcb⟩) fun _ hs => ?_⟩
    rcases hs with hs | hs
    · exact .inl hs
    · rw [hp] at hs
      cases hs
  unique := h.unique
  bound := fun p o hpo => Nat.lt_succ_of_lt (h.bound p o hpo)
  inProgress := ⟨id, hw⟩

/-- A data source whose context is set is not waiting for its wrapper. -/
theorem source_kept {s : State} {p : Pending} (hp : ∀ v ds, s.pending ≠ .resetSource v ds) {v o : Nat}
    (h : s.ds v = some o ∨ s.pending = .resetSource v (some o)) : s.ds v = some o ∨ p = .resetSource v (some o) :=
  h.elim .inl fun he => absurd he (hp v _)

/-- A call that does nothing to its node takes its next step. -/
theorem inv_pending {s : State} {p : Pending} (h : s.Inv) (hp : ∀ v ds, s.pending ≠ .resetSource v ds)
    (hprog : State.InProgress {s with pending := p} p) : State.Inv {s with pending := p} where
  wrapped := h.wrapped
  callbacks := h.callbacks
  contexts := by
    intro v o ho
    obtain ⟨w', l, how⟩ := h.contexts v o ho
    exact ⟨w', l, how.kept (grows_refl _) (fun hc hcb => ⟨hc, hcb⟩) fun _ => source_kept hp⟩
  unique := h.unique
  bound := h.bound
  inProgress := hprog

/-- An owner is not affected by the callbacks of its node's class, nor by another step of a
call that has not set its context yet. -/
theorem inv_setCallback {s : State} {w : Nat} {k : Kind} {id : NodeId} {p : Pending} (h : s.Inv)
    (hp : ∀ v ds, s.pending ≠ .resetSource v ds) (hw : s.server.wrapper w = some (k, id))
    (hprog : State.InProgress {s.setCallback w k with pending := p} p) :
    State.Inv {s.setCallback w k with pending := p} := by
  obtain ⟨u, hnames, ⟨_, he⟩ | ⟨hnode, he⟩⟩ := setCallback_cases h.wrapped hw <;> rw [he] at hprog ⊢
  · exact inv_pending h hp hprog
  · refine ⟨h.wrapped, fun v l hl => ?_, fun v o ho => ?_, h.unique, h.bound, hprog⟩
    · have hl : Function.update s.callback u (some k) v = some l := hl
      by_cases hv : v = u
      · subst hv
        rw [Function.update_self, Option.some.injEq] at hl
        exact hl ▸ hnode
      · rw [Function.update_of_ne hv] at hl
        exact h.callbacks v l hl
    · obtain ⟨w', l, how⟩ := h.contexts v o ho
      refine ⟨w', l, how.kept (grows_refl _) (fun hc hcb => ⟨hc, ?_⟩) fun _ => source_kept hp⟩
      show Function.update s.callback u (some k) v = some .method
      by_cases hv : v = u
      · subst hv
        have := h.callbacks v .method hcb
        rw [hnode, Option.some.injEq] at this
        rw [Function.update_self, Kind.nodeClass_injective this]
      · rw [Function.update_of_ne hv, hcb]

/-- The new context must have its owner; the other contexts keep theirs. -/
theorem inv_setContext {s : State} {w : Nat} {k : Kind} {id : NodeId} {object : Option Nat} {p : Pending}
    (h : s.Inv) (hp : ∀ v ds, s.pending ≠ .resetSource v ds) (hw : s.server.wrapper w = some (k, id))
    (hnew : ∀ u o, object = some o → s.Names w k u → s.server.space.node u = some k.nodeClass →
      State.Owned {s with context := Function.update s.context u object, pending := p} u o w k)
    (hprog : State.InProgress {s.setContext w object with pending := p} p) :
    State.Inv {s.setContext w object with pending := p} := by
  obtain ⟨u, hnames, ⟨_, he⟩ | ⟨hnode, he⟩⟩ := setContext_cases h.wrapped hw object <;> rw [he] at hprog ⊢
  · exact inv_pending h hp hprog
  · refine ⟨h.wrapped, h.callbacks, fun v o ho => ?_, h.unique, h.bound, hprog⟩
    have ho : Function.update s.context u object v = some o := ho
    by_cases hv : v = u
    · subst hv
      rw [Function.update_self] at ho
      exact ⟨w, k, hnew v o ho hnames hnode⟩
    · rw [Function.update_of_ne hv] at ho
      obtain ⟨w', l, how⟩ := h.contexts v o ho
      exact ⟨w', l, how.kept (grows_refl _) (fun hc hcb => ⟨hc, hcb⟩) fun _ => source_kept hp⟩

/-- The last step of `connectCallback`: by now no node has the old data source. -/
theorem inv_reset {s : State} {w : Nat} {ds : Option Nat} (h : s.Inv) (hp : s.pending = .resetSource w ds) :
    State.Inv {s with ds := Function.update s.ds w ds, pending := .idle} where
  wrapped := h.wrapped
  callbacks := h.callbacks
  contexts := by
    intro u o ho
    obtain ⟨w', k, how⟩ := h.contexts u o ho
    refine ⟨w', k, how.kept (grows_refl _) (fun hc hcb => ⟨hc, hcb⟩) fun hk hs => .inl ?_⟩
    show Function.update s.ds w ds w' = some o
    by_cases hww : w' = w
    · subst hww
      -- the node has the new data source already
      have hprog := h.inProgress
      rw [hp] at hprog
      obtain ⟨id, hw, hctx⟩ := hprog
      obtain ⟨id', hw', hid'⟩ := how.names
      rw [hw, Option.some.injEq, Prod.mk.injEq] at hw'
      have hu := hctx u (hw'.2 ▸ hid') (by rw [how.node]; exact Option.some_ne_none _)
      rw [Function.update_self, ← hu, ho]
    · rw [Function.update_of_ne hww]
      rcases hs with hs | hs
      · exact hs
      · rw [hp, Pending.resetSource.injEq] at hs
        exact absurd hs.1.symm hww
  unique := h.unique
  bound := h.bound
  inProgress := trivial

/-- The call in progress makes a step. -/
theorem inv_advance {s t : State} (h : s.Inv) (hstep : step s .advance = some t) : t.Inv := by
  have hprog := h.inProgress
  rcases step_advance hstep with
    ⟨w, hp, rfl⟩ | ⟨w, hp, rfl⟩ | ⟨w, ds, hp, rfl⟩ | ⟨w, ds, hp, rfl⟩ | ⟨w, ds, hp, rfl⟩
  · rw [hp] at hprog
    obtain ⟨id, hw⟩ := hprog
    refine inv_setCallback h (by simp [hp]) hw ⟨id, by simpa using hw, fun v hv hnode => ?_⟩
    exact setCallback_sets h.wrapped hw hv (by simpa using hnode)
  · rw [hp] at hprog
    obtain ⟨id, hw, hcb⟩ := hprog
    refine inv_setContext h (by simp [hp]) hw (fun u o ho hnames hnode => ?_) trivial
    refine ⟨hnames, hnode, ho, ?_⟩
    obtain ⟨id', hw', hid'⟩ := hnames
    rw [hw, Option.some.injEq, Prod.mk.injEq] at hw'
    exact hcb u (hw'.2 ▸ hid') (by rw [hnode]; exact Option.some_ne_none _)
  · rw [hp] at hprog
    obtain ⟨id, hw⟩ := hprog
    exact inv_setCallback h (by simp [hp]) hw ⟨id, by simpa using hw⟩
  · rw [hp] at hprog
    obtain ⟨id, hw⟩ := hprog
    refine inv_setContext h (by simp [hp]) hw (fun u o ho hnames hnode => ?_)
      ⟨id, by simpa using hw, fun v hv hnode => ?_⟩
    · exact ⟨hnames, hnode, .inr (congrArg _ ho)⟩
    · exact setContext_sets h.wrapped hw hv (by simpa using hnode) ds
  · exact inv_reset h hp

/-- An operation that replaces no callable in use keeps every context owned. -/
theorem step_inv {s t : State} {op : Op} (h : s.Inv) (hg : Respects s op) (hstep : step s op = some t) :
    t.Inv := by
  cases op with
  | node op =>
    obtain ⟨hp, server, hserver, rfl⟩ := step_node hstep
    exact inv_node h hp hserver
  | bindCallable w =>
    obtain ⟨hp, id, hw, rfl⟩ := step_bindCallable hstep
    exact inv_bind h hp hw hg
  | connectCallback w present =>
    obtain ⟨hp, id, hw, rfl⟩ := step_connectCallback hstep
    exact inv_connect h hp hw _
  | advance => exact inv_advance h hstep

/-- Replacing a callable in use leaves its node with a pointer to what was released. -/
theorem step_dangles {s t : State} {op : Op} (h : s.Inv) (hg : ¬ Respects s op)
    (hstep : step s op = some t) : ¬ t.Live := by
  intro hl
  cases op with
  | bindCallable w =>
    obtain ⟨_, _, _, rfl⟩ := step_bindCallable hstep
    refine hg fun o u hw hcb ho => ?_
    obtain ⟨id, w', _, hw'⟩ := hl.method u o hcb ho
    have hw' : Function.update s.callable w (some s.made) w' = some o := hw'
    by_cases hww : w' = w
    · rw [hww, Function.update_self, Option.some.injEq] at hw'
      exact Nat.lt_irrefl _ (hw' ▸ h.bound w o hw)
    · rw [Function.update_of_ne hww] at hw'
      exact hww (h.unique w' w o hw' hw)
  | node op => exact hg trivial
  | connectCallback w present => exact hg trivial
  | advance => exact hg trivial

/-! ### Wrappers as the only owners -/

/-- The context of every node with one of the server's callbacks is owned by a wrapper in the
server's maps. -/
structure State.Held (s : State) : Prop where
  method : ∀ u o, s.callback u = some .method → s.context u = some o →
    ∃ id w, s.server.cache .method id = some w ∧ s.callable w = some o
  source : ∀ u o, s.callback u = some .variable → s.context u = some o →
    ∃ id w, s.server.cache .variable id = some w ∧ s.ds w = some o

/-- What an operation must respect besides: no data source becomes a context before its wrapper
has it. -/
def RespectsHeld (s : State) : Op → Prop
  | .advance => ∀ w ds, s.pending = .setSourceContext w (some ds) →
      ∀ u, s.target w = some u → s.server.space.node u = none
  | op => Respects s op

/-- The data source that the call in progress came with. -/
def Pending.source : Pending → Option Nat
  | .setSource _ ds | .setSourceContext _ ds | .resetSource _ ds => ds
  | _ => none

structure State.HeldInv (s : State) : Prop where
  inv : s.Inv
  held : s.Held
  made : ∀ o, s.pending.source = some o → o < s.made
  /-- No wrapper has the data source of the call in progress. -/
  fresh : ∀ w o, s.ds w = some o → o < s.made ∧ s.pending.source ≠ some o
  callbackSet : ∀ w ds, s.pending = .setSourceContext w ds →
    ∀ u, s.target w = some u → s.server.space.node u ≠ none → s.callback u = some .variable

theorem Respects.of_held {s : State} {op : Op} (h : RespectsHeld s op) : Respects s op := by
  cases op with
  | advance => trivial
  | _ => exact h

theorem State.Held.live {s : State} (h : s.Held) : s.Live where
  method := h.method
  source := by
    intro u o hc ho
    obtain ⟨id, w, hid, hw⟩ := h.source u o hc ho
    exact ⟨id, w, hid, .inl hw⟩

theorem State.Live.held {s : State} (h : s.Live) (hp : ∀ w ds, s.pending ≠ .resetSource w ds) : s.Held where
  method := h.method
  source := by
    intro u o hc ho
    obtain ⟨id, w, hid, hw | hw⟩ := h.source u o hc ho
    · exact ⟨id, w, hid, hw⟩
    · exact absurd hw (hp w _)

theorem heldInv_start (space : AddressSpace) : (start space).HeldInv where
  inv := inv_start space
  held := (live_of_inv (inv_start space)).held fun w o hp => by cases hp
  made := by intro o ho; cases ho
  fresh := by intro w o ho; cases ho
  callbackSet := by intro w ds hp; cases hp

theorem setCallback_eq (s : State) (w : Nat) (k : Kind) :
    ∃ callback, s.setCallback w k = {s with callback := callback} := by
  unfold State.setCallback
  split
  · exact ⟨_, rfl⟩
  · split <;> exact ⟨_, rfl⟩

theorem setContext_eq (s : State) (w : Nat) (object : Option Nat) :
    ∃ context, s.setContext w object = {s with context := context} := by
  unfold State.setContext
  split
  · exact ⟨_, rfl⟩
  · split <;> exact ⟨_, rfl⟩

/-- Only the later steps of `connectCallback` leave a call that still has to hand over its data
source. -/
theorem step_source {s t : State} {op : Op} (hstep : step s op = some t) :
    (∀ w ds, t.pending ≠ .setSourceContext w ds ∧ t.pending ≠ .resetSource w ds) ∨
    (∃ w ds, s.pending = .setSource w ds ∧
      t = {s.setCallback w .variable with pending := .setSourceContext w ds}) ∨
    (∃ w ds, op = .advance ∧ s.pending = .setSourceContext w ds ∧
      t = {s.setContext w ds with pending := .resetSource w ds}) := by
  cases op with
  | node op =>
    obtain ⟨hp, server, hserver, rfl⟩ := step_node hstep
    have hidle : (s.created server op).pending = .idle := by
      rw [← hp]
      rcases created_cases hserver with he | ⟨_, _, he⟩ <;> rw [he]
    exact .inl fun w ds => by simp [hidle]
  | bindCallable w =>
    obtain ⟨_, _, _, rfl⟩ := step_bindCallable hstep
    exact .inl fun w ds => by simp
  | connectCallback w present =>
    obtain ⟨_, _, _, rfl⟩ := step_connectCallback hstep
    exact .inl fun w ds => by simp
  | advance =>
    rcases step_advance hstep with
      ⟨w, _, rfl⟩ | ⟨w, _, rfl⟩ | ⟨w, ds, hp, rfl⟩ | ⟨w, ds, hp, rfl⟩ | ⟨w, ds, _, rfl⟩
    · exact .inl fun v ds => by simp
    · exact .inl fun v ds => by simp
    · exact .inr (.inl ⟨w, ds, hp, rfl⟩)
    · exact .inr (.inr ⟨w, ds, rfl, hp, rfl⟩)
    · exact .inl fun v ds => by simp

/-- What the wrappers own stays as it is until `connectCallback` makes its last step. -/
theorem step_fresh {s t : State} {op : Op} (h : s.HeldInv) (hstep : step s op = some t) :
    (∀ o, t.pending.source = some o → o < t.made) ∧
      ∀ w o, t.ds w = some o → o < t.made ∧ t.pending.source ≠ some o := by
  have hmade := h.made
  have hfresh := h.fresh
  cases op with
  | node op =>
    obtain ⟨_, server, hserver, rfl⟩ := step_node hstep
    rcases created_cases hserver with he | ⟨a, _, he⟩ <;> rw [he] <;> exact ⟨hmade, hfresh⟩
  | bindCallable w =>
    obtain ⟨_, _, _, rfl⟩ := step_bindCallable hstep
    exact ⟨by simp [Pending.source], fun v o ho => ⟨Nat.lt_succ_of_lt (hfresh v o ho).1, by simp [Pending.source]⟩⟩
  | connectCallback w present =>
    obtain ⟨_, _, _, rfl⟩ := step_connectCallback hstep
    have hnew : ∀ o, (if present then some s.made else none) = some o → o = s.made := by
      intro o ho
      cases present <;> cases ho
      rfl
    refine ⟨fun o ho => hnew o ho ▸ Nat.lt_succ_self _, fun v o ho => ?_⟩
    have hlt : o < s.made := (hfresh v o ho).1
    exact ⟨Nat.lt_succ_of_lt hlt, fun hsource => Nat.ne_of_lt hlt (hnew o hsource)⟩
  | advance =>
    rcases step_advance hstep with
      ⟨w, hp, rfl⟩ | ⟨w, hp, rfl⟩ | ⟨w, ds, hp, rfl⟩ | ⟨w, ds, hp, rfl⟩ | ⟨w, ds, hp, rfl⟩ <;>
      rw [hp] at hmade hfresh
    · obtain ⟨_, he⟩ := setCallback_eq s w .method
      rw [he]
      exact ⟨hmade, hfresh⟩
    · obtain ⟨_, he⟩ := setContext_eq s w (s.callable w)
      rw [he]
      exact ⟨hmade, hfresh⟩
    · obtain ⟨_, he⟩ := setCallback_eq s w .variable
      rw [he]
      exact ⟨hmade, hfresh⟩
    · obtain ⟨_, he⟩ := setContext_eq s w ds
      rw [he]
      exact ⟨hmade, hfresh⟩
    · -- the data source has its owner now
      refine ⟨by simp [Pending.source], fun v o ho => ⟨?_, by simp [Pending.source]⟩⟩
      have ho : Function.update s.ds w ds v = some o := ho
      by_cases hv : v = w
      · rw [hv, Function.update_self] at ho
        exact hmade o ho
      · rw [Function.update_of_ne hv] at ho
        exact (hfresh v o ho).1

theorem step_heldInv {s t : State} {op : Op} (h : s.HeldInv) (hg : RespectsHeld s op)
    (hstep : step s op = some t) : t.HeldInv := by
  have hinv := step_inv h.inv (.of_held hg) hstep
  have hlive := live_of_inv hinv
  obtain ⟨hmade, hfresh⟩ := step_fresh h hstep
  obtain hp | ⟨w, ds, hp, rfl⟩ | ⟨w, ds, rfl, hp, rfl⟩ := step_source hstep
  · exact ⟨hinv, hlive.held fun w ds => (hp w ds).2, hmade, hfresh, fun w ds he => absurd he (hp w ds).1⟩
  · refine ⟨hinv, hlive.held (by simp), hmade, hfresh, fun v o he u hu hnode => ?_⟩
    cases he
    have hprog := h.inv.inProgress
    rw [hp] at hprog
    obtain ⟨id, hw⟩ := hprog
    have htarget : s.target w = some u := by simpa [State.target] using hu
    have hid : fromNodeId id = some u := by simpa [State.target, hw] using htarget
    exact setCallback_sets h.inv.wrapped hw hid (by simpa using hnode)
  · -- there is no node or a null pointer, so no context is new
    have hold : ∀ u o, (s.setContext w ds).context u = some o → s.context u = some o := by
      intro u o ho
      unfold State.setContext at ho
      split at ho
      · exact ho
      · next v hv =>
        cases ds with
        | some new =>
          rw [hg w new hp v hv] at ho
          exact ho
        | none =>
          split at ho
          · have ho : Function.update s.context v none u = some o := ho
            by_cases hu : u = v
            · rw [hu, Function.update_self] at ho
              cases ho
            · rwa [Function.update_of_ne hu] at ho
          · exact ho
    obtain ⟨context, he⟩ := setContext_eq s w ds
    rw [he] at hinv hmade hfresh hold ⊢
    exact ⟨hinv, ⟨fun u o hc ho => h.held.method u o hc (hold u o ho),
      fun u o hc ho => h.held.source u o hc (hold u o ho)⟩, hmade, hfresh, by simp⟩

theorem step_unheld {s t : State} {op : Op} (h : s.HeldInv) (hg : ¬ RespectsHeld s op)
    (hstep : step s op = some t) : ¬ t.Held := by
  intro ht
  cases op with
  | node op => exact step_dangles h.inv (fun hr : Respects s (.node op) => hg hr) hstep ht.live
  | bindCallable w => exact step_dangles h.inv (fun hr : Respects s (.bindCallable w) => hg hr) hstep ht.live
  | connectCallback w present =>
    exact step_dangles h.inv (fun hr : Respects s (.connectCallback w present) => hg hr) hstep ht.live
  | advance =>
    refine hg fun w ds hp u hu => Classical.byContradiction fun hnode => ?_
    have hcb := h.callbackSet w ds hp u hu hnode
    have he : s.setContext w (some ds) = {s with context := Function.update s.context u (some ds)} := by
      simp [State.setContext, hu, Option.isSome_iff_ne_none, hnode]
    simp only [step, hp, Option.some.injEq, he] at hstep
    subst hstep
    obtain ⟨_, v, _, hv⟩ := ht.source u ds hcb (Function.update_self ..)
    exact (h.fresh v ds hv).2 (by rw [hp]; rfl)

/-- A dispatch finds an owned object, at every step of a run, exactly if no `bindCallable` of the run
replaces a callable that a node still has. The owner is always a wrapper, and never the argument of a
`connectCallback` in progress, exactly if besides no data source becomes the context of a node. -/
theorem contexts_live_iff (space : AddressSpace) (ops : List Op) :
    ((∀ t ∈ Run.visited step (start space) ops, t.Live) ↔
      ∀ e ∈ Run.edges step (start space) ops, Respects e.1 e.2) ∧
    ((∀ t ∈ Run.visited step (start space) ops, t.Held) ↔
      ∀ e ∈ Run.edges step (start space) ops, RespectsHeld e.1 e.2) :=
  ⟨Run.holds_iff_guarded (I := State.Inv) (P := State.Live) (G := Respects) (fun _ => live_of_inv)
      (fun _ _ _ => step_inv) (fun _ _ _ => step_dangles) (inv_start space) ops,
    Run.holds_iff_guarded (I := State.HeldInv) (P := State.Held) (G := RespectsHeld) (fun _ h => h.held)
      (fun _ _ _ => step_heldInv) (fun _ _ _ => step_unheld) (heldInv_start space) ops⟩

/-- A method created and bound twice: in the middle of the second call its node has the
callable of the first, which is gone. -/
theorem rebinding_dangles : ¬ ∀ (space : AddressSpace) (ops : List Op),
    ∀ t ∈ Run.visited step (start space) ops, t.Live := by
  intro h
  let space := emptySpace
  let ops : List Op := [.node (.create .method (.ofInt 1 7) (some ⟨1, .numeric 7⟩)), .bindCallable 0, .advance,
    .advance, .bindCallable 0]
  obtain ⟨t, ht, hcallback, hcontext, hcallable⟩ : ∃ t, Run.final step (start space) ops = some t ∧
      t.callback ⟨1, .numeric 7⟩ = some .method ∧ t.context ⟨1, .numeric 7⟩ = some 0 ∧
      ∀ w, t.callable w ≠ some 0 := by
    refine ⟨_, rfl, rfl, rfl, fun w hw => ?_⟩
    have hw : Function.update (Function.update (fun _ => none) 0 (some 0)) 0 (some 1) w = some 0 := hw
    by_cases h0 : w = 0
    · rw [h0, Function.update_self] at hw
      cases hw
    · rw [Function.update_of_ne h0, Function.update_of_ne h0] at hw
      cases hw
  obtain ⟨_, w, _, hw⟩ := (h space ops t (Run.final_mem_visited ht)).method _ _ hcallback hcontext
  exact hcallable w hw

end ModernOpc.Server.Contexts
