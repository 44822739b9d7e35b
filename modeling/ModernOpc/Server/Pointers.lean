import ModernOpc.Server.Contexts

/-! What the contexts of nodes point to.

A context is a `void *`. That of an object is what `createObject` was given, that of a method
a callable, and that of a variable a data source; the callbacks cast it back without asking,
and a member function gets the context of the object as its own.

`contexts_typed`: whatever is created, looked up, bound and connected, every cast is back to
what the pointer was made from, at every moment. An object has the context it was created
with, except where open62541 chose its id: then it has none. -/
namespace ModernOpc.Server.Pointers
open Library Contexts

inductive Pointer where
  /-- The `context` of a `createObject`. -/
  | user (p : Nat)
  | callable (o : Nat)
  | source (o : Nat)
  deriving DecidableEq, Repr

/-- The class of the nodes it is for. -/
def Pointer.nodeClass : Pointer → NodeClass
  | .user _ => .object
  | .callable _ => .method
  | .source _ => .variable

/-- What the wrappers made, if the pointer is to that. -/
def Pointer.object : Pointer → Option Nat
  | .user _ => none
  | .callable o | .source o => some o

/-- An object that was created: the id of its node, the id asked for, and the context given. -/
structure Created where
  node : Ua.NodeId
  requested : Ua.NodeId
  context : Option Nat
  deriving DecidableEq, Repr

/-- The server with its wrappers, the contexts, and the objects created so far. -/
structure State where
  base : Contexts.State
  context : Ua.NodeId → Option Pointer
  objects : List Created

def start (space : AddressSpace) : State := ⟨Contexts.start space, fun _ => none, []⟩

/-- An operation, and the context it is given if it creates an object. -/
structure Op where
  call : Contexts.Op
  context : Option Nat

namespace State
variable (s : State)

def node (u : Ua.NodeId) : Option NodeClass := s.base.server.space.node u

/-- `UA_Server_setNodeContext`, which fails on a node that is not there. -/
def setNodeContext (u : Ua.NodeId) (p : Option Pointer) : State :=
  if (s.node u).isSome then {s with context := Function.update s.context u p} else s

/-- What `internalMethodCallback` gets: the contexts of the method and of the object. -/
def call (objectId methodId : Ua.NodeId) : Option (Option Pointer × Option Pointer) :=
  if s.base.callback methodId = some .method ∧ s.node objectId = some .object then
    some (s.context methodId, s.context objectId)
  else none

/-- What `internalRead` and `internalWrite` get. -/
def access (nodeId : Ua.NodeId) : Option (Option Pointer) :=
  if s.base.callback nodeId = some .variable then some (s.context nodeId) else none

end State

def step (s : State) (op : Op) : Option State := do
  let base ← Contexts.step s.base op.call
  match op.call, s.base.pending with
  | .node (.create .object requestedId (some assigned)), _ =>
    match fromNodeId requestedId with
    | none => return {s with base := base}
    | some requested =>
      return {s with base := base, objects := ⟨assigned, requested, op.context⟩ :: s.objects}.setNodeContext requested
        (op.context.map .user)
  | .advance, .setContext w =>
    match s.base.target w with
    | none => return {s with base := base}
    | some u => return {s with base := base}.setNodeContext u ((s.base.callable w).map .callable)
  | .advance, .setSourceContext w ds =>
    match s.base.target w with
    | none => return {s with base := base}
    | some u => return {s with base := base}.setNodeContext u (ds.map .source)
  | _, _ => return {s with base := base}

/-! ### The invariant -/

/-- The class of the wrapper of the call in progress. -/
def State.InProgress (s : State) : Pending → Prop
  | .idle => True
  | .setCallback w | .setContext w => ∃ id, s.base.server.wrapper w = some (.method, id)
  | .setSource w _ | .setSourceContext w _ | .resetSource w _ => ∃ id, s.base.server.wrapper w = some (.variable, id)

/-- A pointer at a node of the class it is for. -/
def State.Fits (s : State) (u : Ua.NodeId) : Pointer → Prop
  | .user p => s.node u = some .object ∧ ∃ requested, ⟨u, requested, some p⟩ ∈ s.objects
  | .callable _ => s.node u = some .method
  | .source _ => s.node u = some .variable

/-- The context an object has. -/
def Created.has (c : Created) : Option Pointer := if AsksForId c.requested then none else c.context.map .user

structure State.Typed (s : State) : Prop where
  wrapped : s.base.server.Wrapped
  callbacks : ∀ u k, s.base.callback u = some k → s.node u = some k.nodeClass
  inProgress : s.InProgress s.base.pending
  fits : ∀ u p, s.context u = some p → s.Fits u p
  /-- But for the pointers of objects the contexts are those of `Contexts`. -/
  erased : ∀ u, s.base.context u = (s.context u).bind Pointer.object
  created : ∀ c ∈ s.objects, s.node c.node = some .object ∧ s.context c.node = c.has

theorem typed_start (space : AddressSpace) : (start space).Typed where
  wrapped := wrapped_start space
  callbacks := by intro u k h; cases h
  inProgress := trivial
  fits := by intro u p h; cases h
  erased := fun _ => rfl
  created := by intro c h; cases h

theorem State.Fits.node {s : State} {u : Ua.NodeId} {p : Pointer} (h : s.Fits u p) :
    s.node u = some p.nodeClass := by
  cases p with
  | user p => exact h.1
  | callable o => exact h
  | source o => exact h

namespace State.Typed
variable {s : State} {u : Ua.NodeId}

/-- Only a node that is there has a context. -/
theorem no_context (h : s.Typed) (hu : s.node u = none) : s.context u = none := by
  refine Option.eq_none_iff_forall_ne_some.mpr fun p hp => ?_
  have hclass := hu.symm.trans (h.fits u p hp).node
  cases hclass

/-- A method's context is that of `Contexts`, and so is a variable's. -/
theorem method_context (h : s.Typed) (hu : s.node u = some .method) :
    s.context u = (s.base.context u).map .callable := by
  rw [h.erased u]
  cases hp : s.context u with
  | none => rfl
  | some p =>
    have hclass := hu.symm.trans (h.fits u p hp).node
    cases p with
    | user p => cases hclass
    | callable o => rfl
    | source o => cases hclass

theorem variable_context (h : s.Typed) (hu : s.node u = some .variable) :
    s.context u = (s.base.context u).map .source := by
  rw [h.erased u]
  cases hp : s.context u with
  | none => rfl
  | some p =>
    have hclass := hu.symm.trans (h.fits u p hp).node
    cases p with
    | user p => cases hclass
    | callable o => cases hclass
    | source o => rfl

/-- An object's context is what it was created with. -/
theorem object_context (h : s.Typed) (hu : s.node u = some .object) {p : Pointer} (hp : s.context u = some p) :
    ∃ x requested, p = .user x ∧ ⟨u, requested, some x⟩ ∈ s.objects := by
  have hfits := h.fits u p hp
  have hclass := hu.symm.trans hfits.node
  cases p with
  | user x =>
    obtain ⟨-, requested, hr⟩ := hfits
    exact ⟨x, requested, rfl, hr⟩
  | callable o => cases hclass
  | source o => cases hclass

end State.Typed

/-! ### One step -/

section Steps
variable {s t : State}

theorem Fits.kept (hg : s.base.server.Grows t.base.server) (ho : ∀ c ∈ s.objects, c ∈ t.objects) {u : Ua.NodeId}
    {p : Pointer} (h : s.Fits u p) : t.Fits u p := by
  cases p with
  | user p =>
    obtain ⟨hn, r, hr⟩ := h
    exact ⟨hg.node u _ hn, r, ho _ hr⟩
  | callable o => exact hg.node u _ h
  | source o => exact hg.node u _ h

/-- A step that does not touch the contexts. -/
theorem State.Typed.rebase (h : s.Typed) {base : Contexts.State} (hw : base.server.Wrapped)
    (hg : s.base.server.Grows base.server) (hc : base.context = s.base.context)
    (hcallbacks : ∀ u k, base.callback u = some k → base.server.space.node u = some k.nodeClass)
    (hp : State.InProgress {s with base := base} base.pending) : State.Typed {s with base := base} where
  wrapped := hw
  callbacks := hcallbacks
  inProgress := hp
  fits u p hu := Fits.kept (s := s) (t := {s with base := base}) hg (fun _ hc => hc) (h.fits u p hu)
  erased u := by
    rw [show ({s with base := base} : State).base.context u = s.base.context u from congrFun hc u]
    exact h.erased u
  created c hmem := ⟨hg.node _ _ (h.created c hmem).1, (h.created c hmem).2⟩

/-- A new object, told of its context under the id that was asked for. -/
theorem typed_created (h : s.Typed) {c : Created} (hnode : s.node c.node = some .object)
    (hnone : s.context c.node = none) (hnew : ∀ c' ∈ s.objects, c'.node ≠ c.node)
    (hid : ¬ AsksForId c.requested → c.node = c.requested) :
    (State.setNodeContext {s with objects := c :: s.objects} c.requested (c.context.map .user)).Typed := by
  have hgrows := grows_refl s.base.server
  have hfits : ∀ u p, s.context u = some p → State.Fits {s with objects := c :: s.objects} u p := fun u p hu =>
    Fits.kept (s := s) (t := {s with objects := c :: s.objects}) hgrows (fun _ hm => List.mem_cons_of_mem _ hm)
      (h.fits u p hu)
  unfold State.setNodeContext
  by_cases hasks : AsksForId c.requested
  · -- there is no node under such an id, and the new one keeps no context
    have hgone : State.node {s with objects := c :: s.objects} c.requested = none :=
      s.base.server.space.assigned _ hasks
    rw [hgone]
    refine ⟨h.wrapped, h.callbacks, h.inProgress, hfits, h.erased, fun c' hc' => ?_⟩
    rcases List.mem_cons.mp hc' with rfl | hc'
    · exact ⟨hnode, hnone.trans (if_pos hasks).symm⟩
    · exact h.created c' hc'
  · have he := hid hasks
    rw [← he]
    have hthere : (State.node {s with objects := c :: s.objects} c.node).isSome = true := by
      show (s.node c.node).isSome = true
      rw [hnode]
      rfl
    rw [if_pos hthere]
    refine ⟨h.wrapped, h.callbacks, h.inProgress, fun u p hu => ?_, fun u => ?_, fun c' hc' => ?_⟩
    · have hu : Function.update s.context c.node (c.context.map .user) u = some p := hu
      by_cases hu' : u = c.node
      · subst hu'
        rw [Function.update_self] at hu
        obtain ⟨x, hx, rfl⟩ := Option.map_eq_some_iff.mp hu
        exact ⟨hnode, c.requested, hx ▸ List.mem_cons_self ..⟩
      · rw [Function.update_of_ne hu'] at hu
        exact hfits u p hu
    · show s.base.context u = (Function.update s.context c.node (c.context.map .user) u).bind Pointer.object
      by_cases hu' : u = c.node
      · subst hu'
        rw [Function.update_self, h.erased, hnone]
        cases c.context <;> rfl
      · rw [Function.update_of_ne hu', h.erased]
    · show s.node c'.node = _ ∧ Function.update s.context c.node (c.context.map .user) c'.node = _
      rcases List.mem_cons.mp hc' with rfl | hc'
      · exact ⟨hnode, (Function.update_self ..).trans (if_neg hasks).symm⟩
      · rw [Function.update_of_ne (hnew c' hc')]
        exact h.created c' hc'

/-- The context of a method or a variable, which `Contexts` knows of as well. -/
theorem typed_setContext (h : s.Typed) {w : Nat} {k : Kind} {id : NodeId} {p : Option Pointer} {pending : Pending}
    (hw : s.base.server.wrapper w = some (k, id)) (hk : k ≠ .object)
    (hfits : ∀ u q, p = some q → s.node u = some k.nodeClass → s.Fits u q)
    (hp : s.InProgress pending) :
    ∃ u, s.base.target w = some u ∧ (State.setNodeContext
      {s with base := {s.base.setContext w (p.bind Pointer.object) with pending := pending}} u p).Typed := by
  obtain ⟨u, hnames, htarget, -⟩ := target_cases h.wrapped hw
  refine ⟨u, htarget, ?_⟩
  obtain ⟨v, hnames', hcases⟩ := setContext_cases h.wrapped hw (p.bind Pointer.object)
  obtain rfl := hnames.unique hnames'
  unfold State.setNodeContext
  rcases hcases with ⟨hnode, he⟩ | ⟨hnode, he⟩ <;> rw [he]
  · have hgone : State.node {s with base := {s.base with pending := pending}} u = none := hnode
    rw [hgone]
    exact h.rebase h.wrapped (grows_refl _) rfl h.callbacks hp
  · have hthere : State.node {s with base := {s.base with
        context := Function.update s.base.context u (p.bind Pointer.object), pending := pending}} u =
        some k.nodeClass := hnode
    rw [hthere, if_pos (Option.isSome_some ..)]
    refine ⟨h.wrapped, h.callbacks, hp, fun v q hv => ?_, fun v => ?_, fun c hc => ?_⟩
    · have hv : Function.update s.context u p v = some q := hv
      refine Fits.kept (s := s) (grows_refl _) (fun _ hc => hc) ?_
      by_cases hvu : v = u
      · subst hvu
        rw [Function.update_self] at hv
        exact hfits v q hv hnode
      · rw [Function.update_of_ne hvu] at hv
        exact h.fits v q hv
    · show Function.update s.base.context u (p.bind Pointer.object) v =
        (Function.update s.context u p v).bind Pointer.object
      by_cases hvu : v = u
      · subst hvu
        rw [Function.update_self, Function.update_self]
      · rw [Function.update_of_ne hvu, Function.update_of_ne hvu, h.erased]
    · show s.node c.node = _ ∧ Function.update s.context u p c.node = _
      obtain ⟨hobject, hhas⟩ := h.created c hc
      have hne : c.node ≠ u := fun he => by
        rw [he] at hobject
        exact hk (Kind.nodeClass_injective (l := .object) (Option.some.inj (hnode.symm.trans hobject)))
      rw [Function.update_of_ne hne]
      exact ⟨hobject, hhas⟩

/-- A callback is set on a node of its class. -/
theorem typed_setCallback (h : s.Typed) {w : Nat} {k : Kind} {id : NodeId} {pending : Pending}
    (hw : s.base.server.wrapper w = some (k, id)) (hp : s.InProgress pending) :
    State.Typed {s with base := {s.base.setCallback w k with pending := pending}} := by
  obtain ⟨u, hnames, ⟨_, he⟩ | ⟨hnode, he⟩⟩ := setCallback_cases h.wrapped hw <;> rw [he]
  · exact h.rebase h.wrapped (grows_refl _) rfl h.callbacks hp
  · refine h.rebase h.wrapped (grows_refl _) rfl (fun v l hv => ?_) hp
    have hv : Function.update s.base.callback u (some k) v = some l := hv
    by_cases hvu : v = u
    · subst hvu
      rw [Function.update_self] at hv
      cases hv
      exact hnode
    · rw [Function.update_of_ne hvu] at hv
      exact h.callbacks v l hv

theorem created_base {s : Contexts.State} {server : Server.State} {op : Server.Op}
    (hstep : Server.step s.server op = some server) :
    (s.created server op).server = server ∧ (s.created server op).context = s.context ∧
      (s.created server op).pending = s.pending := by
  rcases created_cases hstep with he | ⟨a, _, he⟩ <;> rw [he] <;> exact ⟨rfl, rfl, rfl⟩

/-- Creating and looking up nodes, before an object is told of its context. -/
theorem typed_node (h : s.Typed) (hp : s.base.pending = .idle) {server : Server.State} {op : Server.Op}
    (hstep : Server.step s.base.server op = some server) :
    State.Typed {s with base := s.base.created server op} := by
  obtain ⟨hserver, hcontext, hpending⟩ := created_base hstep
  have hgrows := step_grows h.wrapped hstep
  refine h.rebase (hserver.symm ▸ step_wrapped h.wrapped hstep) (hserver.symm ▸ hgrows) hcontext ?_ ?_
  · intro u k hc
    rw [hserver]
    rcases created_cases hstep with he | ⟨a, ha, he⟩
    · rw [he] at hc
      exact hgrows.node u _ (h.callbacks u k hc)
    · rw [he] at hc
      have hc : Function.update s.base.callback a (some .method) u = some k := hc
      by_cases hu : u = a
      · subst hu
        rw [Function.update_self] at hc
        cases hc
        exact ha
      · rw [Function.update_of_ne hu] at hc
        exact hgrows.node u _ (h.callbacks u k hc)
  · rw [hpending, hp]
    trivial

/-- What creating an object does to the address space. -/
theorem create_object {server server' : Server.State} {id : NodeId} {assigned requested : Ua.NodeId}
    (hid : fromNodeId id = some requested)
    (hstep : Server.step server (.create .object id (some assigned)) = some server') :
    server.space.node assigned = none ∧ server'.space.node assigned = some .object ∧
      (¬ AsksForId requested → assigned = requested) := by
  obtain ⟨⟨t, ptr⟩, hc, rfl⟩ := Option.map_eq_some_iff.mp hstep
  rcases create_cases hc with ⟨_, _, hno | hno⟩ | ⟨r, a, hr, ha, hadd, rfl, _⟩
  · rw [hid] at hno
    cases hno
  · cases hno
  · cases ha
    cases hid.symm.trans hr
    exact ⟨hadd.2.1, AddressSpace.add_self server.space .object hadd.1, hadd.2.2⟩

theorem step_object (h : s.Typed) {op : Op} {id : NodeId} {assigned : Ua.NodeId}
    (hop : op.call = .node (.create .object id (some assigned))) (hstep : step s op = some t) : t.Typed := by
  obtain ⟨base, hbase, hstep⟩ := Option.bind_eq_some_iff.mp hstep
  rw [hop] at hbase hstep
  obtain ⟨hp, server, hserver, rfl⟩ := step_node hbase
  have hnode := typed_node h hp hserver
  cases hid : fromNodeId id with
  | none =>
    simp only [hid] at hstep
    cases hstep
    exact hnode
  | some requested =>
    simp only [hid] at hstep
    cases hstep
    obtain ⟨hnone, hobject, hreq⟩ := create_object hid hserver
    obtain ⟨hbase', -, -⟩ := created_base hserver
    refine typed_created (c := ⟨assigned, requested, op.context⟩) hnode ?_ (h.no_context hnone) ?_ hreq
    · show (s.base.created server _).server.space.node assigned = _
      rw [hbase']
      exact hobject
    · intro c hc he
      have := (h.created c hc).1
      rw [he] at this
      exact absurd (hnone.symm.trans this) (by simp)

theorem step_pending (h : s.Typed) {op : Op} (hop : op.call = .advance) (hstep : step s op = some t) : t.Typed := by
  obtain ⟨base, hbase, hstep⟩ := Option.bind_eq_some_iff.mp hstep
  rw [hop] at hbase hstep
  have hprog := h.inProgress
  rcases step_advance hbase with
    ⟨w, hp, rfl⟩ | ⟨w, hp, rfl⟩ | ⟨w, ds, hp, rfl⟩ | ⟨w, ds, hp, rfl⟩ | ⟨w, ds, hp, rfl⟩ <;>
    rw [hp] at hprog hstep
  · cases hstep
    obtain ⟨id, hw⟩ := hprog
    exact typed_setCallback h hw ⟨id, hw⟩
  · obtain ⟨id, hw⟩ := hprog
    have hfits : ∀ u q, (s.base.callable w).map .callable = some q → s.node u = some .method → s.Fits u q := by
      intro u q hq hnode
      obtain ⟨o, -, rfl⟩ := Option.map_eq_some_iff.mp hq
      exact hnode
    have hidle : s.InProgress .idle := trivial
    obtain ⟨u, htarget, htyped⟩ := typed_setContext h hw (by simp) hfits hidle
    simp only [htarget] at hstep
    cases hstep
    have herase : ((s.base.callable w).map Pointer.callable).bind Pointer.object = s.base.callable w := by
      cases s.base.callable w <;> rfl
    rw [herase] at htyped
    exact htyped
  · cases hstep
    obtain ⟨id, hw⟩ := hprog
    exact typed_setCallback h hw ⟨id, hw⟩
  · obtain ⟨id, hw⟩ := hprog
    have hfits : ∀ u q, ds.map .source = some q → s.node u = some .variable → s.Fits u q := by
      intro u q hq hnode
      obtain ⟨o, -, rfl⟩ := Option.map_eq_some_iff.mp hq
      exact hnode
    have hreset : s.InProgress (.resetSource w ds) := ⟨id, hw⟩
    obtain ⟨u, htarget, htyped⟩ := typed_setContext h hw (by simp) hfits hreset
    simp only [htarget] at hstep
    cases hstep
    have herase : (ds.map Pointer.source).bind Pointer.object = ds := by cases ds <;> rfl
    rw [herase] at htyped
    exact htyped
  · cases hstep
    exact h.rebase h.wrapped (grows_refl _) rfl h.callbacks trivial

theorem step_typed (h : s.Typed) {op : Op} (hstep : step s op = some t) : t.Typed := by
  -- where no context is set, all that changes is the rest
  have hplain : ∀ base, Contexts.step s.base op.call = some base → t = {s with base := base} →
      (∃ nop, op.call = .node nop) → t.Typed := by
    rintro base hbase rfl ⟨nop, hnop⟩
    rw [hnop] at hbase
    obtain ⟨hp, server, hserver, rfl⟩ := step_node hbase
    exact typed_node h hp hserver
  cases hop : op.call with
  | node nop =>
    cases nop with
    | create k id answer =>
      cases answer with
      | none =>
        obtain ⟨base, hbase, hrest⟩ := Option.bind_eq_some_iff.mp hstep
        cases k <;> (rw [hop] at hrest; exact hplain base hbase (Option.some.inj hrest).symm ⟨_, hop⟩)
      | some assigned =>
        cases k with
        | object => exact step_object h hop hstep
        | _ =>
          obtain ⟨base, hbase, hrest⟩ := Option.bind_eq_some_iff.mp hstep
          rw [hop] at hrest
          exact hplain base hbase (Option.some.inj hrest).symm ⟨_, hop⟩
    | _ =>
      obtain ⟨base, hbase, hrest⟩ := Option.bind_eq_some_iff.mp hstep
      rw [hop] at hrest
      exact hplain base hbase (Option.some.inj hrest).symm ⟨_, hop⟩
  | bindCallable w =>
    obtain ⟨base, hbase, hrest⟩ := Option.bind_eq_some_iff.mp hstep
    rw [hop] at hbase hrest
    obtain ⟨-, id, hw, rfl⟩ := step_bindCallable hbase
    cases hrest
    exact h.rebase h.wrapped (grows_refl _) rfl h.callbacks ⟨id, hw⟩
  | connectCallback w present =>
    obtain ⟨base, hbase, hrest⟩ := Option.bind_eq_some_iff.mp hstep
    rw [hop] at hbase hrest
    obtain ⟨-, id, hw, rfl⟩ := step_connectCallback hbase
    cases hrest
    exact h.rebase h.wrapped (grows_refl _) rfl h.callbacks ⟨id, hw⟩
  | advance => exact step_pending h hop hstep

end Steps

/-! ### Runs -/

/-- Without the contexts of objects a step is one of `Contexts`. -/
theorem step_base {s t : State} {op : Op} (h : step s op = some t) :
    Contexts.step s.base op.call = some t.base := by
  obtain ⟨base, hbase, hrest⟩ := Option.bind_eq_some_iff.mp h
  have hset : ∀ (r : State) u p, (r.setNodeContext u p).base = r.base := by
    intro r u p
    unfold State.setNodeContext
    split <;> rfl
  rw [hbase]
  refine congrArg some ?_
  split at hrest
  · split at hrest <;> cases hrest
    · rfl
    · rw [hset]
  · split at hrest <;> cases hrest
    · rfl
    · rw [hset]
  · split at hrest <;> cases hrest
    · rfl
    · rw [hset]
  · cases hrest
    rfl

/-- At every moment, on any node: a call finds a callable or null as the context of the method, and as that
of the object null or what the object was created with; a read or write finds a data source or null. These
callables and data sources are the contexts of a run of `Contexts`. Every object has the context it was
created with, unless its id was left to open62541. -/
theorem contexts_typed (space : AddressSpace) (ops : List Op) :
    ∀ t ∈ Run.visited step (start space) ops,
      t.base ∈ Run.visited Contexts.step (Contexts.start space) (ops.map Op.call) ∧
      (∀ objectId methodId methodContext objectContext,
        t.call objectId methodId = some (methodContext, objectContext) →
          methodContext = (t.base.context methodId).map .callable ∧
          ∀ p, objectContext = some p →
            ∃ x requested, p = .user x ∧ ⟨objectId, requested, some x⟩ ∈ t.objects) ∧
      (∀ nodeId context, t.access nodeId = some context → context = (t.base.context nodeId).map .source) ∧
      ∀ c ∈ t.objects, t.context c.node = if AsksForId c.requested then none else c.context.map .user := by
  intro t ht
  have h : t.Typed := Run.holds_of_kept (I := State.Typed) (G := fun _ _ => True)
    (fun _ _ _ hs _ hstep => step_typed hs hstep) (typed_start space) (fun _ _ => trivial) t ht
  refine ⟨Run.visited_map State.base Op.call (fun _ _ _ => step_base) ht,
    fun objectId methodId methodContext objectContext hcall => ?_, fun nodeId context haccess => ?_,
    fun c hc => (h.created c hc).2⟩
  · unfold State.call at hcall
    split at hcall
    · next hfound =>
      cases hcall
      exact ⟨h.method_context (h.callbacks methodId .method hfound.1), fun p => h.object_context hfound.2⟩
    · cases hcall
  · unfold State.access at haccess
    split at haccess
    · next hfound =>
      cases haccess
      exact h.variable_context (h.callbacks nodeId .variable hfound)
    · cases haccess

/-- An object with a context, one whose id is left to open62541, and a method that is bound. -/
def boundOps : List Op :=
  [⟨.node (.create .object (.ofInt 1 7) (some ⟨1, .numeric 7⟩)), some 5⟩,
    ⟨.node (.create .object (.ofInt 1 0) (some ⟨1, .numeric 50001⟩)), some 6⟩,
    ⟨.node (.create .method (.ofInt 1 8) (some ⟨1, .numeric 8⟩)), none⟩,
    ⟨.bindCallable 2, none⟩, ⟨.advance, none⟩, ⟨.advance, none⟩]

/-- A call gets the callable and the object's context; of the other object's nothing is left. -/
theorem contexts_typed_bound : ∃ t, Run.final step (start emptySpace) boundOps = some t ∧
    t.call ⟨1, .numeric 7⟩ ⟨1, .numeric 8⟩ = some (some (.callable 0), some (.user 5)) ∧
    t.context ⟨1, .numeric 50001⟩ = none := by
  obtain ⟨t, ht, m, hcall, hbase, hobject, hasking⟩ : ∃ t, Run.final step (start emptySpace) boundOps = some t ∧
      ∃ m, t.call ⟨1, .numeric 7⟩ ⟨1, .numeric 8⟩ = some (m, t.context ⟨1, .numeric 7⟩) ∧
        t.base.context ⟨1, .numeric 8⟩ = some 0 ∧
        ⟨⟨1, .numeric 7⟩, ⟨1, .numeric 7⟩, some 5⟩ ∈ t.objects ∧
        ⟨⟨1, .numeric 50001⟩, ⟨1, .numeric 0⟩, some 6⟩ ∈ t.objects :=
    ⟨_, rfl, _, rfl, rfl, by decide, by decide⟩
  obtain ⟨-, hcalls, -, hcontexts⟩ := contexts_typed emptySpace boundOps t (Run.final_mem_visited ht)
  refine ⟨t, ht, ?_, (hcontexts _ hasking).trans (if_pos (by decide))⟩
  rw [hcall, (hcalls _ _ _ _ hcall).1, hbase, hcontexts _ hobject, if_neg (by decide)]
  rfl

end ModernOpc.Server.Pointers
