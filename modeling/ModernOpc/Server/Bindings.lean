import ModernOpc.Server.Contexts

/-! Which object a node reaches.

`MethodNode::invoke` runs the callable of its own wrapper. A call from a client runs what the
node's context points to, and so does every read and write of a connected variable. The wrapper
and the node are told separately, by `bindCallable` and `connectCallback`.

`reaches_own`: as long as no identifier has a zero byte, the two never differ, except on the
wrapper of the call in progress. Two ids that open62541 takes for one have two wrappers, and
what is bound through one of them goes unnoticed by the other (`conflated_wrappers_differ`). -/
namespace ModernOpc.Server.Contexts
open Library

/-- What a wrapper owns. An `ObjectNode` owns nothing. -/
def State.own (s : State) (w : Nat) : Kind → Option Nat
  | .object => none
  | .method => s.callable w
  | .variable => s.ds w

theorem own_callable (s : State) {v w : Nat} (h : v ≠ w) (o : Option Nat) (k : Kind) :
    State.own {s with callable := Function.update s.callable w o} v k = s.own v k := by
  cases k <;> first | rfl | exact Function.update_of_ne h ..

theorem own_source (s : State) {v w : Nat} (h : v ≠ w) (o : Option Nat) (k : Kind) :
    State.own {s with ds := Function.update s.ds w o} v k = s.own v k := by
  cases k <;> first | rfl | exact Function.update_of_ne h ..

/-- The object that a dispatch to one of the server's callbacks finds. -/
def State.reaches (s : State) (k : Kind) (u : Ua.NodeId) : Option Nat :=
  if s.callback u = some k then s.context u else none

/-- The wrapper of the call in progress. -/
def Pending.wrapper : Pending → Option Nat
  | .idle => none
  | .setCallback w | .setContext w => some w
  | .setSource w _ | .setSourceContext w _ | .resetSource w _ => some w

/-- No zero byte in the ids of an operation. -/
def Op.ZeroFree : Op → Prop
  | .node (.create _ id _) => id.ZeroFree
  | .node (.get _ id _) => id.ZeroFree
  | _ => True

instance (op : Op) : Decidable op.ZeroFree := by
  unfold Op.ZeroFree
  split <;> infer_instance

/-- Node and wrapper were told the same. -/
structure State.Agrees (s : State) (w : Nat) (k : Kind) (u : Ua.NodeId) : Prop where
  context : s.context u = s.own w k
  callback : s.own w k ≠ none → s.callback u = some k

theorem State.Agrees.reaches {s : State} {w : Nat} {k : Kind} {u : Ua.NodeId} (h : s.Agrees w k u) :
    s.reaches k u = s.own w k := by
  unfold State.reaches
  split
  · exact h.context
  · next hc =>
    have hown : s.own w k = none := Classical.byContradiction fun hne => hc (h.callback hne)
    exact hown.symm

/-- The call in progress is on a wrapper of class `k`, and its node is as far as `P` says. -/
def State.Reached (s : State) (w : Nat) (k : Kind) (P : Ua.NodeId → Prop) : Prop :=
  ∃ id, s.server.wrapper w = some (k, id) ∧
    ∀ u, fromNodeId id = some u → s.server.space.node u ≠ none → P u

def State.Progress (s : State) : Pending → Prop
  | .idle => True
  | .setCallback w => s.Reached w .method fun _ => True
  | .setContext w => s.Reached w .method fun u => s.callback u = some .method
  | .setSource w _ => s.Reached w .variable fun _ => True
  | .setSourceContext w _ => s.Reached w .variable fun u => s.callback u = some .variable
  | .resetSource w ds => s.Reached w .variable fun u => s.callback u = some .variable ∧ s.context u = ds

structure State.Bound (s : State) : Prop where
  wrapped : s.server.Wrapped
  zeroFree : ∀ w k id, s.server.wrapper w = some (k, id) → id.ZeroFree
  /-- Only a node with a wrapper has a context. -/
  contexts : ∀ u o, s.context u = some o → s.server.space.node u ≠ none ∧ ∃ w k, s.Names w k u
  /-- A wrapper that is not made yet owns nothing. -/
  unmade : ∀ w, s.server.wrapper w = none → s.callable w = none ∧ s.ds w = none
  agrees : ∀ w k u, s.Names w k u → s.server.space.node u ≠ none → s.pending.wrapper ≠ some w → s.Agrees w k u
  progress : s.Progress s.pending

theorem bound_start (space : AddressSpace) : (start space).Bound where
  wrapped := wrapped_start space
  zeroFree := by intro w k id h; cases h
  contexts := by intro u o h; cases h
  unmade := fun _ _ => ⟨rfl, rfl⟩
  agrees := by
    intro w k u h
    obtain ⟨_, h, _⟩ := h
    cases h
  progress := trivial

/-! ### Names -/

/-- Ids without a zero byte are told apart by open62541. -/
theorem id_unique {m n : NodeId} {u : Ua.NodeId} (hm : m.ZeroFree) (hn : n.ZeroFree)
    (hmu : fromNodeId m = some u) (hnu : fromNodeId n = some u) : m = n := by
  obtain ⟨v, hv, hmt⟩ := NodeId.fromUaNodeId_fromNodeId (NodeId.matching_of_fromNodeId hmu)
  obtain ⟨v', hv', hnt⟩ := NodeId.fromUaNodeId_fromNodeId (NodeId.matching_of_fromNodeId hnu)
  rw [hmu, Option.some.injEq] at hv
  rw [hnu, Option.some.injEq] at hv'
  subst hv hv'
  rw [NodeId.truncated_eq_self.mpr hm] at hmt
  rw [NodeId.truncated_eq_self.mpr hn] at hnt
  exact hmt.symm.trans hnt

/-- A wrapper of a node that is there is the one stored under its id. -/
theorem entry_of_names {s : Server.State} (hs : s.Wrapped) {w : Nat} {k : Kind} {id : NodeId} {u : Ua.NodeId}
    (hw : s.wrapper w = some (k, id)) (hu : fromNodeId id = some u) (hasks : ¬ AsksForId u) :
    s.cache k id = some w ∧ s.space.node u = some k.nodeClass := by
  obtain ⟨v, hv, hn⟩ := hs.named k id w hw
  rw [hu, Option.some.injEq] at hv
  exact hn (hv ▸ hasks) |>.imp_right fun h => hv ▸ h

theorem not_asks {space : AddressSpace} {u : Ua.NodeId} (h : space.node u ≠ none) : ¬ AsksForId u :=
  fun hasks => h (space.assigned u hasks)

/-- No node has two wrappers. -/
theorem State.Bound.one {s : State} (h : s.Bound) {w w' : Nat} {k l : Kind} {u : Ua.NodeId}
    (hw : s.Names w k u) (hw' : s.Names w' l u) (hu : s.server.space.node u ≠ none) : w = w' := by
  obtain ⟨id, hw, hid⟩ := hw
  obtain ⟨id', hw', hid'⟩ := hw'
  obtain rfl := id_unique (h.zeroFree w k id hw) (h.zeroFree w' l id' hw') hid hid'
  obtain ⟨hcache, hnode⟩ := entry_of_names h.wrapped hw hid (not_asks hu)
  obtain ⟨hcache', hnode'⟩ := entry_of_names h.wrapped hw' hid' (not_asks hu)
  obtain rfl : k = l := Kind.nodeClass_injective (Option.some.inj (hnode.symm.trans hnode'))
  exact Option.some.inj (hcache.symm.trans hcache')

/-! ### Node operations -/

/-- A wrapper was there already, or its node is a new one or had no entry. -/
theorem wrapper_cases {s t : Server.State} {op : Server.Op} (h : Server.step s op = some t)
    {w : Nat} {k : Kind} {id : NodeId} (hw : t.wrapper w = some (k, id)) :
    s.wrapper w = some (k, id) ∨
    w = s.next ∧ ((∃ answer, op = .create k id answer) ∨ ∃ fails, op = .get k id fails) ∧
      ∀ u, fromNodeId id = some u → ¬ AsksForId u → s.space.node u = none ∨ s.cache k id = none := by
  cases op with
  | create l id' answer =>
    obtain ⟨⟨t', ptr⟩, hc, rfl⟩ := Option.map_eq_some_iff.mp ((step_create _ _ _ _).symm.trans h)
    rcases create_cases hc with ⟨rfl, _, _⟩ | ⟨requested, assigned, hr, _, ha, rfl, _⟩
    · exact .inl hw
    · rcases State.addWrapper_wrapper_cases hw with hw | ⟨rfl, he⟩
      · exact .inl hw
      · cases he
        refine .inr ⟨rfl, .inl ⟨answer, rfl⟩, fun u hu hasks => .inl ?_⟩
        obtain rfl : requested = u := Option.some.inj (hr.symm.trans hu)
        rw [← ha.2.2 hasks]
        exact ha.2.1
  | get l id' fails =>
    rw [step_get, Option.some.injEq] at h
    subst h
    rcases get_cases l s id' fails with ⟨p, _, he⟩ | he | ⟨u, _, hnone, _, _, he⟩ <;> rw [he] at hw
    · exact .inl hw
    · exact .inl hw
    · rcases State.addWrapper_wrapper_cases hw with hw | ⟨rfl, he⟩
      · exact .inl hw
      · cases he
        exact .inr ⟨rfl, .inr ⟨fails, rfl⟩, fun _ _ _ => .inr hnone⟩
  | added id' c =>
    obtain ⟨_, rfl⟩ := step_added h
    exact .inl hw

/-- A new wrapper is the first of its node, so the node has no context. -/
theorem context_none {s : State} (h : s.Bound) {server : Server.State} {op : Server.Op}
    (hstep : Server.step s.server op = some server) {w : Nat} {k : Kind} {id : NodeId} {u : Ua.NodeId}
    (hid : id.ZeroFree) (hw : server.wrapper w = some (k, id)) (hu : fromNodeId id = some u)
    (hnode : server.space.node u ≠ none)
    (hnew : s.server.space.node u = none ∨ s.server.cache k id = none) : s.context u = none := by
  refine Option.eq_none_iff_forall_ne_some.mpr fun o ho => ?_
  obtain ⟨hold, w', l, id', hw', hid'⟩ := h.contexts u o ho
  obtain ⟨hcache, hclass⟩ := entry_of_names h.wrapped hw' hid' (not_asks hold)
  rcases hnew with hnew | hnew
  · exact hold hnew
  · obtain rfl := id_unique (h.zeroFree w' l id' hw') hid hid' hu
    have hclass' := (entry_of_names (step_wrapped h.wrapped hstep) hw hu (not_asks hnode)).2
    have hkept := (step_grows h.wrapped hstep).node u _ hclass
    obtain rfl : l = k := Kind.nodeClass_injective (Option.some.inj (hkept.symm.trans hclass'))
    rw [hnew] at hcache
    cases hcache

theorem zeroFree_node {s : State} {server : Server.State} {op : Server.Op} (h : s.Bound)
    (hz : Op.ZeroFree (.node op)) (hstep : Server.step s.server op = some server) (w : Nat) (k : Kind) (id : NodeId)
    (hw : server.wrapper w = some (k, id)) : id.ZeroFree := by
  rcases wrapper_cases hstep hw with hw | ⟨_, ⟨_, rfl⟩ | ⟨_, rfl⟩, _⟩
  · exact h.zeroFree w k id hw
  · exact hz
  · exact hz

/-- An old wrapper keeps its node, and a new one has neither object nor context. -/
theorem agrees_node {s : State} {server : Server.State} {op : Server.Op} (h : s.Bound) (hp : s.pending = .idle)
    (hz : Op.ZeroFree (.node op)) (hstep : Server.step s.server op = some server) {w : Nat} {k : Kind} {u : Ua.NodeId}
    (hnames : State.Names {s with server := server} w k u) (hnode : server.space.node u ≠ none) : s.Agrees w k u := by
  obtain ⟨id, hw, hid⟩ := hnames
  rcases wrapper_cases hstep hw with hold | ⟨rfl, _, hnew⟩
  · have hu := (entry_of_names h.wrapped hold hid (not_asks hnode)).2
    exact h.agrees w k u ⟨id, hold, hid⟩ (by rw [hu]; exact Option.some_ne_none _)
      (by rw [hp]; exact (Option.some_ne_none _).symm)
  · have hnone : s.server.wrapper s.server.next = none := by
      refine Option.eq_none_iff_forall_ne_some.mpr fun p hp => ?_
      exact Nat.lt_irrefl _ (h.wrapped.made _ p hp)
    have hown : s.own s.server.next k = none := by
      obtain ⟨hcallable, hds⟩ := h.unmade _ hnone
      cases k
      · rfl
      · exact hcallable
      · exact hds
    have hctx := context_none h hstep (zeroFree_node h hz hstep _ k id hw) hw hid hnode (hnew u hid (not_asks hnode))
    exact ⟨hctx.trans hown.symm, fun hne => absurd hown hne⟩

theorem bound_node {s : State} {server : Server.State} {op : Server.Op} (h : s.Bound) (hp : s.pending = .idle)
    (hz : Op.ZeroFree (.node op)) (hstep : Server.step s.server op = some server) :
    (s.created server op).Bound := by
  have hg := step_grows h.wrapped hstep
  have hwrapped := step_wrapped h.wrapped hstep
  have hzero := zeroFree_node h hz hstep
  have hcontexts : ∀ u o, s.context u = some o → server.space.node u ≠ none ∧
      ∃ w k, State.Names {s with server := server} w k u := by
    intro u o ho
    obtain ⟨hu, w, k, id, hw, hid⟩ := h.contexts u o ho
    obtain ⟨c, hc⟩ := Option.ne_none_iff_exists'.mp hu
    exact ⟨by rw [hg.node u c hc]; exact Option.some_ne_none _, w, k, id, hg.wrapper w _ hw, hid⟩
  have hunmade : ∀ w, server.wrapper w = none → s.callable w = none ∧ s.ds w = none := by
    intro w hw
    refine h.unmade w (Option.eq_none_iff_forall_ne_some.mpr fun p hp => ?_)
    rw [hg.wrapper w p hp] at hw
    cases hw
  rcases created_cases hstep with he | ⟨a, ha, he⟩ <;> rw [he]
  · refine ⟨hwrapped, hzero, hcontexts, hunmade, fun w k u hw hu _ => ?_, ?_⟩
    · obtain ⟨hctx, hcb⟩ := agrees_node h hp hz hstep hw hu
      exact ⟨hctx, hcb⟩
    · show State.Progress _ s.pending
      rw [hp]
      trivial
  · refine ⟨hwrapped, hzero, hcontexts, hunmade, fun w k u hw hu _ => ?_, ?_⟩
    · obtain ⟨hctx, hcb⟩ := agrees_node h hp hz hstep hw hu
      refine ⟨hctx, fun hne => ?_⟩
      show Function.update s.callback a (some .method) u = some k
      by_cases hua : u = a
      · subst hua
        obtain ⟨id, hw, hid⟩ := hw
        have hclass := (entry_of_names hwrapped hw hid (not_asks hu)).2
        obtain rfl : Kind.method = k := Kind.nodeClass_injective (Option.some.inj (ha.symm.trans hclass))
        exact Function.update_self ..
      · rw [Function.update_of_ne hua]
        exact hcb hne
    · show State.Progress _ s.pending
      rw [hp]
      trivial

/-! ### Binding and connecting -/

/-- Another wrapper's node is another node. -/
theorem State.Bound.apart {s : State} (h : s.Bound) {w w' : Nat} {k l : Kind} {u v : Ua.NodeId}
    (hw : s.Names w k u) (hw' : s.Names w' l v) (hv : s.server.space.node v ≠ none) (hne : w' ≠ w) : v ≠ u := by
  intro he
  subst he
  exact hne (h.one hw' hw hv)

theorem bound_bind {s : State} {w : Nat} {id : NodeId} (h : s.Bound) (hp : s.pending = .idle)
    (hw : s.server.wrapper w = some (.method, id)) :
    State.Bound {s with
      callable := Function.update s.callable w (some s.made), made := s.made + 1, pending := .setCallback w} where
  wrapped := h.wrapped
  zeroFree := h.zeroFree
  contexts := h.contexts
  unmade := by
    intro v hv
    have hne : v ≠ w := by
      intro he
      subst he
      rw [hw] at hv
      cases hv
    exact ⟨(Function.update_of_ne hne ..).trans (h.unmade v hv).1, (h.unmade v hv).2⟩
  agrees := by
    intro v k u hv hu hne
    have hvw : v ≠ w := fun he => hne (congrArg some he.symm)
    obtain ⟨hctx, hcb⟩ := h.agrees v k u hv hu (by rw [hp]; exact (Option.some_ne_none _).symm)
    have hown : State.own {s with callable := Function.update s.callable w (some s.made)} v k = s.own v k :=
      own_callable s hvw _ k
    exact ⟨hctx.trans hown.symm, fun hne => hcb fun he => hne (hown.trans he)⟩
  progress := ⟨id, hw, fun _ _ _ => trivial⟩

theorem bound_connect {s : State} {w : Nat} {id : NodeId} (h : s.Bound) (hp : s.pending = .idle)
    (hw : s.server.wrapper w = some (.variable, id)) (ds : Option Nat) :
    State.Bound {s with made := s.made + 1, pending := .setSource w ds} where
  wrapped := h.wrapped
  zeroFree := h.zeroFree
  contexts := h.contexts
  unmade := h.unmade
  agrees := by
    intro v k u hv hu _
    obtain ⟨hctx, hcb⟩ := h.agrees v k u hv hu (by rw [hp]; exact (Option.some_ne_none _).symm)
    exact ⟨hctx, hcb⟩
  progress := ⟨id, hw, fun _ _ _ => trivial⟩

/-- The callback of the node in progress is no matter to the other wrappers. -/
theorem bound_setCallback {s : State} {w : Nat} {k : Kind} {id : NodeId} {p : Pending} (h : s.Bound)
    (hs : s.pending.wrapper = some w) (hp : p.wrapper = some w) (hw : s.server.wrapper w = some (k, id))
    (hprog : State.Progress {s.setCallback w k with pending := p} p) :
    State.Bound {s.setCallback w k with pending := p} := by
  obtain ⟨u, hnames, ⟨_, he⟩ | ⟨hnode, he⟩⟩ := setCallback_cases h.wrapped hw <;> rw [he] at hprog ⊢
  · refine ⟨h.wrapped, h.zeroFree, h.contexts, h.unmade, fun v l x hv hx hne => ?_, hprog⟩
    obtain ⟨hctx, hcb⟩ := h.agrees v l x hv hx fun hsv => hne (hp.trans (hs.symm.trans hsv))
    exact ⟨hctx, hcb⟩
  · refine ⟨h.wrapped, h.zeroFree, h.contexts, h.unmade, fun v l x hv hx hne => ?_, hprog⟩
    have hvw : v ≠ w := fun he => hne (hp.trans (congrArg some he.symm))
    obtain ⟨hctx, hcb⟩ := h.agrees v l x hv hx fun hsv => hne (hp.trans (hs.symm.trans hsv))
    refine ⟨hctx, fun hown => ?_⟩
    show Function.update s.callback u (some k) x = some l
    rw [Function.update_of_ne (h.apart hnames hv hx hvw)]
    exact hcb hown

/-- So is its context, and what the wrapper in progress owes is left to its next step. -/
theorem bound_setContext {s : State} {w : Nat} {k : Kind} {id : NodeId} {object : Option Nat} {p : Pending}
    (h : s.Bound) (hs : s.pending.wrapper = some w) (hw : s.server.wrapper w = some (k, id))
    (hnew : ∀ u, fromNodeId id = some u → s.server.space.node u ≠ none → p.wrapper ≠ some w →
      object = s.own w k ∧ s.callback u = some k)
    (hprog : State.Progress {s.setContext w object with pending := p} p) :
    State.Bound {s.setContext w object with pending := p} := by
  have hother : ∀ {v l x}, s.Names v l x → s.server.space.node x ≠ none → v ≠ w → s.Agrees v l x :=
    fun {v l x} hv hx hvw => h.agrees v l x hv hx fun hsv => hvw (Option.some.inj (hsv.symm.trans hs))
  obtain ⟨u, hnames, ⟨hnone, he⟩ | ⟨hnode, he⟩⟩ := setContext_cases h.wrapped hw object <;> rw [he] at hprog ⊢
  · refine ⟨h.wrapped, h.zeroFree, h.contexts, h.unmade, fun v l x hv hx _ => ?_, hprog⟩
    have hvw : v ≠ w := by
      intro hvw
      subst hvw
      obtain rfl : x = u := State.Names.unique hv hnames
      exact hx hnone
    obtain ⟨hctx, hcb⟩ := hother hv hx hvw
    exact ⟨hctx, hcb⟩
  · have hu : s.server.space.node u ≠ none := by rw [hnode]; exact Option.some_ne_none _
    refine ⟨h.wrapped, h.zeroFree, fun x o ho => ?_, h.unmade, fun v l x hv hx hne => ?_, hprog⟩
    · have ho : Function.update s.context u object x = some o := ho
      by_cases hxu : x = u
      · exact ⟨hxu ▸ hu, w, k, hxu ▸ hnames⟩
      · rw [Function.update_of_ne hxu] at ho
        exact h.contexts x o ho
    · by_cases hvw : v = w
      · subst hvw
        obtain rfl : x = u := State.Names.unique hv hnames
        obtain ⟨id', hw', hid'⟩ := hv
        obtain ⟨rfl, rfl⟩ := Prod.mk.inj (Option.some.inj (hw.symm.trans hw'))
        obtain ⟨hobject, hcb⟩ := hnew x hid' hx hne
        exact ⟨(Function.update_self ..).trans hobject, fun _ => hcb⟩
      · obtain ⟨hctx, hcb⟩ := hother hv hx hvw
        exact ⟨(Function.update_of_ne (h.apart hnames hv hx hvw) ..).trans hctx, hcb⟩

/-- The last step of `connectCallback`: the wrapper follows its node. -/
theorem bound_reset {s : State} {w : Nat} {ds : Option Nat} (h : s.Bound) (hp : s.pending = .resetSource w ds) :
    State.Bound {s with ds := Function.update s.ds w ds, pending := .idle} := by
  have hprog := h.progress
  rw [hp] at hprog
  obtain ⟨id, hw, hreached⟩ := hprog
  refine ⟨h.wrapped, h.zeroFree, h.contexts, fun v hv => ?_, fun v k u hv hu _ => ?_, trivial⟩
  · have hne : v ≠ w := by
      intro he
      subst he
      rw [hw] at hv
      cases hv
    exact ⟨(h.unmade v hv).1, (Function.update_of_ne hne ..).trans (h.unmade v hv).2⟩
  · by_cases hvw : v = w
    · subst hvw
      obtain ⟨id', hw', hid'⟩ := hv
      obtain ⟨rfl, rfl⟩ := Prod.mk.inj (Option.some.inj (hw.symm.trans hw'))
      obtain ⟨hcb, hctx⟩ := hreached u hid' hu
      have hown : Function.update s.ds v ds v = ds := Function.update_self ..
      exact ⟨hctx.trans hown.symm, fun _ => hcb⟩
    · obtain ⟨hctx, hcb⟩ := h.agrees v k u hv hu (by rw [hp]; exact fun he => hvw (Option.some.inj he).symm)
      have hown : State.own {s with ds := Function.update s.ds w ds} v k = s.own v k :=
        own_source s hvw _ k
      exact ⟨hctx.trans hown.symm, fun hne => hcb fun he => hne (hown.trans he)⟩

theorem bound_advance {s t : State} (h : s.Bound) (hstep : step s .advance = some t) : t.Bound := by
  have hprog := h.progress
  rcases step_advance hstep with
    ⟨w, hp, rfl⟩ | ⟨w, hp, rfl⟩ | ⟨w, ds, hp, rfl⟩ | ⟨w, ds, hp, rfl⟩ | ⟨w, ds, hp, rfl⟩
  · rw [hp] at hprog
    obtain ⟨id, hw, _⟩ := hprog
    refine bound_setCallback h (by rw [hp]; rfl) rfl hw ⟨id, by simpa using hw, fun u hu hnode => ?_⟩
    exact setCallback_sets h.wrapped hw hu (by simpa using hnode)
  · rw [hp] at hprog
    obtain ⟨id, hw, hcb⟩ := hprog
    exact bound_setContext h (by rw [hp]; rfl) hw (fun u hu hnode _ => ⟨rfl, hcb u hu hnode⟩) trivial
  · rw [hp] at hprog
    obtain ⟨id, hw, _⟩ := hprog
    refine bound_setCallback h (by rw [hp]; rfl) rfl hw ⟨id, by simpa using hw, fun u hu hnode => ?_⟩
    exact setCallback_sets h.wrapped hw hu (by simpa using hnode)
  · rw [hp] at hprog
    obtain ⟨id, hw, hcb⟩ := hprog
    refine bound_setContext h (by rw [hp]; rfl) hw (fun _ _ _ hne => absurd rfl hne)
      ⟨id, by simpa using hw, fun u hu hnode => ⟨?_, ?_⟩⟩
    · obtain ⟨_, he⟩ := setContext_eq s w ds
      rw [he]
      exact hcb u hu (by simpa using hnode)
    · exact setContext_sets h.wrapped hw hu (by simpa using hnode) ds
  · exact bound_reset h hp

theorem step_bound {s t : State} {op : Op} (h : s.Bound) (hz : op.ZeroFree) (hstep : step s op = some t) :
    t.Bound := by
  cases op with
  | node op =>
    obtain ⟨hp, server, hserver, rfl⟩ := step_node hstep
    exact bound_node h hp hz hserver
  | bindCallable w =>
    obtain ⟨hp, id, hw, rfl⟩ := step_bindCallable hstep
    exact bound_bind h hp hw
  | connectCallback w present =>
    obtain ⟨hp, id, hw, rfl⟩ := step_connectCallback hstep
    exact bound_connect h hp hw _
  | advance => exact bound_advance h hstep

/-- Whatever is created, bound and connected, at every moment and on every node there is: a dispatch
finds the callable that `MethodNode::invoke` runs, the data source its `VariableNode` owns, or nothing
where nothing was bound, unless a call on that very wrapper is in progress. -/
theorem reaches_own (space : AddressSpace) (ops : List Op) (hz : ∀ op ∈ ops, op.ZeroFree) :
    ∀ t ∈ Run.visited step (start space) ops, ∀ w u, t.server.space.node u ≠ none → t.pending.wrapper ≠ some w →
      (t.Names w .method u → t.reaches .method u = t.callable w) ∧
      (t.Names w .variable u → t.reaches .variable u = t.ds w) := by
  intro t ht w u hu hw
  have h : t.Bound := Run.holds_of_kept (I := State.Bound) (G := fun _ op => op.ZeroFree)
    (fun _ _ _ hs hg hstep => step_bound hs hg hstep) (bound_start space)
    (fun e he => hz e.2 (Run.edge_mem he)) t ht
  exact ⟨fun hnames => (h.agrees w .method u hnames hu hw).reaches,
    fun hnames => (h.agrees w .variable u hnames hu hw).reaches⟩

/-- A method created, bound and bound again. -/
def reboundOps : List Op := [.node (.create .method (.ofInt 1 7) (some ⟨1, .numeric 7⟩)), .bindCallable 0, .advance,
  .advance, .bindCallable 0, .advance, .advance]

theorem reaches_own_rebound :
    ∃ t, Run.final step (start emptySpace) reboundOps = some t ∧
      t.reaches .method ⟨1, .numeric 7⟩ = t.callable 0 ∧ t.callable 0 = some 1 := by
  obtain ⟨t, ht, hnode, hidle, hnames, hcallable⟩ : ∃ t, Run.final step (start emptySpace) reboundOps = some t ∧
      t.server.space.node ⟨1, .numeric 7⟩ ≠ none ∧ t.pending.wrapper ≠ some 0 ∧
      t.Names 0 .method ⟨1, .numeric 7⟩ ∧ t.callable 0 = some 1 :=
    ⟨_, rfl, by decide, by decide, ⟨.ofInt 1 7, rfl, rfl⟩, rfl⟩
  exact ⟨t, ht, (reaches_own emptySpace reboundOps (by decide) t (Run.final_mem_visited ht) 0 _ hnode hidle).1 hnames,
    hcallable⟩

/-- A method bound through the wrapper of `a`, looked up under `a` with a zero byte, and bound through
that wrapper: the first wrapper invokes what no client reaches. -/
theorem conflated_wrappers_differ : ∃ ops t, Run.final step (start emptySpace) ops = some t ∧
    t.pending = .idle ∧ ∃ u, t.Names 0 .method u ∧ t.server.space.node u ≠ none ∧
      t.reaches .method u ≠ t.callable 0 := by
  refine ⟨[.node (.create .method (.ofString 1 [0x61] .string) (some ⟨1, .string [0x61]⟩)), .bindCallable 0, .advance,
    .advance, .node (.get .method (.ofString 1 [0x61, 0] .string) false), .bindCallable 1, .advance, .advance],
    _, rfl, rfl, ⟨1, .string [0x61]⟩, ⟨.ofString 1 [0x61] .string, rfl, rfl⟩, ?_, ?_⟩
  · decide
  · decide

end ModernOpc.Server.Contexts
