import ModernOpc.Library.Run
import ModernOpc.Types.NodeId
import Mathlib.Logic.Function.Basic

/-! The server's node wrappers.

Three maps, `objects`, `methods` and `variables`, keep one wrapper for each node the
server created or looked up. A wrapper is stored under the id that was asked for, and
`emplace` keeps an older entry.

open62541 owns the nodes; its answers are inputs of the model. It refuses an id that
exists, and gives a node asked for under a numeric identifier 0 an id of its own, so
that no node ever has such an id (`AddressSpace`).

`coherent_iff`: the maps describe the address space, throughout a run, exactly if no
node is created under a numeric identifier 0, and none is created or found under an id
with a zero byte. -/
namespace ModernOpc.Server
open Library

/-! ### The address space -/

/-- `UA_NodeClass`. -/
inductive NodeClass where
  | unspecified | object | variable | method | objectType | variableType | referenceType | dataType | view
  deriving DecidableEq, Repr

/-- The request for an id of open62541's choice. -/
def AsksForId (u : Ua.NodeId) : Prop := u.identifier = .numeric 0

instance (u : Ua.NodeId) : Decidable (AsksForId u) := inferInstanceAs (Decidable (_ = _))

/-- The nodes by id. -/
structure AddressSpace where
  node : Ua.NodeId → Option NodeClass
  assigned : ∀ u, AsksForId u → node u = none

namespace AddressSpace

/-- A node asked for under `requested` can be added under `id`. -/
def Adds (space : AddressSpace) (requested id : Ua.NodeId) : Prop :=
  ¬ AsksForId id ∧ space.node id = none ∧ (¬ AsksForId requested → id = requested)

instance (space : AddressSpace) (requested id : Ua.NodeId) : Decidable (space.Adds requested id) :=
  inferInstanceAs (Decidable (_ ∧ _))

def add (space : AddressSpace) (id : Ua.NodeId) (c : NodeClass) (h : ¬ AsksForId id) : AddressSpace where
  node := Function.update space.node id (some c)
  assigned := fun u hu => (Function.update_of_ne (fun he : u = id => h (he ▸ hu)) ..).trans (space.assigned u hu)

/-- A node that was there is there still. -/
theorem add_node {space : AddressSpace} {id : Ua.NodeId} {c : NodeClass} (h : ¬ AsksForId id)
    (hid : space.node id = none) {u : Ua.NodeId} {d : NodeClass} (hu : space.node u = some d) :
    (space.add id c h).node u = some d := by
  have hne : u ≠ id := by
    intro he
    subst he
    rw [hid] at hu
    cases hu
  exact (Function.update_of_ne hne ..).trans hu

theorem add_self (space : AddressSpace) {id : Ua.NodeId} (c : NodeClass) (h : ¬ AsksForId id) :
    (space.add id c h).node id = some c := Function.update_self ..

end AddressSpace

/-! ### The maps -/

/-- The three maps, by the class of the wrappers they hold. -/
inductive Kind where
  | object
  | method
  | variable
  deriving DecidableEq, Repr

def Kind.nodeClass : Kind → NodeClass
  | .object => .object
  | .method => .method
  | .variable => .variable

theorem Kind.nodeClass_injective {k l : Kind} (h : k.nodeClass = l.nodeClass) : k = l := by
  cases k <;> cases l <;> first | rfl | cases h

/-- `std::unordered_map`, from keys to the addresses of wrappers. -/
abbrev NodeMap := NodeId → Option Nat

/-- `emplace`: an older entry stays. -/
def emplace (map : NodeMap) (id : NodeId) (ptr : Nat) : NodeMap :=
  if (map id).isSome then map else Function.update map id (some ptr)

/-- The server and its wrappers. `cache` is the maps `objects`, `methods` and `variables`, and
`returned` lists every wrapper returned so far. -/
structure State where
  space : AddressSpace
  cache : Kind → NodeMap
  wrapper : Nat → Option (Kind × NodeId)
  next : Nat
  returned : List (Kind × NodeId × Nat)

def start (space : AddressSpace) : State := ⟨space, fun _ _ => none, fun _ => none, 0, []⟩

namespace State

/-- `auto ptr = std::make_shared<…>(this, id)` and `….emplace(id, ptr)`. -/
def addWrapper (s : State) (k : Kind) (id : NodeId) : State :=
  {s with
    cache := Function.update s.cache k (emplace (s.cache k) id s.next)
    wrapper := Function.update s.wrapper s.next (some (k, id))
    next := s.next + 1}

end State

/-- What the three `create…` have in common: the id the node was added under comes from
open62541, `none` where it refuses. No result where it cannot answer so; no wrapper
where it refuses or the id cannot be converted. -/
def create (k : Kind) (s : State) (requestedId : NodeId) (answer : Option Ua.NodeId) :
    Option (State × Option Nat) :=
  match fromNodeId requestedId, answer with
  | some requested, some id =>
    if h : s.space.Adds requested id then
      some ({s with space := s.space.add id k.nodeClass h.1}.addWrapper k requestedId, some s.next)
    else none
  | _, _ => some (s, none)

/-- What the three `get…` have in common; `fails` where `UA_Server_readNodeClass` fails
although there is a node. -/
def get (k : Kind) (s : State) (id : NodeId) (fails : Bool) : State × Option Nat :=
  match s.cache k id with
  | some ptr => (s, some ptr)
  | none =>
    match fromNodeId id with
    | none => (s, none)
    | some u =>
      match s.space.node u with
      | none => (s, none)
      | some c =>
        if fails ∨ c ≠ k.nodeClass then (s, none)
        else (s.addWrapper k id, some s.next)

def createObject := create .object
def createMethod := create .method
def createVariable := create .variable
def getObject := get .object
def getMethod := get .method
def getVariable := get .variable

/-! ### Runs -/

/-- A call on the server, or a node added by someone else. -/
inductive Op where
  | create (k : Kind) (requestedId : NodeId) (answer : Option Ua.NodeId)
  | get (k : Kind) (id : NodeId) (fails : Bool)
  | added (id : Ua.NodeId) (c : NodeClass)

def State.returning (s : State) (k : Kind) (id : NodeId) (ptr : Option Nat) : State :=
  {s with returned := (ptr.toList.map fun p => (k, id, p)) ++ s.returned}

def step (s : State) : Op → Option State
  | .create .object id answer => (createObject s id answer).map fun r => r.1.returning .object id r.2
  | .create .method id answer => (createMethod s id answer).map fun r => r.1.returning .method id r.2
  | .create .variable id answer => (createVariable s id answer).map fun r => r.1.returning .variable id r.2
  | .get .object id fails => let r := getObject s id fails; some (r.1.returning .object id r.2)
  | .get .method id fails => let r := getMethod s id fails; some (r.1.returning .method id r.2)
  | .get .variable id fails => let r := getVariable s id fails; some (r.1.returning .variable id r.2)
  | .added id c =>
    if h : ¬ AsksForId id ∧ s.space.node id = none then some {s with space := s.space.add id c h.1} else none

theorem step_create (s : State) (k : Kind) (id : NodeId) (answer : Option Ua.NodeId) :
    step s (.create k id answer) = (create k s id answer).map fun r => r.1.returning k id r.2 := by
  cases k <;> rfl

theorem step_get (s : State) (k : Kind) (id : NodeId) (fails : Bool) :
    step s (.get k id fails) = some ((get k s id fails).1.returning k id (get k s id fails).2) := by
  cases k <;> rfl

theorem step_added {s t : State} {id : Ua.NodeId} {c : NodeClass} (h : step s (.added id c) = some t) :
    ∃ ha : ¬ AsksForId id ∧ s.space.node id = none, t = {s with space := s.space.add id c ha.1} := by
  have h : (if h : ¬ AsksForId id ∧ s.space.node id = none then
    some {s with space := s.space.add id c h.1} else none) = some t := h
  split at h
  · next ha => exact ⟨ha, (Option.some.inj h).symm⟩
  · cases h

/-! ### Coherence -/

/-- The maps describe the address space. -/
structure State.Coherent (s : State) : Prop where
  /-- An entry's wrapper is of the map's class and has the key as its id. -/
  wraps : ∀ k id p, s.cache k id = some p → s.wrapper p = some (k, id)
  /-- A key names an existing node of the map's class: the node's id is the key, and the key
  leads to it. -/
  names : ∀ k id p, s.cache k id = some p →
    ∃ u, fromUaNodeId u = id ∧ fromNodeId id = some u ∧ s.space.node u = some k.nodeClass
  /-- No key occurs in two maps. -/
  apart : ∀ k k' id p p', s.cache k id = some p → s.cache k' id = some p' → k = k'
  /-- What was returned for an id is stored under it, and returned for it again. -/
  stored : ∀ k id p, (k, id, p) ∈ s.returned →
    s.cache k id = some p ∧ ∀ fails, get k s id fails = (s, some p)

/-- What holds of the wrappers in any case: one whose id does not ask for an id is the one
stored under it, and names a node of its class. -/
structure State.Wrapped (s : State) : Prop where
  wraps : ∀ k id p, s.cache k id = some p → s.wrapper p = some (k, id)
  named : ∀ k id p, s.wrapper p = some (k, id) →
    ∃ u, fromNodeId id = some u ∧
      (¬ AsksForId u → s.cache k id = some p ∧ s.space.node u = some k.nodeClass)
  made : ∀ p w, s.wrapper p = some w → p < s.next
  returned : ∀ k id p, (k, id, p) ∈ s.returned → s.wrapper p = some (k, id)

/-- No wrapper's id asks for an id or is cut. -/
def State.Assigned (s : State) : Prop :=
  ∀ p k id u, s.wrapper p = some (k, id) → fromNodeId id = some u → ¬ AsksForId u ∧ id.ZeroFree

theorem wrapped_start (space : AddressSpace) : (start space).Wrapped where
  wraps := by intro k id p h; cases h
  named := by intro k id p h; cases h
  made := by intro p w h; cases h
  returned := by intro k id p h; cases h

theorem coherent_of_assigned {s : State} (h : s.Wrapped) (ha : s.Assigned) : s.Coherent := by
  have hnames : ∀ k id p, s.cache k id = some p →
      ∃ u, fromUaNodeId u = id ∧ fromNodeId id = some u ∧ s.space.node u = some k.nodeClass := by
    intro k id p hp
    have hw := h.wraps k id p hp
    obtain ⟨u, hu, hn⟩ := h.named k id p hw
    obtain ⟨hasks, hzero⟩ := ha p k id u hw hu
    exact ⟨u, (NodeId.fromUaNodeId_eq_iff hu).mpr hzero, hu, (hn hasks).2⟩
  refine ⟨h.wraps, hnames, ?_, ?_⟩
  · intro k k' id p p' hp hp'
    obtain ⟨u, _, hu, hk⟩ := hnames k id p hp
    obtain ⟨u', _, hu', hk'⟩ := hnames k' id p' hp'
    rw [hu, Option.some.injEq] at hu'
    subst hu'
    rw [hk, Option.some.injEq] at hk'
    exact Kind.nodeClass_injective hk'
  · intro k id p hp
    have hw := h.returned k id p hp
    obtain ⟨u, hu, hn⟩ := h.named k id p hw
    have hcache := (hn (ha p k id u hw hu).1).1
    exact ⟨hcache, fun fails => by simp [get, hcache]⟩

/-! ### One step -/

theorem emplace_kept {map : NodeMap} {id id' : NodeId} {p q : Nat} (h : map id' = some q) :
    emplace map id p id' = some q := by
  cases hid : map id with
  | some r => simpa [emplace, hid] using h
  | none =>
    have hne : id' ≠ id := by
      intro he
      subst he
      rw [hid] at h
      cases h
    simpa [emplace, hid, hne] using h

theorem emplace_new {map : NodeMap} {id : NodeId} (p : Nat) (h : map id = none) :
    emplace map id p id = some p := by
  simp [emplace, h]

/-- An entry is an old one, or the one added. -/
theorem emplace_cases {map : NodeMap} {id id' : NodeId} {p q : Nat} (h : emplace map id p id' = some q) :
    map id' = some q ∨ id' = id ∧ q = p := by
  cases hid : map id with
  | some r => exact .inl (by simpa [emplace, hid] using h)
  | none =>
    by_cases he : id' = id
    · subst he
      rw [emplace_new p hid, Option.some.injEq] at h
      exact .inr ⟨rfl, h.symm⟩
    · exact .inl (by simpa [emplace, hid, he] using h)

namespace State
variable {s : State}

theorem addWrapper_cache_kept {k l : Kind} {id id' : NodeId} {q : Nat} (h : s.cache l id' = some q) :
    (s.addWrapper k id).cache l id' = some q := by
  by_cases hl : l = k
  · subst hl
    simpa [addWrapper] using emplace_kept h
  · simpa [addWrapper, hl] using h

theorem addWrapper_cache_cases {k l : Kind} {id id' : NodeId} {q : Nat}
    (h : (s.addWrapper k id).cache l id' = some q) :
    s.cache l id' = some q ∨ l = k ∧ id' = id ∧ q = s.next := by
  by_cases hl : l = k
  · subst hl
    rcases emplace_cases (by simpa [addWrapper] using h) with h | ⟨rfl, rfl⟩
    · exact .inl h
    · exact .inr ⟨rfl, rfl, rfl⟩
  · exact .inl (by simpa [addWrapper, hl] using h)

theorem addWrapper_wrapper_kept (hs : s.Wrapped) {k : Kind} {id : NodeId} {p : Nat} {w : Kind × NodeId}
    (h : s.wrapper p = some w) : (s.addWrapper k id).wrapper p = some w := by
  have hne : p ≠ s.next := Nat.ne_of_lt (hs.made p w h)
  simpa [addWrapper, hne] using h

theorem addWrapper_wrapper_cases {k : Kind} {id : NodeId} {p : Nat} {w : Kind × NodeId}
    (h : (s.addWrapper k id).wrapper p = some w) :
    s.wrapper p = some w ∨ p = s.next ∧ w = (k, id) := by
  by_cases hp : p = s.next
  · subst hp
    exact .inr ⟨rfl, by simpa [addWrapper, eq_comm] using h⟩
  · exact .inl (by simpa [addWrapper, hp] using h)

/-- A wrapper may be added that asks for an id, or for a node that has no entry yet. -/
theorem Wrapped.addWrapper (hs : s.Wrapped) {k : Kind} {id : NodeId} {u : Ua.NodeId}
    (hu : fromNodeId id = some u)
    (hk : ¬ AsksForId u → s.cache k id = none ∧ s.space.node u = some k.nodeClass) :
    (s.addWrapper k id).Wrapped where
  wraps := by
    intro l id' p h
    rcases addWrapper_cache_cases h with h | ⟨rfl, rfl, rfl⟩
    · exact addWrapper_wrapper_kept hs (hs.wraps l id' p h)
    · simp [State.addWrapper]
  named := by
    intro l id' p h
    rcases addWrapper_wrapper_cases h with h | ⟨rfl, he⟩
    · obtain ⟨v, hv, hn⟩ := hs.named l id' p h
      exact ⟨v, hv, fun ha => ⟨addWrapper_cache_kept (hn ha).1, (hn ha).2⟩⟩
    · cases he
      refine ⟨u, hu, fun ha => ⟨?_, (hk ha).2⟩⟩
      simpa [State.addWrapper] using emplace_new s.next (hk ha).1
  made := by
    intro p w h
    rcases addWrapper_wrapper_cases h with h | ⟨rfl, _⟩
    · exact Nat.lt_succ_of_lt (hs.made p w h)
    · exact Nat.lt_succ_self _
  returned := fun l id' p h => addWrapper_wrapper_kept hs (hs.returned l id' p h)

theorem Wrapped.addNode (hs : s.Wrapped) {id : Ua.NodeId} {c : NodeClass} (h : ¬ AsksForId id)
    (hid : s.space.node id = none) : {s with space := s.space.add id c h}.Wrapped where
  wraps := hs.wraps
  named := by
    intro k id' p hp
    obtain ⟨u, hu, hn⟩ := hs.named k id' p hp
    exact ⟨u, hu, fun ha => ⟨(hn ha).1, AddressSpace.add_node h hid (hn ha).2⟩⟩
  made := hs.made
  returned := hs.returned

theorem Wrapped.returning (hs : s.Wrapped) {k : Kind} {id : NodeId} {ptr : Option Nat}
    (h : ∀ p, ptr = some p → s.wrapper p = some (k, id)) : (s.returning k id ptr).Wrapped where
  wraps := hs.wraps
  named := hs.named
  made := hs.made
  returned := by
    intro l id' p hp
    rcases List.mem_append.mp hp with hp | hp
    · obtain ⟨q, hq, he⟩ := List.mem_map.mp hp
      cases he
      exact h p (Option.mem_toList.mp hq)
    · exact hs.returned l id' p hp

end State

/-- What an accepted `create…` does. -/
theorem create_cases {k : Kind} {s t : State} {id : NodeId} {answer : Option Ua.NodeId} {ptr : Option Nat}
    (h : create k s id answer = some (t, ptr)) :
    (t = s ∧ ptr = none ∧ (fromNodeId id = none ∨ answer = none)) ∨
    ∃ requested assigned, fromNodeId id = some requested ∧ answer = some assigned ∧
      ∃ ha : s.space.Adds requested assigned,
        t = {s with space := s.space.add assigned k.nodeClass ha.1}.addWrapper k id ∧ ptr = some s.next := by
  unfold create at h
  cases hid : fromNodeId id with
  | none =>
    simp only [hid, Option.some.injEq, Prod.mk.injEq] at h
    exact .inl ⟨h.1.symm, h.2.symm, .inl rfl⟩
  | some requested =>
    cases answer with
    | none =>
      simp only [hid, Option.some.injEq, Prod.mk.injEq] at h
      exact .inl ⟨h.1.symm, h.2.symm, .inr rfl⟩
    | some assigned =>
      simp only [hid] at h
      split at h
      · next ha =>
        cases h
        exact .inr ⟨requested, assigned, rfl, rfl, ha, rfl, rfl⟩
      · cases h

/-- What a `get…` does. -/
theorem get_cases (k : Kind) (s : State) (id : NodeId) (fails : Bool) :
    (∃ p, s.cache k id = some p ∧ get k s id fails = (s, some p)) ∨
    get k s id fails = (s, none) ∨
    ∃ u, fails = false ∧ s.cache k id = none ∧ fromNodeId id = some u ∧ s.space.node u = some k.nodeClass ∧
      get k s id fails = (s.addWrapper k id, some s.next) := by
  unfold get
  split
  · next p hp => exact .inl ⟨p, hp, rfl⟩
  · next hnone =>
    split
    · exact .inr (.inl rfl)
    · next u hu =>
      split
      · exact .inr (.inl rfl)
      · next c hc =>
        split
        · exact .inr (.inl rfl)
        · next hcond =>
          have hck : c = k.nodeClass := Classical.byContradiction fun hne => hcond (.inr hne)
          exact .inr (.inr ⟨u, by simpa using fun hf => hcond (.inl hf), hnone, hu, hck ▸ hc, rfl⟩)

theorem addWrapper_wrapper_new (s : State) (k : Kind) (id : NodeId) :
    (s.addWrapper k id).wrapper s.next = some (k, id) := Function.update_self ..

/-- An id that is added anew has no entry. -/
theorem State.Wrapped.no_entry {s : State} (hs : s.Wrapped) {k : Kind} {id : NodeId} {u : Ua.NodeId}
    (hu : fromNodeId id = some u) (ha : ¬ AsksForId u) (hn : s.space.node u = none) : s.cache k id = none := by
  refine Option.eq_none_iff_forall_ne_some.mpr fun p hp => ?_
  obtain ⟨v, hv, hnamed⟩ := hs.named k id p (hs.wraps k id p hp)
  rw [hu, Option.some.injEq] at hv
  subst hv
  rw [(hnamed ha).2] at hn
  cases hn

theorem create_wrapped {k : Kind} {s t : State} {id : NodeId} {answer : Option Ua.NodeId} {ptr : Option Nat}
    (hs : s.Wrapped) (h : create k s id answer = some (t, ptr)) : (t.returning k id ptr).Wrapped := by
  rcases create_cases h with ⟨rfl, rfl, _⟩ | ⟨requested, assigned, hr, _, ha, rfl, rfl⟩
  · exact hs.returning fun p hp => by cases hp
  · have hadded := (hs.addNode (c := k.nodeClass) ha.1 ha.2.1).addWrapper (k := k) hr fun hasks => by
      have he := ha.2.2 hasks
      subst he
      exact ⟨hs.no_entry hr hasks ha.2.1, AddressSpace.add_self s.space k.nodeClass ha.1⟩
    refine hadded.returning fun p hp => ?_
    cases hp
    exact addWrapper_wrapper_new _ k id

theorem get_wrapped {k : Kind} {s : State} {id : NodeId} {fails : Bool} (hs : s.Wrapped) :
    ((get k s id fails).1.returning k id (get k s id fails).2).Wrapped := by
  rcases get_cases k s id fails with ⟨p, hp, he⟩ | he | ⟨u, -, hnone, hu, hc, he⟩ <;> rw [he]
  · refine hs.returning fun q hq => ?_
    cases hq
    exact hs.wraps k id p hp
  · exact hs.returning fun q hq => by cases hq
  · refine (hs.addWrapper hu fun _ => ⟨hnone, hc⟩).returning fun q hq => ?_
    cases hq
    exact addWrapper_wrapper_new s k id

/-- Every step keeps the wrappers as they must be in any case. -/
theorem step_wrapped {s t : State} {op : Op} (hs : s.Wrapped) (h : step s op = some t) : t.Wrapped := by
  cases op with
  | create k id answer =>
    rw [step_create] at h
    obtain ⟨⟨t', ptr⟩, hc, rfl⟩ := Option.map_eq_some_iff.mp h
    exact create_wrapped hs hc
  | get k id fails =>
    rw [step_get, Option.some.injEq] at h
    exact h ▸ get_wrapped hs
  | added id c =>
    obtain ⟨hadd, rfl⟩ := step_added h
    exact hs.addNode hadd.1 hadd.2

/-- A step takes no wrapper and no node away. -/
structure State.Grows (s t : State) : Prop where
  wrapper : ∀ p w, s.wrapper p = some w → t.wrapper p = some w
  node : ∀ u c, s.space.node u = some c → t.space.node u = some c

theorem create_grows {k : Kind} {s t : State} {id : NodeId} {answer : Option Ua.NodeId} {ptr : Option Nat}
    (hs : s.Wrapped) (h : create k s id answer = some (t, ptr)) : s.Grows t := by
  rcases create_cases h with ⟨rfl, _, _⟩ | ⟨requested, assigned, _, _, ha, rfl, _⟩
  · exact ⟨fun _ _ hp => hp, fun _ _ hu => hu⟩
  · exact ⟨fun p w hp => State.addWrapper_wrapper_kept (hs.addNode ha.1 ha.2.1) hp,
      fun u c hu => AddressSpace.add_node ha.1 ha.2.1 hu⟩

theorem step_grows {s t : State} {op : Op} (hs : s.Wrapped) (h : step s op = some t) : s.Grows t := by
  cases op with
  | create k id answer =>
    rw [step_create] at h
    obtain ⟨⟨t', ptr⟩, hc, rfl⟩ := Option.map_eq_some_iff.mp h
    exact ⟨(create_grows hs hc).wrapper, (create_grows hs hc).node⟩
  | get k id fails =>
    rw [step_get, Option.some.injEq] at h
    subst h
    rcases get_cases k s id fails with ⟨p, _, he⟩ | he | ⟨u, _, _, _, _, he⟩ <;> rw [he]
    · exact ⟨fun _ _ hp => hp, fun _ _ hu => hu⟩
    · exact ⟨fun _ _ hp => hp, fun _ _ hu => hu⟩
    · exact ⟨fun p w hp => State.addWrapper_wrapper_kept hs hp, fun _ _ hu => hu⟩
  | added id c =>
    obtain ⟨hadd, rfl⟩ := step_added h
    exact ⟨fun _ _ hp => hp, fun u d hu => AddressSpace.add_node hadd.1 hadd.2 hu⟩

/-- What an operation must respect: no node is created under an id that asks for one, and none is
created or found under an id that is cut. -/
def Respects (s : State) : Op → Prop
  | .create _ id (some _) => ∀ u, fromNodeId id = some u → ¬ AsksForId u ∧ id.ZeroFree
  | .get k id false => ∀ u, fromNodeId id = some u → s.space.node u = some k.nodeClass → id.ZeroFree
  | _ => True

/-- Then no wrapper has such an id. -/
theorem step_assigned {s t : State} {op : Op} (ha : s.Assigned) (hg : Respects s op)
    (h : step s op = some t) : t.Assigned := by
  have hnew : ∀ {s₁ : State} {k : Kind} {id : NodeId} {u : Ua.NodeId}, s₁.Assigned → fromNodeId id = some u →
      ¬ AsksForId u → id.ZeroFree → (s₁.addWrapper k id).Assigned := by
    intro s₁ k id u ha hu hasks hzero p l id' v hp hv
    rcases State.addWrapper_wrapper_cases hp with hp | ⟨_, he⟩
    · exact ha p l id' v hp hv
    · cases he
      rw [hu, Option.some.injEq] at hv
      exact ⟨hv ▸ hasks, hzero⟩
  cases op with
  | create k id answer =>
    rw [step_create] at h
    obtain ⟨⟨t', ptr⟩, hc, rfl⟩ := Option.map_eq_some_iff.mp h
    rcases create_cases hc with ⟨rfl, rfl, _⟩ | ⟨requested, assigned, hr, rfl, hadd, rfl, rfl⟩
    · exact ha
    · have hspace : ({s with space := s.space.add assigned k.nodeClass hadd.1} : State).Assigned := ha
      exact hnew hspace hr (hg requested hr).1 (hg requested hr).2
  | get k id fails =>
    rw [step_get, Option.some.injEq] at h
    subst h
    rcases get_cases k s id fails with ⟨p, hp, he⟩ | he | ⟨u, rfl, hnone, hu, hc, he⟩ <;> rw [he]
    · exact ha
    · exact ha
    · refine hnew ha hu (fun hasks => ?_) (hg u hu hc)
      rw [s.space.assigned u hasks] at hc
      cases hc
  | added id c =>
    obtain ⟨_, rfl⟩ := step_added h
    exact ha

/-- An id that is stored names a node: it does not ask for one and is not cut. -/
theorem State.Coherent.exact {s : State} (h : s.Coherent) {k : Kind} {id : NodeId} {p : Nat}
    (hp : s.cache k id = some p) {u : Ua.NodeId} (hu : fromNodeId id = some u) : ¬ AsksForId u ∧ id.ZeroFree := by
  obtain ⟨v, hid, hv, hnode⟩ := h.names k id p hp
  cases hu.symm.trans hv
  refine ⟨fun hasks => ?_, (NodeId.fromUaNodeId_eq_iff hu).mp hid⟩
  rw [s.space.assigned u hasks] at hnode
  cases hnode

/-- The id of a wrapper that is added is stored. -/
theorem addWrapper_stores (s : State) (k : Kind) (id : NodeId) : ∃ p, (s.addWrapper k id).cache k id = some p := by
  cases hold : s.cache k id with
  | none => exact ⟨_, by simpa [State.addWrapper] using emplace_new s.next hold⟩
  | some p => exact ⟨p, State.addWrapper_cache_kept hold⟩

/-- So is the id of a node that is found. -/
theorem get_stores {s : State} {k : Kind} {id : NodeId} {u : Ua.NodeId} (hu : fromNodeId id = some u)
    (hnode : s.space.node u = some k.nodeClass) : ∃ p, (get k s id false).1.cache k id = some p := by
  cases hcache : s.cache k id with
  | some p => exact ⟨p, by simp [get, hcache]⟩
  | none =>
    have hget : get k s id false = (s.addWrapper k id, some s.next) := by simp [get, hcache, hu, hnode]
    rw [hget]
    exact addWrapper_stores s k id

/-- A node created or found under another id than its own is stored under a key that does not name it. -/
theorem step_incoherent {s t : State} {op : Op} (hg : ¬ Respects s op) (h : step s op = some t) :
    ¬ t.Coherent := by
  intro hc
  cases op with
  | create k id answer =>
    rw [step_create] at h
    obtain ⟨⟨t', ptr⟩, hcreate, rfl⟩ := Option.map_eq_some_iff.mp h
    rcases create_cases hcreate with ⟨_, _, hid | rfl⟩ | ⟨requested, assigned, hr, rfl, hadd, rfl, rfl⟩
    · refine hg ?_
      cases answer with
      | none => trivial
      | some assigned =>
        intro u hu
        rw [hid] at hu
        cases hu
    · exact hg trivial
    · obtain ⟨p, hp⟩ := addWrapper_stores {s with space := s.space.add assigned k.nodeClass hadd.1} k id
      exact hg fun u hu => hc.exact (k := k) (p := p) hp hu
  | get k id fails =>
    cases fails with
    | true => exact hg trivial
    | false =>
      rw [step_get, Option.some.injEq] at h
      subst h
      refine hg fun u hu hnode => ?_
      obtain ⟨p, hp⟩ := get_stores hu hnode
      exact (hc.exact (k := k) (p := p) hp hu).2
  | added id c => exact hg trivial

/-- Every state of a run is coherent exactly if the run creates no node under a numeric
identifier 0, and creates and finds none under an id with a zero byte. -/
theorem coherent_iff (space : AddressSpace) (ops : List Op) :
    (∀ t ∈ Run.visited step (start space) ops, t.Coherent) ↔
      ∀ e ∈ Run.edges step (start space) ops, Respects e.1 e.2 :=
  Run.holds_iff_guarded (I := fun s => s.Wrapped ∧ s.Assigned) (P := State.Coherent) (G := Respects)
    (fun _ hs => coherent_of_assigned hs.1 hs.2)
    (fun _ _ _ hs hg h => ⟨step_wrapped hs.1 h, step_assigned hs.2 hg h⟩)
    (fun _ _ _ _ => step_incoherent) ⟨wrapped_start space, fun p k id u hp => by cases hp⟩ ops

theorem incoherent_of {s t : State} {op : Op} (hstep : step s op = some t) (hg : ¬ Respects s op) :
    ¬ ∀ t ∈ Run.visited step s [op], t.Coherent := fun h =>
  step_incoherent hg hstep (h t (Run.final_mem_visited (by simp [Run.final, hstep])))

/-- No nodes. -/
def emptySpace : AddressSpace := ⟨fun _ => none, fun _ _ => rfl⟩

/-- An object created under `ns=1;i=0` is stored under an id that no node has, one created under that of
`a`, a zero byte and `b` under another id than its own. -/
theorem create_asking_incoherent :
    (¬ ∀ t ∈ Run.visited step (start emptySpace) [.create .object (.ofInt 1 0) (some ⟨1, .numeric 50000⟩)],
      t.Coherent) ∧
    ¬ ∀ t ∈ Run.visited step (start emptySpace)
      [.create .object (.ofString 1 [0x61, 0, 0x62] .string) (some ⟨1, .string [0x61]⟩)], t.Coherent :=
  ⟨incoherent_of rfl fun hr => (hr ⟨1, .numeric 0⟩ rfl).1 rfl,
    incoherent_of rfl fun hr => absurd (hr ⟨1, .string [0x61]⟩ rfl).2 (by decide)⟩

end ModernOpc.Server
