import ModernOpc.Server.Nodes
import ModernOpc.Types.Key

/-! The server's maps as hash maps.

The three maps are `std::unordered_map`s with node ids as keys. `find_after` says what
emplacing leaves in them, from the laws of the key alone: under each key the first wrapper
that was emplaced under an equal one. `visited_stored` carries this to the server: at each point
of a run its maps are such hash maps of the wrappers made so far.

`nodeId_lawful_key`: a node id is a lawful key, and a lookup succeeds exactly for the ids
that were inserted. -/
namespace ModernOpc.Server
open Library

variable {std : StdHash}

/-! ### Emplacing and finding -/

/-- The maps `objects`, `methods` and `variables`. -/
abbrev Caches (std : StdHash) := Kind → Std.HashMap (Key std) Nat

/-- A wrapper and the map and the key it is emplaced under. -/
structure Entry (std : StdHash) where
  kind : Kind
  key : Key std
  ptr : Nat

namespace Caches

def empty : Caches std := fun _ => ∅

/-- `….find(id)`. -/
def find (caches : Caches std) (k : Kind) (id : Key std) : Option Nat := (caches k)[id]?

/-- `….emplace(id, ptr)`. -/
def emplace (caches : Caches std) (e : Entry std) : Caches std :=
  Function.update caches e.kind ((caches e.kind).insertIfNew e.key e.ptr)

/-- The maps after entries were emplaced one after the other. -/
def after (entries : List (Entry std)) : Caches std := entries.foldl emplace empty

@[simp] theorem find_empty (k : Kind) (id : Key std) : find empty k id = none :=
  Std.HashMap.getElem?_empty

end Caches

/-- The entry is one for the key, in the map. -/
def Entry.Under (e : Entry std) (k : Kind) (id : Key std) : Bool := e.kind = k && e.key == id

namespace Caches

/-- An entry is found under its key where nothing was before, and changes nothing else. -/
theorem find_emplace (caches : Caches std) (e : Entry std) (k : Kind) (id : Key std) :
    (caches.emplace e).find k id = (caches.find k id).or (if e.Under k id then some e.ptr else none) := by
  unfold find emplace Entry.Under
  by_cases hk : k = e.kind
  · subst hk
    rw [Function.update_self, Std.HashMap.getElem?_insertIfNew]
    by_cases hid : (e.key == id) = true
    · have hsame : (caches e.kind)[e.key]? = (caches e.kind)[id]? := Std.HashMap.getElem?_congr hid
      by_cases hmem : e.key ∈ caches e.kind <;> simp [hid, hmem, ← hsame]
    · simp [hid]
  · simp [hk, Ne.symm hk]

theorem find_foldl (caches : Caches std) (entries : List (Entry std)) (k : Kind) (id : Key std) :
    (entries.foldl emplace caches).find k id =
      (caches.find k id).or ((entries.find? (·.Under k id)).map (·.ptr)) := by
  induction entries generalizing caches with
  | nil => simp
  | cons e rest ih =>
    rw [List.foldl_cons, ih, find_emplace, List.find?_cons]
    cases e.Under k id <;> cases caches.find k id <;> simp

/-- What is found is the first entry under the key. -/
theorem find_after (entries : List (Entry std)) (k : Kind) (id : Key std) :
    (after entries).find k id = (entries.find? (·.Under k id)).map (·.ptr) := by
  rw [after, find_foldl, find_empty, Option.none_or]

/-- A lookup succeeds exactly for the keys an entry was emplaced under. -/
theorem find_isSome_iff (entries : List (Entry std)) (k : Kind) (id : Key std) :
    ((after entries).find k id).isSome ↔ ∃ e ∈ entries, e.kind = k ∧ e.key.id.equal id.id = some true := by
  rw [find_after, Option.isSome_map, List.find?_isSome]
  simp only [Entry.Under, Bool.and_eq_true, decide_eq_true_iff, Key.beq_iff_equal]

end Caches

/-! ### The server's maps -/

theorem emplace_eq (map : NodeMap) (id id' : NodeId) (ptr : Nat) :
    Server.emplace map id ptr id' = (map id').or (if id = id' then some ptr else none) := by
  unfold Server.emplace
  by_cases he : id' = id
  · subst he
    cases hid : map id' <;> simp [hid]
  · cases hid : map id <;> simp [Ne.symm he, he]

/-- The server's wrappers are those of the entries, and its maps what these leave. -/
structure State.Stores (s : State) (entries : List (Entry std)) : Prop where
  wrapper : ∀ k (id : Key std) p, ⟨k, id, p⟩ ∈ entries ↔ s.wrapper p = some (k, id.id)
  cache : ∀ k (id : Key std), (Caches.after entries).find k id = s.cache k id.id

namespace State
variable {s t : State} {entries : List (Entry std)}

theorem stores_start (space : AddressSpace) : (start space).Stores ([] : List (Entry std)) where
  wrapper k id p := by simp [start]
  cache k id := Caches.find_empty k id

/-- A wrapper that is made is emplaced. -/
theorem Stores.addWrapper (h : s.Stores entries) (hs : s.Wrapped) (k : Kind) (id : Key std) :
    (s.addWrapper k id.id).Stores (entries ++ [⟨k, id, s.next⟩]) where
  wrapper l id' p := by
    rw [List.mem_append, List.mem_singleton, h.wrapper]
    by_cases hp : p = s.next
    · subst hp
      have hfree : s.wrapper s.next = none := Option.eq_none_iff_forall_ne_some.mpr fun w hw =>
        Nat.lt_irrefl _ (hs.made s.next w hw)
      rw [addWrapper_wrapper_new, hfree]
      simp [Key.ext_iff, eq_comm]
    · simp [State.addWrapper, hp]
  cache l id' := by
    have hadded : (Caches.after (entries ++ [⟨k, id, s.next⟩])).find l id' =
        ((Caches.after entries).emplace ⟨k, id, s.next⟩).find l id' := by
      simp only [Caches.after, List.foldl_append]
      rfl
    rw [hadded, Caches.find_emplace, h.cache]
    by_cases hl : l = k
    · subst hl
      have hcache : (s.addWrapper l id.id).cache l = Server.emplace (s.cache l) id.id s.next :=
        Function.update_self ..
      rw [hcache, emplace_eq]
      simp [Entry.Under]
    · have hcache : (s.addWrapper k id.id).cache l = s.cache l := Function.update_of_ne hl ..
      rw [hcache]
      simp [Entry.Under, Ne.symm hl]

theorem Stores.congr (h : s.Stores entries) (hwrapper : t.wrapper = s.wrapper) (hcache : t.cache = s.cache) :
    t.Stores entries where
  wrapper k id p := by rw [h.wrapper, hwrapper]
  cache k id := by rw [h.cache, hcache]

end State

/-- A step emplaces what it makes. -/
theorem step_stores {s t : State} {op : Op} {entries : List (Entry std)} (h : s.Stores entries)
    (hs : s.Wrapped) (hstep : step s op = some t) : ∃ new, t.Stores (entries ++ new) := by
  have hsame : ∀ {u : State}, u.wrapper = s.wrapper → u.cache = s.cache → ∃ new, u.Stores (entries ++ new) :=
    fun hw hc => ⟨[], by rw [List.append_nil]; exact h.congr hw hc⟩
  cases op with
  | create k id answer =>
    rw [step_create] at hstep
    obtain ⟨⟨t', ptr⟩, hc, rfl⟩ := Option.map_eq_some_iff.mp hstep
    rcases create_cases hc with ⟨rfl, rfl, _⟩ | ⟨requested, assigned, hr, _, ha, rfl, rfl⟩
    · exact hsame rfl rfl
    · let key : Key std := ⟨id, (NodeId.matching_of_fromNodeId hr).obtained⟩
      have hspace : {s with space := s.space.add assigned k.nodeClass ha.1}.Stores entries := h.congr rfl rfl
      have hadded := hspace.addWrapper (hs.addNode ha.1 ha.2.1) k key
      exact ⟨_, hadded.congr rfl rfl⟩
  | get k id fails =>
    rw [step_get, Option.some.injEq] at hstep
    subst hstep
    rcases get_cases k s id fails with ⟨p, _, he⟩ | he | ⟨u, _, _, hu, _, he⟩ <;> rw [he]
    · exact hsame rfl rfl
    · exact hsame rfl rfl
    · let key : Key std := ⟨id, (NodeId.matching_of_fromNodeId hu).obtained⟩
      exact ⟨_, (h.addWrapper hs k key).congr rfl rfl⟩
  | added id c =>
    obtain ⟨_, rfl⟩ := step_added hstep
    exact hsame rfl rfl

variable (std) in
/-- At each point of a run the maps are hash maps of the wrappers made so far. -/
theorem visited_stored (space : AddressSpace) (ops : List Op) :
    ∀ s ∈ Run.visited step (start space) ops, ∃ entries : List (Entry std), s.Stores entries := by
  have hkeep : ∀ s op t, (s.Wrapped ∧ ∃ entries : List (Entry std), s.Stores entries) → True →
      step s op = some t → t.Wrapped ∧ ∃ entries : List (Entry std), t.Stores entries := by
    intro s op t ⟨hs, entries, h⟩ _ hstep
    obtain ⟨new, hnew⟩ := step_stores h hs hstep
    exact ⟨step_wrapped hs hstep, _, hnew⟩
  have hstart : (start space).Wrapped ∧ ∃ entries : List (Entry std), (start space).Stores entries :=
    ⟨wrapped_start space, [], State.stores_start space⟩
  intro s hs
  exact (Run.holds_of_kept hkeep hstart (fun _ _ => trivial) s hs).2

/-- Ids from constructors and from open62541 are lawful keys, strings are told apart from byte
strings, a lookup in maps of such keys succeeds exactly for the ids that were inserted, and
the server's maps are such maps at each point of a run. -/
theorem nodeId_lawful_key (std : StdHash) (a b c : NodeId) (ha : a.Obtained) (hb : b.Obtained) :
    NodeId.Lawful std a b c ∧
    (∀ ns ns' s, (NodeId.ofString ns s .string).equal (.ofString ns' s .byteString) = some false) ∧
    (∀ (entries : List (Entry std)) (k : Kind) (id : Key std), ((Caches.after entries).find k id).isSome ↔
      ∃ e ∈ entries, e.kind = k ∧ e.key.id.equal id.id = some true) ∧
    ∀ (space : AddressSpace) (ops : List Op), ∀ s ∈ Run.visited step (start space) ops,
      ∃ entries : List (Entry std), s.Stores entries :=
  ⟨NodeId.lawful_of_obtained std ha hb c,
    fun ns ns' s => NodeId.string_ne_byteString ns ns' s s, Caches.find_isSome_iff, visited_stored std⟩

/-- Integers are their own hashes here. -/
def plainHash : StdHash where
  uint16_t n := n.toUInt64
  int i := i.toInt64.toUInt64
  string := byteString_hash
  variant index hash := hash + UInt64.ofNat index

/-- A number and the same number from open62541. -/
theorem nodeId_lawful_key_number :
    NodeId.Lawful plainHash (.ofInt 1 2222) (fromUaNodeId ⟨1, .numeric 2222⟩) (.ofInt 1 2222) :=
  (nodeId_lawful_key plainHash (.ofInt 1 2222) (fromUaNodeId ⟨1, .numeric 2222⟩) (.ofInt 1 2222)
    (.ofInt 1 2222) (.fromUaNodeId ⟨1, .numeric 2222⟩)).1

end ModernOpc.Server
