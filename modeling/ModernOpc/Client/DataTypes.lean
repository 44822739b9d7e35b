import ModernOpc.Library.Run
import ModernOpc.Ua.Types
import Mathlib.Data.List.Nodup

/-! The client's custom data types.

`loadNodeset` loads a file into a temporary server, hands that server's chain of data
type arrays to the client and rewrites the namespace index of the types in the first
array. The chain the client held before is dropped, not extended.

`dataTypes_accumulate_iff`: throughout a run, every data type loaded so far is found
under its identifier and the namespace index given exactly if each successful call is the
first that brings types, finds an array, and finds the types of the others numbered. -/
namespace ModernOpc.Client
open Library

/-- `UA_DataType`, as far as the client touches it, and the address it lives at. -/
structure CustomDataType where
  address : Nat
  typeId : Ua.NodeId
  binaryEncodingId : Ua.NodeId
  deriving DecidableEq, Repr

/-- A chain of `UA_DataTypeArray`: the null pointer is the empty chain. -/
abbrev DataTypeArrays := List (List CustomDataType)

/-- The body of the loop over the first array. -/
def renumber (namespaceIndex : UInt16) (t : CustomDataType) : CustomDataType :=
  { t with
    binaryEncodingId := { t.binaryEncodingId with namespaceIndex := namespaceIndex }
    typeId := { t.typeId with namespaceIndex := namespaceIndex } }

/-- `Client::loadNodeset` on a client with the given chain. `answer` is what the loader leaves in
the temporary server, `none` if it fails; no result where a null chain is dereferenced. -/
def loadNodeset (customDataTypes : DataTypeArrays) (answer : Option DataTypeArrays) (namespaceIndex : Int32) :
    Option (DataTypeArrays × Bool) :=
  match answer with
  | none => some (customDataTypes, false)
  | some [] => none
  | some (types :: next) => some (types.map (renumber namespaceIndex.toUInt32.toUInt16) :: next, true)

/-- The inner loop of the search. -/
def findIn (typeId : Ua.NodeId) : List CustomDataType → Option CustomDataType
  | [] => none
  | type :: rest => if type.typeId.equal typeId then some type else findIn typeId rest

/-- `Client::findCustomDataType`. -/
def findCustomDataType (typeId : Ua.NodeId) : DataTypeArrays → Option CustomDataType
  | [] => none
  | types :: next =>
    match findIn typeId types with
    | some type => some type
    | none => findCustomDataType typeId next

theorem findIn_eq (typeId : Ua.NodeId) (types : List CustomDataType) :
    findIn typeId types = types.find? (·.typeId = typeId) := by
  induction types with
  | nil => rfl
  | cons type rest ih =>
    rw [findIn, ih, List.find?_cons]
    by_cases h : type.typeId = typeId <;> simp [h]

theorem findCustomDataType_eq (typeId : Ua.NodeId) (arrays : DataTypeArrays) :
    findCustomDataType typeId arrays = arrays.flatten.find? (·.typeId = typeId) := by
  induction arrays with
  | nil => rfl
  | cons types next ih =>
    rw [findCustomDataType, findIn_eq, ih, List.flatten_cons, List.find?_append]
    cases types.find? (·.typeId = typeId) <;> rfl

/-! ### The types loaded -/

/-- What a call loads: every type of the chain, under its identifier and the index given. -/
def loadedBy (namespaceIndex : UInt16) (arrays : DataTypeArrays) : List (Ua.NodeId × Nat) :=
  arrays.flatten.map fun t => (⟨namespaceIndex, t.typeId.identifier⟩, t.address)

/-- The chain finds, under each id, the first type loaded under it. -/
def Finds (arrays : DataTypeArrays) (loaded : List (Ua.NodeId × Nat)) : Prop :=
  ∀ id e, loaded.find? (·.1 = id) = some e → (findCustomDataType id arrays).map (·.address) = some e.2

/-- There is a first array, and the types of the others that are the first of their identifier carry
the index already. -/
def Numbered (namespaceIndex : UInt16) : DataTypeArrays → Prop
  | [] => False
  | types :: next => ∀ i t, next.flatten.find? (·.typeId.identifier = i) = some t →
      (∀ u ∈ types, u.typeId.identifier ≠ i) → t.typeId.namespaceIndex = namespaceIndex

/-- Among the types loaded a lookup compares identifiers only. -/
theorem loadedBy_find (ns : UInt16) (types : List CustomDataType) (next : DataTypeArrays) (i : Ua.Identifier) :
    (loadedBy ns (types :: next)).find? (·.1 = ⟨ns, i⟩) =
      ((types.find? (·.typeId.identifier = i)).or (next.flatten.find? (·.typeId.identifier = i))).map
        fun t => (⟨ns, t.typeId.identifier⟩, t.address) := by
  have hfun : (fun t : CustomDataType => decide ((⟨ns, t.typeId.identifier⟩ : Ua.NodeId) = ⟨ns, i⟩)) =
      fun t => decide (t.typeId.identifier = i) := by
    funext t
    simp
  rw [loadedBy, List.find?_map, ← List.find?_append, ← List.flatten_cons, ← hfun]
  rfl

/-- A call loads nothing under another index. -/
theorem loadedBy_index {ns : UInt16} {arrays : DataTypeArrays} {e : Ua.NodeId × Nat}
    (h : e ∈ loadedBy ns arrays) : ∃ i, e.1 = ⟨ns, i⟩ := by
  obtain ⟨t, _, rfl⟩ := List.mem_map.mp h
  exact ⟨_, rfl⟩

/-- In the array rewritten as well; in the others it compares the index too. -/
theorem renumbered_find (ns : UInt16) (types : List CustomDataType) (next : DataTypeArrays) (i : Ua.Identifier) :
    findCustomDataType ⟨ns, i⟩ (types.map (renumber ns) :: next) =
      ((types.find? (·.typeId.identifier = i)).map (renumber ns)).or
        (next.flatten.find? (·.typeId = ⟨ns, i⟩)) := by
  have hfun : (fun t : CustomDataType => decide ((renumber ns t).typeId = ⟨ns, i⟩)) =
      fun t => decide (t.typeId.identifier = i) := by
    funext t
    simp [renumber]
  rw [findCustomDataType_eq, List.flatten_cons, List.find?_append, List.find?_map, ← hfun]
  rfl

/-- The first type with an identifier is the first with an id, if it carries the index. -/
theorem find_of_identifier {ns : UInt16} {i : Ua.Identifier} {types : List CustomDataType} {t : CustomDataType}
    (h : types.find? (·.typeId.identifier = i) = some t) (hns : t.typeId.namespaceIndex = ns) :
    types.find? (·.typeId = ⟨ns, i⟩) = some t := by
  obtain ⟨hi, before, after, rfl, hbefore⟩ := List.find?_eq_some_iff_append.mp h
  have hid : t.typeId.identifier = i := of_decide_eq_true hi
  refine List.find?_eq_some_iff_append.mpr ⟨?_, before, after, rfl, fun u hu => ?_⟩
  · rw [← hns, ← hid]
    exact decide_eq_true rfl
  · have hne := hbefore u hu
    simp only [Bool.not_eq_true', decide_eq_false_iff_not] at hne ⊢
    exact fun hu => hne (congrArg Ua.NodeId.identifier hu)

/-- Types that were numbered are found. -/
theorem Numbered.finds {ns : UInt16} {types : List CustomDataType} {next : DataTypeArrays}
    (h : Numbered ns (types :: next)) :
    Finds (types.map (renumber ns) :: next) (loadedBy ns (types :: next)) := by
  intro id e he
  obtain ⟨i, hid⟩ := loadedBy_index (List.mem_of_find?_eq_some he)
  have hide : e.1 = id := by simpa using List.find?_some he
  obtain rfl : id = ⟨ns, i⟩ := hide.symm.trans hid
  rw [loadedBy_find] at he
  rw [renumbered_find]
  cases hfirst : types.find? (·.typeId.identifier = i) with
  | some t =>
    rw [hfirst] at he
    cases he
    rfl
  | none =>
    rw [hfirst] at he
    obtain ⟨t, ht, rfl⟩ := Option.map_eq_some_iff.mp he
    have hns := h i t ht fun u hu => by simpa using List.find?_eq_none.mp hfirst u hu
    rw [find_of_identifier ht hns]
    rfl

/-- Distinct types that are found were numbered. -/
theorem Finds.numbered {ns : UInt16} {types : List CustomDataType} {next : DataTypeArrays}
    (distinct : ((types :: next).flatten.map (·.address)).Nodup)
    (h : Finds (types.map (renumber ns) :: next) (loadedBy ns (types :: next))) :
    Numbered ns (types :: next) := by
  intro i t ht hfirst
  have hnone : types.find? (·.typeId.identifier = i) = none :=
    List.find?_eq_none.mpr fun u hu => by simpa using hfirst u hu
  have hl := loadedBy_find ns types next i
  rw [hnone, ht] at hl
  have hf := h _ _ hl
  rw [renumbered_find, hnone] at hf
  obtain ⟨u, hu, hua⟩ := Option.map_eq_some_iff.mp hf
  rw [Option.map_none, Option.none_or] at hu
  -- the type found has the address of the type loaded, so it is that type
  have hut : u = t := by
    rw [List.flatten_cons, List.map_append] at distinct
    exact List.inj_on_of_nodup_map distinct.of_append_right (List.mem_of_find?_eq_some hu)
      (List.mem_of_find?_eq_some ht) hua
  have hid : u.typeId = ⟨ns, i⟩ := by simpa using List.find?_some hu
  rw [← hut, hid]

/-! ### Runs -/

/-- A client's chain, gone once a call has dereferenced a null pointer, and the types the calls
that returned true have loaded, in order. -/
structure LoadState where
  customDataTypes : Option DataTypeArrays
  loaded : List (Ua.NodeId × Nat)

def LoadState.initial : LoadState := ⟨some [], []⟩

/-- A call to `loadNodeset`, with what the loader leaves. -/
structure Load where
  answer : Option DataTypeArrays
  namespaceIndex : Int32

/-- Nothing loaded is ever freed: new types live at new addresses, each at its own. -/
def Fresh (loaded : List (Ua.NodeId × Nat)) (arrays : DataTypeArrays) : Prop :=
  (arrays.flatten.map (·.address)).Nodup ∧ ∀ t ∈ arrays.flatten, ∀ e ∈ loaded, t.address ≠ e.2

instance (loaded : List (Ua.NodeId × Nat)) (arrays : DataTypeArrays) : Decidable (Fresh loaded arrays) :=
  inferInstanceAs (Decidable (_ ∧ _))

def loadStep (s : LoadState) (op : Load) : Option LoadState :=
  match s.customDataTypes with
  | none => none
  | some chain =>
    if Fresh s.loaded (op.answer.getD []) then
      match loadNodeset chain op.answer op.namespaceIndex with
      | none => some ⟨none, s.loaded⟩
      | some (chain', false) => some ⟨some chain', s.loaded⟩
      | some (chain', true) =>
        some ⟨some chain', s.loaded ++ loadedBy op.namespaceIndex.toUInt32.toUInt16 (op.answer.getD [])⟩
    else none

/-- The client is alive and finds every type loaded. -/
def LoadState.Accumulates (s : LoadState) : Prop :=
  ∃ chain, s.customDataTypes = some chain ∧ Finds chain s.loaded

/-- What a call must respect: it fails, or no type was loaded before and its own are numbered. -/
def LoadRespects (s : LoadState) (op : Load) : Prop :=
  ∀ arrays, op.answer = some arrays →
    s.loaded = [] ∧ Numbered op.namespaceIndex.toUInt32.toUInt16 arrays

/-- What a call on a live client can do. -/
theorem loadStep_cases {s t : LoadState} {op : Load} (hstep : loadStep s op = some t) :
    ∃ chain, s.customDataTypes = some chain ∧ Fresh s.loaded (op.answer.getD []) ∧
      ((op.answer = none ∧ t = s) ∨
       (op.answer = some [] ∧ t = ⟨none, s.loaded⟩) ∨
       ∃ types next, op.answer = some (types :: next) ∧
        t = ⟨some (types.map (renumber op.namespaceIndex.toUInt32.toUInt16) :: next),
          s.loaded ++ loadedBy op.namespaceIndex.toUInt32.toUInt16 (types :: next)⟩) := by
  obtain ⟨chain?, loaded⟩ := s
  obtain ⟨answer, ns⟩ := op
  cases chain? with
  | none => cases hstep
  | some chain =>
    simp only [loadStep] at hstep
    split at hstep
    · next hfresh =>
      refine ⟨chain, rfl, hfresh, ?_⟩
      match answer, hstep with
      | none, hstep =>
        cases hstep
        exact .inl ⟨rfl, rfl⟩
      | some [], hstep =>
        cases hstep
        exact .inr (.inl ⟨rfl, rfl⟩)
      | some (types :: next), hstep =>
        cases hstep
        exact .inr (.inr ⟨types, next, rfl, rfl⟩)
    · cases hstep

theorem loadStep_accumulates {s t : LoadState} {op : Load} (h : s.Accumulates) (hg : LoadRespects s op)
    (hstep : loadStep s op = some t) : t.Accumulates := by
  obtain ⟨chain, _, _, ⟨_, rfl⟩ | ⟨ha, rfl⟩ | ⟨types, next, ha, rfl⟩⟩ := loadStep_cases hstep
  · exact h
  · exact (hg [] ha).2.elim
  · obtain ⟨hloaded, hnumbered⟩ := hg _ ha
    refine ⟨_, rfl, ?_⟩
    rw [hloaded, List.nil_append]
    exact hnumbered.finds

/-- A chain of new types finds none that was loaded before. -/
theorem Fresh.loses {loaded new : List (Ua.NodeId × Nat)} {types : List CustomDataType} {next : DataTypeArrays}
    {ns : UInt16} (h : Fresh loaded (types :: next)) (hloaded : loaded ≠ []) :
    ¬ Finds (types.map (renumber ns) :: next) (loaded ++ new) := by
  intro hfinds
  obtain ⟨e, rest, rfl⟩ := List.exists_cons_of_ne_nil hloaded
  have hfirst : (e :: rest ++ new).find? (·.1 = e.1) = some e := by simp
  obtain ⟨t, ht, hte⟩ := Option.map_eq_some_iff.mp (hfinds _ _ hfirst)
  rw [findCustomDataType_eq] at ht
  have hmem := List.mem_of_find?_eq_some ht
  rw [List.flatten_cons] at hmem
  rcases List.mem_append.mp hmem with hmem | hmem
  · obtain ⟨u, hu, rfl⟩ := List.mem_map.mp hmem
    exact h.2 u (List.mem_append_left _ hu) e (List.mem_cons_self ..) hte
  · exact h.2 t (List.mem_append_right _ hmem) e (List.mem_cons_self ..) hte

theorem loadStep_loses {s t : LoadState} {op : Load} (hg : ¬ LoadRespects s op)
    (hstep : loadStep s op = some t) : ¬ t.Accumulates := by
  obtain ⟨chain, _, hfresh, ⟨ha, rfl⟩ | ⟨ha, rfl⟩ | ⟨types, next, ha, rfl⟩⟩ := loadStep_cases hstep
  · exact absurd (fun arrays hs => by rw [ha] at hs; cases hs) hg
  · intro ⟨_, hc, _⟩
    cases hc
  · intro ⟨_, hc, hfinds⟩
    cases hc
    rw [ha] at hfresh
    by_cases hloaded : s.loaded = []
    · refine hg fun arrays hs => ?_
      rw [ha] at hs
      cases hs
      rw [hloaded, List.nil_append] at hfinds
      exact ⟨hloaded, hfinds.numbered hfresh.1⟩
    · exact hfresh.loses hloaded hfinds

/-- Every type loaded is found, throughout a run, exactly if each call that succeeds is the first
to bring types and finds them numbered outside the first array; a call that returns false leaves
every lookup as it was. -/
theorem dataTypes_accumulate_iff (ops : List Load) :
    ((∀ t ∈ Run.visited loadStep .initial ops, t.Accumulates) ↔
      ∀ e ∈ Run.edges loadStep .initial ops, LoadRespects e.1 e.2) ∧
    (∀ chain answer ns chain' id, loadNodeset chain answer ns = some (chain', false) →
      findCustomDataType id chain' = findCustomDataType id chain) := by
  refine ⟨?_, fun chain answer ns chain' id hfalse => ?_⟩
  · exact Run.holds_iff_guarded (I := LoadState.Accumulates) (P := LoadState.Accumulates) (G := LoadRespects)
      (fun _ h => h) (fun _ _ _ => loadStep_accumulates) (fun _ _ _ _ => loadStep_loses)
      ⟨[], rfl, fun _ _ h => by cases h⟩ ops
  · match answer, hfalse with
    | none, hfalse =>
      cases hfalse
      rfl
    | some [], hfalse => cases hfalse
    | some (_ :: _), hfalse => cases hfalse

/-- After two nodesets of one type each, the first type is no longer found. -/
theorem second_nodeset_replaces :
    ¬ ∀ ops : List Load, ∀ t ∈ Run.visited loadStep .initial ops, t.Accumulates := by
  intro h
  let point : CustomDataType := ⟨0, ⟨1, .numeric 3002⟩, ⟨1, .numeric 5001⟩⟩
  let line : CustomDataType := ⟨1, ⟨1, .numeric 3003⟩, ⟨1, .numeric 5002⟩⟩
  let ops : List Load := [⟨some [[point]], 2⟩, ⟨some [[line]], 3⟩]
  have hfinal : Run.final loadStep .initial ops =
      some ⟨some [[renumber 3 line]], [(⟨2, .numeric 3002⟩, 0), (⟨3, .numeric 3003⟩, 1)]⟩ := rfl
  obtain ⟨chain, hchain, hfinds⟩ := h ops _ (Run.final_mem_visited hfinal)
  cases hchain
  exact absurd (hfinds ⟨2, .numeric 3002⟩ _ rfl) (by decide)

end ModernOpc.Client
