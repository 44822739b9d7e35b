import ModernOpc.Ua.Types

/-! Node ids and their conversion to and from open62541.

A `NodeId` is a kind tag beside a `std::variant` of three alternatives: strings and
byte strings share one. `std::get` on the wrong alternative throws, so a function that
uses it has no result on an id whose tag does not match (`Matching`).

`fromUaNodeId` takes a string with its length; `fromNodeId` hands it over as a C
string. `conversion_lossless_iff` says what that costs: an id survives the trip in
either direction, and is told apart from the other ids that do, exactly when no byte
of its identifier is zero. -/
namespace ModernOpc
open Library.Bytes

/-! ### Guids -/

structure Guid where
  data1 : UInt32
  data2 : UInt16
  data3 : UInt16
  data4 : Vector UInt8 8
  deriving DecidableEq, Repr

/-- The sixteen bytes of the object: the fields leave no padding. -/
def Guid.bytes (g : Guid) : Bytes :=
  leBytes 4 g.data1.toNat ++ (leBytes 2 g.data2.toNat ++ (leBytes 2 g.data3.toNat ++ g.data4.toList))

/-- `Guid::operator==`: `memcmp` over the objects. -/
def Guid.equal (g h : Guid) : Bool := g.bytes == h.bytes

theorem Guid.bytes_injective {g h : Guid} (e : g.bytes = h.bytes) : g = h := by
  obtain ⟨e1, e⟩ := List.append_inj e (by simp only [leBytes_length])
  obtain ⟨e2, e⟩ := List.append_inj e (by simp only [leBytes_length])
  obtain ⟨e3, e4⟩ := List.append_inj e (by simp only [leBytes_length])
  have h1 := UInt32.toNat_inj.mp (leBytes_inj g.data1.toNat_lt h.data1.toNat_lt e1)
  have h2 := UInt16.toNat_inj.mp (leBytes_inj g.data2.toNat_lt h.data2.toNat_lt e2)
  have h3 := UInt16.toNat_inj.mp (leBytes_inj g.data3.toNat_lt h.data3.toNat_lt e3)
  have h4 := Vector.toList_inj.mp e4
  cases g
  cases h
  subst h1 h2 h3 h4
  rfl

@[simp] theorem Guid.equal_iff (g h : Guid) : g.equal h = true ↔ g = h := by
  rw [Guid.equal, beq_iff_eq]
  exact ⟨Guid.bytes_injective, congrArg Guid.bytes⟩

/-! ### The class -/

inductive NodeId.IdentifierType where
  | numeric
  | string
  | guid
  | byteString
  deriving DecidableEq, Repr

/-- `std::variant<int, std::string, Guid>`. -/
inductive NodeId.Identifier where
  | int (i : Int32)
  | string (s : Bytes)
  | guid (g : Guid)
  deriving DecidableEq, Repr

structure NodeId where
  nsIdx : UInt16
  type : NodeId.IdentifierType
  i : NodeId.Identifier
  deriving DecidableEq, Repr

namespace NodeId

/-- `std::get<int>`. -/
def Identifier.getInt : Identifier → Option Int32
  | .int i => some i
  | _ => none

/-- `std::get<std::string>`. -/
def Identifier.getString : Identifier → Option Bytes
  | .string s => some s
  | _ => none

/-- `std::get<Guid>`. -/
def Identifier.getGuid : Identifier → Option Guid
  | .guid g => some g
  | _ => none

/-- `NodeId(uint16_t, int)`. -/
def ofInt (nsIdx : UInt16) (id : Int32) : NodeId := ⟨nsIdx, .numeric, .int id⟩

/-- `NodeId(uint16_t, const std::string &, IdentifierType)`: the tag is not checked. -/
def ofString (nsIdx : UInt16) (id : Bytes) (t : IdentifierType) : NodeId := ⟨nsIdx, t, .string id⟩

/-- `NodeId(uint16_t, Guid)`. -/
def ofGuid (nsIdx : UInt16) (id : Guid) : NodeId := ⟨nsIdx, .guid, .guid id⟩

/-- `NodeId::operator==`; no result where `std::get` throws. -/
def equal (a b : NodeId) : Option Bool :=
  if a.nsIdx ≠ b.nsIdx then some false
  else if a.type ≠ b.type then some false
  else match a.type with
    | .numeric => do return (← a.i.getInt) == (← b.i.getInt)
    | .byteString => do return (← a.i.getString) == (← b.i.getString)
    | .string => do return (← a.i.getString) == (← b.i.getString)
    | .guid => do return (← a.i.getGuid).equal (← b.i.getGuid)

/-- The alternative held is the one the tag announces. -/
def Matching (n : NodeId) : Prop :=
  match n.type, n.i with
  | .numeric, .int _ => True
  | .string, .string _ => True
  | .byteString, .string _ => True
  | .guid, .guid _ => True
  | _, _ => False

instance (n : NodeId) : Decidable n.Matching := by
  unfold Matching
  split <;> infer_instance

/-- No zero byte in a string or byte string identifier. -/
def ZeroFree (n : NodeId) : Prop :=
  match n.i with
  | .string s => (0 : UInt8) ∉ s
  | _ => True

instance (n : NodeId) : Decidable n.ZeroFree := by
  unfold ZeroFree
  split <;> infer_instance

/-- An id whose tag matches is one the constructors build for its kind. -/
theorem Matching.cases {n : NodeId} (h : n.Matching) :
    (∃ ns i, n = ofInt ns i) ∨ (∃ ns s, n = ofString ns s .string) ∨
      (∃ ns s, n = ofString ns s .byteString) ∨ (∃ ns g, n = ofGuid ns g) := by
  obtain ⟨ns, t, i⟩ := n
  cases t <;> cases i
  case numeric.int i => exact .inl ⟨ns, i, rfl⟩
  case string.string s => exact .inr (.inl ⟨ns, s, rfl⟩)
  case byteString.string s => exact .inr (.inr (.inl ⟨ns, s, rfl⟩))
  case guid.guid g => exact .inr (.inr (.inr ⟨ns, g, rfl⟩))
  all_goals exact h.elim

/-- On ids whose tags match, `operator==` decides equality and never throws. -/
theorem equal_of_matching {a b : NodeId} (ha : a.Matching) (hb : b.Matching) :
    a.equal b = some (decide (a = b)) := by
  have hguid : ∀ g h : Guid, g.equal h = decide (g = h) := fun g h => by
    rw [Bool.eq_iff_iff, Guid.equal_iff, decide_eq_true_iff]
  obtain ⟨ns, i, rfl⟩ | ⟨ns, i, rfl⟩ | ⟨ns, i, rfl⟩ | ⟨ns, i, rfl⟩ := ha.cases <;>
    obtain ⟨ns', j, rfl⟩ | ⟨ns', j, rfl⟩ | ⟨ns', j, rfl⟩ | ⟨ns', j, rfl⟩ := hb.cases <;>
    by_cases hns : ns = ns' <;>
    simp [equal, ofInt, ofString, ofGuid, Identifier.getInt, Identifier.getString,
      Identifier.getGuid, hns, hguid, Bool.beq_eq_decide_eq]

end NodeId

/-! ### Conversion -/

/-- `fromUaNodeId`. -/
def fromUaNodeId (id : Ua.NodeId) : NodeId :=
  match id.identifier with
  | .numeric n => .ofInt id.namespaceIndex n.toInt32
  | .string s => .ofString id.namespaceIndex s .string
  | .guid g => .ofGuid id.namespaceIndex ⟨g.data1, g.data2, g.data3, g.data4⟩
  | .byteString s => .ofString id.namespaceIndex s .byteString

/-- `fromNodeId`: strings go out through `c_str()`. -/
def fromNodeId (n : NodeId) : Option Ua.NodeId :=
  match n.type with
  | .numeric => do return ⟨n.nsIdx, .numeric (← n.i.getInt).toUInt32⟩
  | .string => do return ⟨n.nsIdx, .string (Ua.string (← n.i.getString))⟩
  | .guid => do
    let g ← n.i.getGuid
    return ⟨n.nsIdx, .guid ⟨g.data1, g.data2, g.data3, g.data4⟩⟩
  | .byteString => do return ⟨n.nsIdx, .byteString (Ua.string (← n.i.getString))⟩

/-- No zero byte in a string or byte string identifier. -/
def Ua.NodeId.ZeroFree (u : Ua.NodeId) : Prop :=
  match u.identifier with
  | .string s => (0 : UInt8) ∉ s
  | .byteString s => (0 : UInt8) ∉ s
  | _ => True

namespace NodeId

/-- The id that `fromNodeId` hands over, read back. -/
def truncated (n : NodeId) : NodeId :=
  match n.i with
  | .string s => {n with i := .string (cString s)}
  | _ => n

theorem fromUaNodeId_matching (u : Ua.NodeId) : (fromUaNodeId u).Matching := by
  obtain ⟨ns, i⟩ := u
  cases i <;> trivial

theorem fromUaNodeId_zeroFree (u : Ua.NodeId) : (fromUaNodeId u).ZeroFree ↔ u.ZeroFree := by
  obtain ⟨ns, i⟩ := u
  cases i <;> exact Iff.rfl

/-- `fromUaNodeId` loses nothing: it has `fromNodeId`'s exact counterpart as inverse. -/
theorem fromUaNodeId_injective {u v : Ua.NodeId} (h : fromUaNodeId u = fromUaNodeId v) : u = v := by
  obtain ⟨ns, i⟩ := u
  obtain ⟨ns', i'⟩ := v
  cases i <;> cases i' <;> simp [fromUaNodeId, ofInt, ofString, ofGuid] at h ⊢
  case numeric.numeric m n => exact ⟨h.1, by simpa using congrArg Int32.toUInt32 h.2⟩
  case string.string => exact h
  case guid.guid g g' =>
    obtain ⟨h0, h1, h2, h3, h4⟩ := h
    cases g
    cases g'
    exact ⟨h0, by simp_all⟩
  case byteString.byteString => exact h

theorem truncated_matching {n : NodeId} (h : n.Matching) : n.truncated.Matching := by
  obtain ⟨_, _, rfl⟩ | ⟨_, _, rfl⟩ | ⟨_, _, rfl⟩ | ⟨_, _, rfl⟩ := h.cases <;> trivial

theorem truncated_zeroFree (n : NodeId) : n.truncated.ZeroFree := by
  obtain ⟨ns, t, i⟩ := n
  cases i with
  | int => trivial
  | string s => exact zero_not_mem_cString s
  | guid => trivial

theorem truncated_eq_self {n : NodeId} : n.truncated = n ↔ n.ZeroFree := by
  obtain ⟨ns, t, i⟩ := n
  cases i with
  | int => simp [truncated, ZeroFree]
  | string s => simp [truncated, ZeroFree]
  | guid => simp [truncated, ZeroFree]

/-- What arrives on the other side is the id up to its first zero byte. -/
theorem fromUaNodeId_fromNodeId {n : NodeId} (h : n.Matching) :
    ∃ u, fromNodeId n = some u ∧ fromUaNodeId u = n.truncated := by
  obtain ⟨ns, i, rfl⟩ | ⟨ns, s, rfl⟩ | ⟨ns, s, rfl⟩ | ⟨ns, g, rfl⟩ := h.cases
  · exact ⟨_, rfl, by simp [fromUaNodeId, truncated, ofInt]⟩
  all_goals exact ⟨_, rfl, rfl⟩

/-- Where `fromNodeId` does not throw, the tag matches. -/
theorem matching_of_fromNodeId {n : NodeId} {u : Ua.NodeId} (h : fromNodeId n = some u) :
    n.Matching := by
  obtain ⟨ns, t, i⟩ := n
  cases t <;> cases i <;> trivial

/-- The node that an id leads to has that id, unless the id is cut. -/
theorem fromUaNodeId_eq_iff {n : NodeId} {u : Ua.NodeId} (h : fromNodeId n = some u) :
    fromUaNodeId u = n ↔ n.ZeroFree := by
  obtain ⟨u', hu', ht⟩ := fromUaNodeId_fromNodeId (matching_of_fromNodeId h)
  cases h.symm.trans hu'
  rw [ht, truncated_eq_self]

/-- `fromUaNodeId(fromNodeId(n)) == n`. -/
def RoundTrips (n : NodeId) : Prop :=
  ∃ u, fromNodeId n = some u ∧ (fromUaNodeId u).equal n = some true

/-- The two ids are one id for open62541. -/
def Conflated (m n : NodeId) : Prop :=
  ∃ u v, fromNodeId m = some u ∧ fromNodeId n = some v ∧ u.equal v = true

theorem roundTrips_iff {n : NodeId} (h : n.Matching) : n.RoundTrips ↔ n.ZeroFree := by
  obtain ⟨u, hu, ht⟩ := fromUaNodeId_fromNodeId h
  have heq := equal_of_matching (truncated_matching h) h
  unfold RoundTrips
  simp only [hu, Option.some.injEq, exists_eq_left', ht, heq, decide_eq_true_iff]
  exact truncated_eq_self

theorem conflated_iff {m n : NodeId} (hm : m.Matching) (hn : n.Matching) :
    Conflated m n ↔ m.truncated = n.truncated := by
  obtain ⟨u, hu, hut⟩ := fromUaNodeId_fromNodeId hm
  obtain ⟨v, hv, hvt⟩ := fromUaNodeId_fromNodeId hn
  unfold Conflated
  simp only [hu, hv, Option.some.injEq, Ua.NodeId.equal_iff, exists_and_left, exists_eq_left', ← hut,
    ← hvt]
  exact ⟨congrArg fromUaNodeId, fromUaNodeId_injective⟩

/-- The conversions lose nothing, in either direction and between ids, exactly for
identifiers without a zero byte. -/
theorem conversion_lossless_iff (n : NodeId) (h : n.Matching) (u : Ua.NodeId) :
    (n.RoundTrips ↔ n.ZeroFree) ∧
    ((∃ u', fromNodeId (fromUaNodeId u) = some u' ∧ u'.equal u = true) ↔ u.ZeroFree) ∧
    ((∀ m : NodeId, m.Matching → m.ZeroFree → m ≠ n → ¬ Conflated m n) ↔ n.ZeroFree) := by
  refine ⟨roundTrips_iff h, ?_, fun hc => ?_, fun hz m hm hmz hne => ?_⟩
  · obtain ⟨u', hu', ht⟩ := fromUaNodeId_fromNodeId (fromUaNodeId_matching u)
    simp only [hu', Option.some.injEq, exists_eq_left', Ua.NodeId.equal_iff]
    rw [← fromUaNodeId_zeroFree, ← truncated_eq_self, ← ht]
    exact ⟨congrArg fromUaNodeId, fromUaNodeId_injective⟩
  · refine Classical.byContradiction fun hz => ?_
    have hne : n.truncated ≠ n := fun he => hz (truncated_eq_self.mp he)
    have htt : n.truncated.truncated = n.truncated := truncated_eq_self.mpr (truncated_zeroFree n)
    exact hc n.truncated (truncated_matching h) (truncated_zeroFree n) hne
      ((conflated_iff (truncated_matching h) h).mpr htt)
  · rw [conflated_iff hm h, truncated_eq_self.mpr hmz, truncated_eq_self.mpr hz]
    exact hne

/-- The id of the string `ab` makes both trips and is told apart from the others. -/
theorem conversion_lossless_ab :
    RoundTrips (ofString 1 [0x61, 0x62] .string) ∧
    (∃ u, fromNodeId (fromUaNodeId ⟨1, .byteString [0x61, 0x62]⟩) = some u ∧
      u.equal ⟨1, .byteString [0x61, 0x62]⟩ = true) ∧
    ¬ Conflated (ofInt 1 7) (ofString 1 [0x61, 0x62] .string) :=
  have ⟨htrip, hua, hapart⟩ := conversion_lossless_iff (ofString 1 [0x61, 0x62] .string) (by decide)
    ⟨1, .byteString [0x61, 0x62]⟩
  ⟨htrip.mpr (by decide), hua.mpr (by simp [Ua.NodeId.ZeroFree]),
    hapart.mpr (by decide) _ (by decide) (by decide) (by decide)⟩

/-- The id of `a`, a zero byte and `b` comes back as that of `a`. -/
theorem conversion_cuts_at_zero : ¬ ∀ n : NodeId, n.Matching → n.RoundTrips := fun h =>
  absurd ((roundTrips_iff (n := ofString 1 [0x61, 0, 0x62] .string) (by decide)).mp (h _ (by decide)))
    (by decide)

end NodeId

end ModernOpc
