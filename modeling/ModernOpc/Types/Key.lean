import ModernOpc.Types.NodeId
import Mathlib.Data.List.Basic

/-! Node ids as keys of a hash map.

`getHash` combines the namespace with the hash of the `std::variant`, so the kind tag, which
`operator==` compares too, does not enter it: a string and a byte string of the same bytes
share their hash and are different keys.

`lawful_of_obtained`: on ids that a constructor built for their kind or that open62541
gave, `operator==` is an equivalence that never throws, and `getHash` respects it. A `Key` is
such an id, an instance of what hash maps ask of their keys. -/
namespace ModernOpc
open Library.Bytes

/-! ### Hashes -/

/-- `std::hash` of the types a `NodeId` is made of, into a `size_t` of 64 bits. That of a
`std::variant` is made from the index of its alternative and the hash of the value. -/
structure StdHash where
  uint16_t : UInt16 → UInt64
  int : Int32 → UInt64
  string : Bytes → UInt64
  variant : Nat → UInt64 → UInt64

/-- `FNV_PRIME_32`. -/
def fnvPrime32 : UInt64 := 16777619

/-- `ByteString_hash`. -/
def byteString_hash (buf : Bytes) : UInt64 :=
  buf.foldl (fun fnv b => (fnv ^^^ b.toUInt64) * fnvPrime32) 0

/-- `getHash(const Guid &)`. -/
def Guid.getHash (id : Guid) : UInt64 := byteString_hash id.bytes

/-- The bytes that are compared are those that are hashed. -/
theorem Guid.getHash_of_equal {g h : Guid} (e : g.equal h = true) : g.getHash = h.getHash :=
  congrArg byteString_hash (beq_iff_eq.mp e)

namespace NodeId
variable (std : StdHash)

/-- `std::hash<std::variant<int, std::string, Guid>>`. -/
def Identifier.hash : Identifier → UInt64
  | .int i => std.variant 0 (std.int i)
  | .string s => std.variant 1 (std.string s)
  | .guid g => std.variant 2 g.getHash

/-- `getHash(const NodeId &)`. -/
def getHash (id : NodeId) : UInt64 :=
  let h1 := std.uint16_t id.nsIdx
  let h2 := id.i.hash std
  h1 ^^^ (h2 <<< 1)

/-! ### The laws of a key -/

/-- An id from a constructor, built for its kind, or from `fromUaNodeId`. -/
inductive Obtained : NodeId → Prop where
  | ofInt (nsIdx : UInt16) (id : Int32) : Obtained (.ofInt nsIdx id)
  | ofString (nsIdx : UInt16) (id : Bytes) : Obtained (.ofString nsIdx id .string)
  | ofByteString (nsIdx : UInt16) (id : Bytes) : Obtained (.ofString nsIdx id .byteString)
  | ofGuid (nsIdx : UInt16) (id : Guid) : Obtained (.ofGuid nsIdx id)
  | fromUaNodeId (id : Ua.NodeId) : Obtained (fromUaNodeId id)

theorem Obtained.matching {n : NodeId} (h : n.Obtained) : n.Matching := by
  cases h with
  | fromUaNodeId id => exact fromUaNodeId_matching id
  | ofInt | ofString | ofByteString | ofGuid => trivial

/-- These are the ids whose tag matches. -/
theorem Matching.obtained {n : NodeId} (h : n.Matching) : n.Obtained := by
  obtain ⟨ns, i, rfl⟩ | ⟨ns, s, rfl⟩ | ⟨ns, s, rfl⟩ | ⟨ns, g, rfl⟩ := h.cases
  · exact .ofInt ns i
  · exact .ofString ns s
  · exact .ofByteString ns s
  · exact .ofGuid ns g

/-- Where `operator==` holds, the hashes are computed from the same values. -/
theorem getHash_of_equal {a b : NodeId} (h : a.equal b = some true) : a.getHash std = b.getHash std := by
  obtain ⟨ns, t, i⟩ := a
  obtain ⟨ns', t', j⟩ := b
  unfold equal at h
  split at h
  · cases h
  · next hns =>
    split at h
    · cases h
    · next ht =>
      obtain rfl := not_not.mp hns
      obtain rfl := not_not.mp ht
      have hvariant : i.hash std = j.hash std := by
        cases t <;> cases i <;> cases j
        case numeric.int.int i j => rw [beq_iff_eq.mp (Option.some.inj h)]
        case string.string.string s s' => rw [beq_iff_eq.mp (Option.some.inj h)]
        case byteString.string.string s s' => rw [beq_iff_eq.mp (Option.some.inj h)]
        case guid.guid.guid g g' => exact congrArg (std.variant 2) (Guid.getHash_of_equal (Option.some.inj h))
        all_goals cases h
      simp only [getHash, hvariant]

/-- What an unordered map asks of its keys. -/
structure Lawful (a b c : NodeId) : Prop where
  /-- No alternative is accessed but the one held. -/
  total : (a.equal b).isSome
  refl : a.equal a = some true
  symm : a.equal b = b.equal a
  trans : a.equal b = some true → b.equal c = some true → a.equal c = some true
  hash : a.equal b = some true → a.getHash std = b.getHash std

theorem lawful_of_obtained {a b : NodeId} (ha : a.Obtained) (hb : b.Obtained) (c : NodeId) :
    Lawful std a b c := by
  have haa := equal_of_matching ha.matching ha.matching
  have hab := equal_of_matching ha.matching hb.matching
  have hba := equal_of_matching hb.matching ha.matching
  refine ⟨?_, ?_, ?_, fun hequal hbc => ?_, getHash_of_equal std⟩
  · rw [hab]
    rfl
  · rw [haa, decide_eq_true rfl]
  · rw [hab, hba, decide_eq_decide.mpr eq_comm]
  · rw [hab, Option.some.injEq, decide_eq_true_iff] at hequal
    exact hequal ▸ hbc

/-- A string and a byte string are never equal, whatever their bytes. -/
theorem string_ne_byteString (ns ns' : UInt16) (s t : Bytes) :
    (ofString ns s .string).equal (ofString ns' t .byteString) = some false := by
  unfold equal
  by_cases hns : ns = ns' <;> simp [ofString, hns]

end NodeId

/-! ### Keys -/

/-- Such an id, as a key under given hashes. -/
@[ext] structure Key (std : StdHash) where
  id : NodeId
  obtained : id.Obtained

namespace Key
variable {std : StdHash}

instance : BEq (Key std) where
  beq a b := (a.id.equal b.id).get (NodeId.lawful_of_obtained std a.obtained b.obtained b.id).total

instance : Hashable (Key std) where
  hash a := a.id.getHash std

theorem beq_iff_equal {a b : Key std} : (a == b) = true ↔ a.id.equal b.id = some true :=
  ⟨fun h => h ▸ (Option.some_get _).symm, fun h => Option.some.inj ((Option.some_get _).trans h)⟩

@[simp] theorem beq_iff {a b : Key std} : (a == b) = true ↔ a.id = b.id := by
  have hequal := NodeId.equal_of_matching a.obtained.matching b.obtained.matching
  rw [beq_iff_equal, hequal, Option.some.injEq, decide_eq_true_iff]

instance : EquivBEq (Key std) where
  rfl := by simp
  symm h := by
    rw [beq_iff] at h ⊢
    exact h.symm
  trans hab hbc := by
    rw [beq_iff] at hab hbc ⊢
    exact hab.trans hbc

instance : LawfulHashable (Key std) where
  hash_eq _ _ h := NodeId.getHash_of_equal std (beq_iff_equal.mp h)

end Key

end ModernOpc
