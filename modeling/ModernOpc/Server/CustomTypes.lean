import Mathlib.Data.List.Induction
import Mathlib.Data.List.Perm.Basic
import ModernOpc.Library.Heap
import ModernOpc.Ua.Types

/-! What becomes of the server's custom data types.

open62541 keeps custom types as a chain of arrays, and does not free them. `~Server`
reads the chain before it deletes the server, and `cleanupCustomTypes` then walks over it:
arrays, their types, the members of these, and the names of all.

Of a union it counts one member less, and `mSize` is unsigned. `cleanup_iff`: on a chain of
blocks that belong to it alone, the walk comes to its end exactly if no union is without
members. Then it has freed everything once but the name of the last member of each union,
and nothing else. -/
namespace ModernOpc.Server.CustomTypes
open Library

/-- `UA_DataTypeMember`. -/
structure Member where
  memberName : Option Address
  deriving DecidableEq, Repr

/-- `UA_DataType`, as far as it is read. -/
structure DataType where
  typeName : Option Address
  typeKind : Ua.TypeKind
  membersSize : UInt32
  members : Option Address
  deriving DecidableEq, Repr

/-- `UA_DataTypeArray`. -/
structure DataTypeArray where
  next : Option Address
  typesSize : Nat
  types : Option Address
  deriving DecidableEq, Repr

inductive Block where
  | text
  | members (ms : List Member)
  | types (ts : List DataType)
  | array (a : DataTypeArray)
  deriving DecidableEq, Repr

/-! ### The walk -/

/-- `m` at `index`, with `left` members to go: `free(m->memberName)`, `m->memberName = NULL`. -/
def freeMembers (members : Option Address) : Nat → Nat → Heap Block → Option (Heap Block)
  | 0, _, h => some h
  | left + 1, index, h => do
    let a ← members
    let .members ms ← h a | none
    let m ← ms[index]?
    let h ← Heap.free m.memberName h
    let h ← Heap.write a (.members (ms.set index ⟨none⟩)) h
    freeMembers members left (index + 1) h

/-- `mSize`, which wraps. -/
def mSize (type : DataType) : UInt32 :=
  if type.typeKind = .union then type.membersSize - 1 else type.membersSize

def freeType (type : DataType) (h : Heap Block) : Option (Heap Block) := do
  let h ← Heap.free type.typeName h
  let h ← freeMembers type.members (mSize type).toNat 0 h
  Heap.free type.members h

/-- `type` at `index`, with `left` types to go. -/
def freeTypes (types : Address) : Nat → Nat → Heap Block → Option (Heap Block)
  | 0, _, h => some h
  | left + 1, index, h => do
    let .types ts ← h types | none
    let type ← ts[index]?
    let h ← freeType type h
    freeTypes types left (index + 1) h

/-- One round of the outer loop: `next`, and the heap. -/
def freeArray (types : Address) (h : Heap Block) : Option (Option Address × Heap Block) := do
  let .array array ← h types | none
  let h ←
    match array.types with
    | some a => freeTypes a array.typesSize 0 h
    | none => some h
  let h ← Heap.free array.types h
  let h ← Heap.free (some types) h
  return (array.next, h)

/-- How a walk may fail: on memory that is not there, or with rounds to go. -/
inductive Stop where
  | fault
  | unfinished
  deriving DecidableEq, Repr

/-- `cleanupCustomTypes`, for a number of rounds. -/
def cleanupCustomTypes : Nat → Option Address → Heap Block → Except Stop (Heap Block)
  | _, none, h => .ok h
  | 0, some _, _ => .error .unfinished
  | rounds + 1, some types, h =>
    match freeArray types h with
    | none => .error .fault
    | some (next, h) => cleanupCustomTypes rounds next h

/-! ### Chains -/

/-- A type in a chain: where its name and its members are, and the names of these. -/
structure TypeShape where
  typeName : Option Address
  typeKind : Ua.TypeKind
  members : Option Address
  names : List (Option Address)

/-- An array in a chain: where it is, where its types are, and these. -/
structure ArrayShape where
  self : Address
  types : Option Address
  content : List TypeShape

namespace TypeShape

def dataType (t : TypeShape) : DataType := ⟨t.typeName, t.typeKind, UInt32.ofNat t.names.length, t.members⟩

/-- Every block of the type. -/
def blocks (t : TypeShape) : List Address := (t.typeName.toList ++ t.names.filterMap id) ++ t.members.toList

/-- The names that the walk goes over. -/
def walked (t : TypeShape) : List (Option Address) := if t.typeKind = .union then t.names.dropLast else t.names

/-- The blocks that the walk frees. -/
def freed (t : TypeShape) : List Address := (t.typeName.toList ++ t.walked.filterMap id) ++ t.members.toList

/-- The name that the walk stops before. -/
def leaked (t : TypeShape) : List Address := if t.typeKind = .union then (t.names.getLast?.join).toList else []

/-- The members are where they should be; there are not as many as `mSize` can count. -/
structure In (t : TypeShape) (h : Heap Block) : Prop where
  members : match t.members with
    | none => t.names = []
    | some a => h a = some (.members (t.names.map Member.mk))
  size : t.names.length < 2 ^ 32

/-- A union has a member. -/
def Proper (t : TypeShape) : Prop := t.typeKind = .union → t.names ≠ []

end TypeShape

namespace ArrayShape

def blocks (d : ArrayShape) : List Address := (d.content.flatMap TypeShape.blocks ++ d.types.toList) ++ [d.self]

def freed (d : ArrayShape) : List Address := (d.content.flatMap TypeShape.freed ++ d.types.toList) ++ [d.self]

/-- The array is where it should be, and so are its types. -/
structure In (d : ArrayShape) (next : Option Address) (h : Heap Block) : Prop where
  content : ∀ t ∈ d.content, t.In h
  types : match d.types with
    | none => d.content = []
    | some a => h a = some (.types (d.content.map TypeShape.dataType))
  self : h d.self = some (.array ⟨next, d.content.length, d.types⟩)

def Proper (d : ArrayShape) : Prop := ∀ t ∈ d.content, t.Proper

end ArrayShape

/-- A chain that begins at a pointer. -/
def Chain (h : Heap Block) : Option Address → List ArrayShape → Prop
  | p, [] => p = none
  | p, d :: rest => p = some d.self ∧ ∃ next, d.In next h ∧ Chain h next rest

/-- No block belongs to the chain twice, and each is there. -/
structure Owns (h : Heap Block) (blocks : List Address) : Prop where
  nodup : blocks.Nodup
  present : ∀ a ∈ blocks, (h a).isSome = true

theorem Owns.left {h : Heap Block} {xs ys : List Address} (ho : Owns h (xs ++ ys)) : Owns h xs :=
  ⟨(List.nodup_append.mp ho.nodup).1, fun a ha => ho.present a (List.mem_append_left _ ha)⟩

theorem Owns.right {h : Heap Block} {xs ys : List Address} (ho : Owns h (xs ++ ys)) : Owns h ys :=
  ⟨(List.nodup_append.mp ho.nodup).2.1, fun a ha => ho.present a (List.mem_append_right _ ha)⟩

theorem Owns.sublist {h : Heap Block} {xs ys : List Address} (ho : Owns h ys) (hs : xs.Sublist ys) : Owns h xs :=
  ⟨hs.nodup ho.nodup, fun a ha => ho.present a (hs.subset ha)⟩

/-- Freeing some of the blocks does not touch the others. -/
theorem Owns.kept {h : Heap Block} {xs ys freed : List Address} (ho : Owns h (xs ++ ys)) (hf : ∀ a ∈ freed, a ∈ xs)
    {a : Address} (ha : a ∈ ys) : h.without freed a = h a :=
  Heap.without_of_not_mem fun hm => (List.nodup_append.mp ho.nodup).2.2 a (hf a hm) a ha rfl

theorem Owns.without {h : Heap Block} {xs ys freed : List Address} (ho : Owns h (xs ++ ys))
    (hf : ∀ a ∈ freed, a ∈ xs) :
    Owns (h.without freed) ys :=
  ⟨ho.right.nodup, fun a ha => by rw [ho.kept hf ha]; exact ho.right.present a ha⟩

/-! ### Members -/

/-- Walking over some members frees their names; the block of the members is still there. -/
theorem freeMembers_eq {a : Address} (names : List (Option Address)) {h : Heap Block} (pre post : List Member)
    (ha : h a = some (.members (pre ++ names.map Member.mk ++ post))) (ho : Owns h (names.filterMap id ++ [a])) :
    ∃ h', freeMembers (some a) names.length pre.length h = some h' ∧ (h' a).isSome = true ∧
      ∀ c, c ≠ a → h' c = h.without (names.filterMap id) c := by
  induction names generalizing h pre with
  | nil => exact ⟨h, rfl, by rw [ha]; rfl, fun _ _ => rfl⟩
  | cons name names ih =>
    have hsplit : (name :: names).filterMap id = name.toList ++ names.filterMap id := by cases name <;> rfl
    rw [hsplit, List.append_assoc] at ho
    have hfree : Heap.free name h = some (h.without name.toList) :=
      Heap.free_eq fun c hc => ho.left.present c (Option.mem_toList.mpr hc)
    have hkept : h.without name.toList a = h a := ho.kept (fun _ hc => hc) (by simp)
    have hwrite := Heap.write_eq (h := h.without name.toList) (a := a) (by rw [hkept, ha]; rfl)
      (.members ((pre ++ [⟨none⟩]) ++ names.map Member.mk ++ post))
    have ho' := ho.without fun _ hc => hc
    -- the members block has been written to, and the other blocks are as they were
    have hsame : ∀ c, c ≠ a → Function.update (h.without name.toList) a
        (some (.members ((pre ++ [⟨none⟩]) ++ names.map Member.mk ++ post))) c = h.without name.toList c :=
      fun c hc => Function.update_of_ne hc ..
    obtain ⟨h', hrest, hpresent, hother⟩ := ih
      (h := Function.update (h.without name.toList) a
        (some (.members ((pre ++ [⟨none⟩]) ++ names.map Member.mk ++ post))))
      (pre ++ [⟨none⟩]) (Function.update_self ..)
      ⟨ho'.nodup, fun c hc => by
        by_cases hca : c = a
        · rw [hca, Function.update_self]; rfl
        · rw [hsame c hca]; exact ho'.present c hc⟩
    refine ⟨h', ?_, hpresent, fun c hc => ?_⟩
    · have hget : (pre ++ (name :: names).map Member.mk ++ post)[pre.length]? = some ⟨name⟩ := by simp
      have hset : (pre ++ (name :: names).map Member.mk ++ post).set pre.length ⟨none⟩ =
          (pre ++ [⟨none⟩]) ++ names.map Member.mk ++ post := by simp
      have hlen : (pre ++ [(⟨none⟩ : Member)]).length = pre.length + 1 := by simp
      rw [hlen] at hrest
      simp only [List.length_cons, freeMembers, Option.bind_eq_bind, Option.bind_some, ha, hget, hfree, hset, hwrite,
        hrest]
    · rw [hother c hc, hsplit, ← Heap.without_append]
      by_cases hm : c ∈ names.filterMap id
      · rw [Heap.without_of_mem hm, Heap.without_of_mem hm]
      · rw [Heap.without_of_not_mem hm, Heap.without_of_not_mem hm]
        exact hsame c hc

/-- Afterwards the block of the members can be freed as well. -/
theorem freeMembers_free {a : Address} (names : List (Option Address)) {h : Heap Block} (post : List Member)
    (ha : h a = some (.members (names.map Member.mk ++ post))) (ho : Owns h (names.filterMap id ++ [a])) :
    (freeMembers (some a) names.length 0 h).bind (Heap.free (some a)) =
      some (h.without (names.filterMap id ++ [a])) := by
  obtain ⟨h', hmembers, hpresent, hother⟩ := freeMembers_eq names [] post ha ho
  have hlast : Heap.free (some a) h' = some (h'.without [a]) := Heap.free_eq fun c hc => by
    cases hc
    exact hpresent
  rw [show freeMembers (some a) names.length 0 h = some h' from hmembers, Option.bind_some, hlast]
  refine congrArg some (funext fun c => ?_)
  rw [← Heap.without_append]
  by_cases hc : c = a
  · rw [Heap.without_of_mem (List.mem_singleton.mpr hc), Heap.without_of_mem (List.mem_singleton.mpr hc)]
  · have hnot : c ∉ [a] := fun hm => hc (List.mem_singleton.mp hm)
    rw [Heap.without_of_not_mem hnot, hother c hc]
    exact (Heap.without_of_not_mem hnot).symm

namespace TypeShape

theorem walked_prefix {t : TypeShape} : ∃ post, t.names = t.walked ++ post := by
  unfold walked
  split
  · exact ⟨t.names.drop (t.names.length - 1), by rw [List.dropLast_eq_take, List.take_append_drop]⟩
  · exact ⟨[], (List.append_nil _).symm⟩

/-- Of a type that is no union without members, `mSize` counts the names that are walked over. -/
theorem mSize_walked {t : TypeShape} {h : Heap Block} (hin : t.In h) (hp : t.Proper) :
    (mSize t.dataType).toNat = t.walked.length := by
  have hsize := hin.size
  have hlen : (UInt32.ofNat t.names.length).toNat = t.names.length := by
    rw [UInt32.toNat_ofNat', Nat.mod_eq_of_lt hsize]
  show (if t.typeKind = .union then UInt32.ofNat t.names.length - 1 else UInt32.ofNat t.names.length).toNat = _
  unfold walked
  split
  · next hu =>
    have hpos : 0 < t.names.length := List.length_pos_iff.mpr (hp hu)
    have hle : (1 : UInt32) ≤ UInt32.ofNat t.names.length := UInt32.le_iff_toNat_le.mpr (by rw [hlen]; exact hpos)
    rw [UInt32.toNat_sub_of_le _ _ hle, hlen, List.length_dropLast]
    rfl
  · exact hlen

theorem freed_blocks {t : TypeShape} {a : Address} (ha : a ∈ t.freed) : a ∈ t.blocks := by
  obtain ⟨post, hpost⟩ := t.walked_prefix
  unfold blocks
  rw [hpost, List.filterMap_append]
  unfold freed at ha
  simp only [List.mem_append] at ha ⊢
  rcases ha with (ha | ha) | ha
  · exact .inl (.inl ha)
  · exact .inl (.inr (.inl ha))
  · exact .inr ha

/-- Its own blocks alone are read and freed. -/
theorem In.kept {t : TypeShape} {h : Heap Block} {xs ys freed : List Address} (hin : t.In h)
    (ho : Owns h (xs ++ (t.blocks ++ ys))) (hf : ∀ a ∈ freed, a ∈ xs) : t.In (h.without freed) where
  members := by
    have hmem := hin.members
    split at hmem
    · exact hmem
    · next a ha =>
      rw [ho.kept hf (by simp [blocks, ha])]
      exact hmem
  size := hin.size

theorem In.all_kept {content : List TypeShape} {h : Heap Block} {xs ys freed : List Address}
    (hin : ∀ t ∈ content, t.In h) (ho : Owns h (xs ++ (content.flatMap blocks ++ ys))) (hf : ∀ a ∈ freed, a ∈ xs) :
    ∀ t ∈ content, t.In (h.without freed) := by
  intro t ht
  obtain ⟨front, back, rfl⟩ := List.append_of_mem ht
  have ho : Owns h ((xs ++ front.flatMap blocks) ++ (t.blocks ++ (back.flatMap blocks ++ ys))) := by
    simpa [List.append_assoc] using ho
  exact (hin t ht).kept ho fun c hc => List.mem_append_left _ (hf c hc)

/-- A type is freed but for the name left out. -/
theorem freeType_eq {t : TypeShape} {h : Heap Block} (hin : t.In h) (ho : Owns h t.blocks) (hp : t.Proper) :
    freeType t.dataType h = some (h.without t.freed) := by
  obtain ⟨post, hpost⟩ := t.walked_prefix
  have hmem := hin.members
  have ho : Owns h (t.typeName.toList ++ (t.walked.filterMap id ++ (post.filterMap id ++ t.members.toList))) := by
    rw [blocks, hpost, List.filterMap_append, List.append_assoc, List.append_assoc] at ho
    exact ho
  have hname : Heap.free t.typeName h = some (h.without t.typeName.toList) :=
    Heap.free_eq fun a ha => ho.left.present a (Option.mem_toList.mpr ha)
  have hrest := ho.without fun _ hc => hc
  unfold freeType
  rw [mSize_walked hin hp]
  show (Heap.free t.typeName h).bind (fun h => (freeMembers t.members t.walked.length 0 h).bind fun h =>
    Heap.free t.members h) = _
  rw [hname, Option.bind_some]
  cases hm : t.members with
  | none =>
    rw [hm] at hmem
    have hwalked : t.walked = [] := by
      rw [hmem] at hpost
      exact (List.append_eq_nil_iff.mp hpost.symm).1
    rw [hwalked]
    simp only [List.length_nil, freeMembers, Option.bind_some, Heap.free, freed, hwalked, hm, List.filterMap_nil,
      Option.toList_none, List.append_nil]
  | some a =>
    rw [hm] at hmem hrest ho
    have hblock : h.without t.typeName.toList a =
        some (.members (t.walked.map Member.mk ++ post.map Member.mk)) := by
      rw [ho.kept (fun _ hc => hc) (by simp), hmem, hpost, List.map_append]
    have howned : Owns (h.without t.typeName.toList) (t.walked.filterMap id ++ [a]) :=
      hrest.sublist (List.Sublist.append_left (List.sublist_append_right _ _) _)
    show (freeMembers (some a) t.walked.length 0 _).bind (Heap.free (some a)) = _
    rw [freeMembers_free t.walked _ hblock howned, Heap.without_append, freed, hm, Option.toList_some,
      List.append_assoc]

/-- A union without members sends the walk over them beyond the block. -/
theorem freeType_fault {t : TypeShape} {h : Heap Block} (hin : t.In h) (ho : Owns h t.blocks) (hp : ¬ t.Proper) :
    freeType t.dataType h = none := by
  have hunion : t.typeKind = .union := Classical.byContradiction fun hu => hp fun he => absurd he hu
  have hnames : t.names = [] := Classical.byContradiction fun hn => hp fun _ => hn
  have hmem := hin.members
  have ho : Owns h (t.typeName.toList ++ t.members.toList) := by
    rw [blocks, hnames] at ho
    simpa using ho
  have hname : Heap.free t.typeName h = some (h.without t.typeName.toList) :=
    Heap.free_eq fun a ha => ho.left.present a (Option.mem_toList.mpr ha)
  have hcount : (mSize t.dataType).toNat = 4294967294 + 1 := by
    show (if t.typeKind = .union then UInt32.ofNat t.names.length - 1 else UInt32.ofNat t.names.length).toNat = _
    rw [if_pos hunion, hnames]
    rfl
  unfold freeType
  rw [hcount]
  show (Heap.free t.typeName h).bind (fun h => (freeMembers t.members (4294967294 + 1) 0 h).bind fun h =>
    Heap.free t.members h) = _
  rw [hname, Option.bind_some, freeMembers]
  cases hm : t.members with
  | none => rfl
  | some a =>
    rw [hm, hnames] at hmem
    have hblock : h.without t.typeName.toList a = some (.members []) := by
      rw [ho.kept (fun _ hc => hc) (by simp [hm])]
      exact hmem
    simp [hblock]

end TypeShape

/-! ### Types and arrays -/

/-- Walking over some types frees them if no union is without members. -/
theorem freeTypes_eq {a : Address} (content : List TypeShape) {h : Heap Block} (pre : List DataType)
    (ha : h a = some (.types (pre ++ content.map TypeShape.dataType))) (hin : ∀ t ∈ content, t.In h)
    (ho : Owns h (content.flatMap TypeShape.blocks ++ [a])) :
    ((∀ t ∈ content, t.Proper) →
      freeTypes a content.length pre.length h = some (h.without (content.flatMap TypeShape.freed))) ∧
    (¬ (∀ t ∈ content, t.Proper) → freeTypes a content.length pre.length h = none) := by
  induction content generalizing h pre with
  | nil => exact ⟨fun _ => rfl, fun hno => absurd (fun t ht => by cases ht) hno⟩
  | cons t content ih =>
    rw [List.flatMap_cons, List.append_assoc] at ho
    have hget : (pre ++ (t :: content).map TypeShape.dataType)[pre.length]? = some t.dataType := by simp
    have hstep : freeTypes a (t :: content).length pre.length h =
        (freeType t.dataType h).bind (freeTypes a content.length (pre.length + 1)) := by
      simp only [List.length_cons, freeTypes, ha, hget, Option.bind_eq_bind, Option.bind_some]
    rw [hstep]
    have hint := hin t (List.mem_cons_self ..)
    by_cases hp : t.Proper
    · have hfreed : ∀ c ∈ t.freed, c ∈ t.blocks := fun _ hc => TypeShape.freed_blocks hc
      have hblock : h.without t.freed a =
          some (.types ((pre ++ [t.dataType]) ++ content.map TypeShape.dataType)) := by
        rw [ho.kept hfreed (by simp), ha]
        simp
      have hin' := TypeShape.In.all_kept (fun t' ht' => hin t' (List.mem_cons_of_mem _ ht')) ho hfreed
      obtain ⟨hall, hnone⟩ := ih (pre ++ [t.dataType]) hblock hin' (ho.without hfreed)
      have hlen : (pre ++ [t.dataType]).length = pre.length + 1 := by simp
      rw [hlen] at hall hnone
      rw [TypeShape.freeType_eq hint ho.left hp, Option.bind_some]
      refine ⟨fun hproper => ?_, fun hno => hnone fun hproper => hno ?_⟩
      · rw [hall fun t' ht' => hproper t' (List.mem_cons_of_mem _ ht'), Heap.without_append]
        rfl
      · intro t' ht'
        rcases List.mem_cons.mp ht' with rfl | ht'
        · exact hp
        · exact hproper t' ht'
    · rw [TypeShape.freeType_fault hint ho.left hp]
      exact ⟨fun hproper => absurd (hproper t (List.mem_cons_self ..)) hp, fun _ => rfl⟩

namespace ArrayShape

theorem freed_blocks {d : ArrayShape} {a : Address} (ha : a ∈ d.freed) : a ∈ d.blocks := by
  unfold freed at ha
  unfold blocks
  rcases List.mem_append.mp ha with ha | ha
  · refine List.mem_append_left _ ?_
    rcases List.mem_append.mp ha with ha | ha
    · obtain ⟨t, ht, ha⟩ := List.mem_flatMap.mp ha
      exact List.mem_append_left _ (List.mem_flatMap.mpr ⟨t, ht, TypeShape.freed_blocks ha⟩)
    · exact List.mem_append_right _ ha
  · exact List.mem_append_right _ ha

theorem freeArray_eq {d : ArrayShape} {next : Option Address} {h : Heap Block} (hin : d.In next h)
    (ho : Owns h d.blocks) :
    (d.Proper → freeArray d.self h = some (next, h.without d.freed)) ∧ (¬ d.Proper → freeArray d.self h = none) := by
  have ho : Owns h (d.content.flatMap TypeShape.blocks ++ (d.types.toList ++ [d.self])) := by
    rw [← List.append_assoc]
    exact ho
  have hfreed : ∀ c ∈ d.content.flatMap TypeShape.freed, c ∈ d.content.flatMap TypeShape.blocks := by
    intro c hc
    obtain ⟨t, ht, hc⟩ := List.mem_flatMap.mp hc
    exact List.mem_flatMap.mpr ⟨t, ht, TypeShape.freed_blocks hc⟩
  -- the loop over the types, whatever it is over
  have htypes : (d.Proper → (match d.types with
        | some a => freeTypes a d.content.length 0 h
        | none => some h) = some (h.without (d.content.flatMap TypeShape.freed))) ∧
      (¬ d.Proper → (match d.types with
        | some a => freeTypes a d.content.length 0 h
        | none => some h) = none) := by
    have hblock := hin.types
    cases ht : d.types with
    | none =>
      rw [ht] at hblock
      have hproper : d.Proper := fun t hmem => by rw [hblock] at hmem; cases hmem
      exact ⟨fun _ => by rw [hblock]; rfl, fun hno => absurd hproper hno⟩
    | some a =>
      rw [ht] at hblock ho
      have hnodup : Owns h (d.content.flatMap TypeShape.blocks ++ [a]) := by
        have hsplit : Owns h ((d.content.flatMap TypeShape.blocks ++ [a]) ++ [d.self]) := by
          rw [List.append_assoc]
          exact ho
        exact hsplit.left
      exact freeTypes_eq d.content [] hblock hin.content hnodup
  have hunfold : freeArray d.self h = (match d.types with
        | some a => freeTypes a d.content.length 0 h
        | none => some h).bind fun h => (Heap.free d.types h).bind fun h =>
          (Heap.free (some d.self) h).bind fun h => some (next, h) := by
    unfold freeArray
    rw [hin.self]
    cases d.types <;> rfl
  refine ⟨fun hproper => ?_, fun hno => ?_⟩
  · have hrest := ho.without hfreed
    have hfreeTypes : Heap.free d.types (h.without (d.content.flatMap TypeShape.freed)) =
        some ((h.without (d.content.flatMap TypeShape.freed)).without d.types.toList) :=
      Heap.free_eq fun a ha => hrest.left.present a (Option.mem_toList.mpr ha)
    have hself := hrest.without fun _ hc => hc
    have hfreeSelf : Heap.free (some d.self)
        ((h.without (d.content.flatMap TypeShape.freed)).without d.types.toList) = some (h.without d.freed) := by
      rw [Heap.free_eq fun a ha => hself.present a (List.mem_singleton.mpr (Option.some.inj ha).symm)]
      rw [Heap.without_append, Heap.without_append, Option.toList_some, freed, List.append_assoc]
    rw [hunfold, htypes.1 hproper, Option.bind_some, hfreeTypes, Option.bind_some, hfreeSelf, Option.bind_some]
  · rw [hunfold, htypes.2 hno, Option.bind_none]

/-- Its own blocks alone are read and freed. -/
theorem In.kept {d : ArrayShape} {next : Option Address} {h : Heap Block} {xs ys freed : List Address}
    (hin : d.In next h) (ho : Owns h (xs ++ (d.blocks ++ ys))) (hf : ∀ a ∈ freed, a ∈ xs) :
    d.In next (h.without freed) where
  content := by
    have ho : Owns h (xs ++ (d.content.flatMap TypeShape.blocks ++ (d.types.toList ++ ([d.self] ++ ys)))) := by
      simpa [blocks, List.append_assoc] using ho
    exact TypeShape.In.all_kept hin.content ho hf
  types := by
    have htypes := hin.types
    split at htypes
    · exact htypes
    · next a ha =>
      rw [ho.kept hf (by simp [blocks, ha])]
      exact htypes
  self := by
    rw [ho.kept hf (by simp [blocks])]
    exact hin.self

end ArrayShape

/-! ### What is left -/

namespace TypeShape

/-- Of the names one is left out at most. -/
theorem names_perm (t : TypeShape) : (t.names.filterMap id).Perm (t.walked.filterMap id ++ t.leaked) := by
  unfold walked leaked
  split
  · cases hn : t.names using List.reverseRecOn with
    | nil => exact .nil
    | append_singleton names name =>
      rw [List.dropLast_concat, List.getLast?_concat, List.filterMap_append]
      cases name <;> exact .refl _
  · rw [List.append_nil]

theorem blocks_perm (t : TypeShape) : t.blocks.Perm (t.freed ++ t.leaked) := by
  unfold blocks freed
  have hrest : ((t.walked.filterMap id ++ t.leaked) ++ t.members.toList).Perm
      ((t.walked.filterMap id ++ t.members.toList) ++ t.leaked) := by
    rw [List.append_assoc, List.append_assoc]
    exact List.perm_append_comm.append_left _
  rw [List.append_assoc, List.append_assoc, List.append_assoc]
  exact ((t.names_perm.append_right _).trans (by simpa only [List.append_assoc] using hrest)).append_left _

end TypeShape

namespace ArrayShape

def leaked (d : ArrayShape) : List Address := d.content.flatMap TypeShape.leaked

theorem blocks_perm (d : ArrayShape) : d.blocks.Perm (d.freed ++ d.leaked) := by
  have hcontent : (d.content.flatMap TypeShape.blocks).Perm
      (d.content.flatMap TypeShape.freed ++ d.content.flatMap TypeShape.leaked) :=
    (List.Perm.flatMap_left d.content fun t _ => t.blocks_perm).trans (List.flatMap_append_perm ..).symm
  unfold blocks freed leaked
  rw [List.append_assoc, List.append_assoc, List.append_assoc]
  refine (hcontent.append_right _).trans ?_
  rw [List.append_assoc]
  refine List.Perm.append_left _ ?_
  rw [← List.append_assoc d.types.toList]
  exact List.perm_append_comm

end ArrayShape

/-- Of the blocks of a chain those are freed that are not left out. -/
theorem mem_freed {chain : List ArrayShape} {h : Heap Block} (ho : Owns h (chain.flatMap ArrayShape.blocks))
    {a : Address} :
    a ∈ chain.flatMap ArrayShape.freed ↔
      a ∈ chain.flatMap ArrayShape.blocks ∧ a ∉ chain.flatMap ArrayShape.leaked := by
  have hperm : (chain.flatMap ArrayShape.blocks).Perm
      (chain.flatMap ArrayShape.freed ++ chain.flatMap ArrayShape.leaked) :=
    (List.Perm.flatMap_left chain fun d _ => d.blocks_perm).trans (List.flatMap_append_perm ..).symm
  have hdisjoint := (List.nodup_append.mp (hperm.nodup_iff.mp ho.nodup)).2.2
  rw [hperm.mem_iff, List.mem_append]
  constructor
  · exact fun ha => ⟨.inl ha, fun hl => hdisjoint a ha a hl rfl⟩
  · rintro ⟨ha | ha, hl⟩
    · exact ha
    · exact absurd ha hl

/-! ### The whole chain -/

theorem Chain.kept {chain : List ArrayShape} {p : Option Address} {h : Heap Block} {xs freed : List Address}
    (hc : Chain h p chain) (ho : Owns h (xs ++ chain.flatMap ArrayShape.blocks)) (hf : ∀ a ∈ freed, a ∈ xs) :
    Chain (h.without freed) p chain := by
  induction chain generalizing p xs with
  | nil => exact hc
  | cons d rest ih =>
    obtain ⟨hp, next, hin, hrest⟩ := hc
    rw [List.flatMap_cons] at ho
    have hkept : d.In next (h.without freed) := hin.kept ho hf
    rw [← List.append_assoc] at ho
    exact ⟨hp, next, hkept, ih hrest ho fun a ha => List.mem_append_left _ (hf a ha)⟩

theorem cleanup_eq {chain : List ArrayShape} {p : Option Address} {h : Heap Block} {rounds : Nat}
    (hc : Chain h p chain) (ho : Owns h (chain.flatMap ArrayShape.blocks)) (hr : chain.length ≤ rounds) :
    ((∀ d ∈ chain, d.Proper) →
      cleanupCustomTypes rounds p h = .ok (h.without (chain.flatMap ArrayShape.freed))) ∧
    (¬ (∀ d ∈ chain, d.Proper) → cleanupCustomTypes rounds p h = .error .fault) := by
  induction chain generalizing p h rounds with
  | nil =>
    cases hc
    refine ⟨fun _ => ?_, fun hno => absurd (fun d hd => by cases hd) hno⟩
    cases rounds <;> rfl
  | cons d rest ih =>
    obtain ⟨rfl, next, hin, hrest⟩ := hc
    obtain ⟨rounds, rfl⟩ := Nat.exists_eq_succ_of_ne_zero (n := rounds) (by rw [List.length_cons] at hr; omega)
    rw [List.flatMap_cons] at ho
    obtain ⟨hall, hnone⟩ := ArrayShape.freeArray_eq hin ho.left
    rw [cleanupCustomTypes]
    by_cases hp : d.Proper
    · have hfreed : ∀ a ∈ d.freed, a ∈ d.blocks := fun _ ha => ArrayShape.freed_blocks ha
      obtain ⟨hok, hfault⟩ := ih (hrest.kept ho hfreed) (ho.without hfreed) (Nat.le_of_succ_le_succ hr)
      rw [hall hp]
      refine ⟨fun hproper => ?_, fun hno => hfault fun hproper => hno ?_⟩
      · show cleanupCustomTypes rounds next (h.without d.freed) = _
        rw [hok fun d' hd' => hproper d' (List.mem_cons_of_mem _ hd'), Heap.without_append]
        rfl
      · intro d' hd'
        rcases List.mem_cons.mp hd' with rfl | hd'
        · exact hp
        · exact hproper d' hd'
    · rw [hnone hp]
      exact ⟨fun hproper => absurd (hproper d (List.mem_cons_self ..)) hp, fun _ => rfl⟩

/-- On the blocks of a chain the walk ends exactly if every union has a member, and faults
otherwise. At its end the chain is gone, each block freed once, but for the names of the
last members of the unions; whatever else there is has not been touched. -/
theorem cleanup_iff {chain : List ArrayShape} {p : Option Address} {h : Heap Block} {rounds : Nat}
    (hc : Chain h p chain) (ho : Owns h (chain.flatMap ArrayShape.blocks)) (hr : chain.length ≤ rounds) :
    ((∃ h', cleanupCustomTypes rounds p h = .ok h') ↔
      ∀ d ∈ chain, ∀ t ∈ d.content, t.typeKind = .union → t.names ≠ []) ∧
    (cleanupCustomTypes rounds p h = .error .fault ↔
      ∃ d ∈ chain, ∃ t ∈ d.content, t.typeKind = .union ∧ t.names = []) ∧
    ∀ h', cleanupCustomTypes rounds p h = .ok h' → ∀ a,
      h' a = if a ∈ chain.flatMap ArrayShape.blocks ∧ a ∉ chain.flatMap ArrayShape.leaked then none else h a := by
  obtain ⟨hok, hfault⟩ := cleanup_eq hc ho hr
  have himproper : (¬ ∀ d ∈ chain, d.Proper) ↔
      ∃ d ∈ chain, ∃ t ∈ d.content, t.typeKind = .union ∧ t.names = [] := by
    simp only [ArrayShape.Proper, TypeShape.Proper, not_forall, ne_eq, not_not, exists_prop]
  by_cases hp : ∀ d ∈ chain, d.Proper
  · rw [hok hp, ← himproper]
    refine ⟨⟨fun _ => hp, fun _ => ⟨_, rfl⟩⟩, ⟨(nomatch ·), fun hno => absurd hp hno⟩, ?_⟩
    intro h' he a
    rw [← Except.ok.inj he]
    by_cases ha : a ∈ chain.flatMap ArrayShape.freed
    · rw [Heap.without_of_mem ha, if_pos ((mem_freed ho).mp ha)]
    · rw [Heap.without_of_not_mem ha, if_neg fun h => ha ((mem_freed ho).mpr h)]
  · rw [hfault hp, ← himproper]
    exact ⟨⟨fun ⟨_, he⟩ => (nomatch he), fun hall => absurd hall hp⟩, ⟨fun _ => hp, fun _ => rfl⟩,
      fun h' he => nomatch he⟩

/-- A structure and a union, at an address each. -/
def shapes : ArrayShape where
  self := 1
  types := some 2
  content := [⟨some 3, .struct, some 4, [some 5, none]⟩, ⟨some 6, .union, some 7, [some 8, some 9]⟩]

def shapesHeap : Heap Block
  | 1 => some (.array ⟨none, 2, some 2⟩)
  | 2 => some (.types (shapes.content.map TypeShape.dataType))
  | 4 => some (.members [⟨some 5⟩, ⟨none⟩])
  | 7 => some (.members [⟨some 8⟩, ⟨some 9⟩])
  | 3 | 5 | 6 | 8 | 9 | 10 => some .text
  | _ => none

/-- Of the structure nothing is left, and of the union the name at 9; the text at 10 was never part of it. -/
theorem cleanup_of_shapes : ∃ h', cleanupCustomTypes 1 (some 1) shapesHeap = .ok h' ∧
    (∀ a ∈ [1, 2, 3, 4, 5, 6, 7, 8], h' a = none) ∧ h' 9 = some .text ∧ h' 10 = some .text := by
  have hchain : Chain shapesHeap (some 1) [shapes] := by
    refine ⟨rfl, none, ⟨?_, rfl, rfl⟩, rfl⟩
    intro t ht
    rcases List.mem_cons.mp ht with rfl | ht
    · exact ⟨rfl, by decide⟩
    · rcases List.mem_singleton.mp ht with rfl
      exact ⟨rfl, by decide⟩
  have howns : Owns shapesHeap ([shapes].flatMap ArrayShape.blocks) := ⟨by decide, by decide⟩
  have hrounds : [shapes].length ≤ 1 := by decide
  obtain ⟨hends, -, hleft⟩ := cleanup_iff hchain howns hrounds
  obtain ⟨h', hh⟩ := hends.mpr (by decide)
  refine ⟨h', hh, ?_⟩
  simp only [hleft h' hh]
  decide

end ModernOpc.Server.CustomTypes
