import ModernOpc.Library.Slice
import ModernOpc.Server.Callbacks

/-! Index ranges on variables with a data source.

open62541 leaves a range to the callbacks, and these have no parameter to hand it on with:
they ask the data source for the whole value and give it the value written as a whole.

The data sources here keep the value: a read gives it, and a write that they accept
replaces it. `ranges_honoured_iff`: a ranged access is what it says exactly if there is no
data source, or the range is the whole array and the value written, if accepted, is an
array of its length; a refused write passes only if it would change nothing. -/
namespace ModernOpc.Ranges
open Library

/-! ### Ranges -/

/-- `UA_NumericRangeDimension`. -/
structure Dimension where
  min : UInt32
  max : UInt32
  deriving DecidableEq, Repr

/-- `UA_NumericRange`. -/
abbrev NumericRange := List Dimension

namespace NumericRange

/-- The elements of an array that a range selects; it has one dimension for an array. -/
def select (range : NumericRange) (xs : List Ua.Value) : Option (List Ua.Value) :=
  match range with
  | [d] => Slice.select d.min.toNat d.max.toNat xs
  | _ => none

/-- The array with the elements a range selects replaced, if all of them exist. -/
def replace (range : NumericRange) (new xs : List Ua.Value) : Option (List Ua.Value) :=
  match range with
  | [d] => Slice.replace d.min.toNat d.max.toNat new xs
  | _ => none

end NumericRange

/-! ### The callbacks -/

/-- A data source that keeps a value, with the state its two functions share. -/
structure Keeper (σ : Type) where
  current : σ → Ua.Variant
  m_write : σ → NodeId → Ua.Variant → σ × Ua.StatusCode
  accepted : ∀ s id v, (m_write s id v).2 = .good → current (m_write s id v).1 = v
  refused : ∀ s id v, (m_write s id v).2 ≠ .good → current (m_write s id v).1 = current s

/-- As the callbacks find it: a read stores the value with `var(value)`. -/
def Keeper.source {σ : Type} (ds : Keeper σ) : DataSource σ where
  key := []
  m_read s _ := (s, ⟨[], [.call (.output 0) (ds.current s)]⟩, .good)
  m_write := ds.m_write

/-- `Server::internalRead` as open62541 calls it. -/
def internalRead {σ : Type} (nodeContext : Option (Keeper σ)) (s : σ) (nodeId : Ua.NodeId)
    (_range : Option NumericRange) (value : Nat) (m : Memory) : Option (Ua.StatusCode × Memory) :=
  (ModernOpc.internalRead (nodeContext.map Keeper.source) s nodeId value m).map fun (status, _, m) => (status, m)

/-- What a write leaves: the status, the data source's state and the values it was given. -/
structure Written (σ : Type) where
  status : Ua.StatusCode
  state : σ
  calls : List Ua.Variant
  memory : Memory

/-- `Server::internalWrite` as open62541 calls it. -/
def internalWrite {σ : Type} (nodeContext : Option (Keeper σ)) (s : σ) (nodeId : Ua.NodeId)
    (_range : Option NumericRange) (value : Nat) (m : Memory) : Option (Written σ) :=
  match nodeContext with
  | none => some ⟨.badNoData, s, [], m⟩
  | some ds => do
    let var := Variant.wrap (.foreign value) false
    let v := m.content (.foreign value)
    let (s, _) := ds.m_write s (fromUaNodeId nodeId) v
    let m ← var.destroy m
    return ⟨.good, s, [v], m⟩

section Callbacks
variable {σ : Type} (nodeContext : Option (Keeper σ)) (s : σ) (nodeId : Ua.NodeId)
  (range : Option NumericRange) (value : Nat) (m : Memory)

theorem internalWrite_callback :
    (internalWrite nodeContext s nodeId range value m).map (fun w => (w.status, w.state, w.memory)) =
      ModernOpc.internalWrite (nodeContext.map Keeper.source) s nodeId value m := by
  cases nodeContext <;> rfl

/-- A read gives the whole value, whatever the range. -/
theorem internalRead_eq (ds : Keeper σ) (hlive : .foreign value ∉ m.deleted) :
    internalRead (some ds) s nodeId range value m = some (.good, m.store (.foreign value) (ds.current s)) := by
  have hderef : m.deref (some (.foreign value)) = some (.foreign value) :=
    Memory.deref_eq_some.mpr ⟨rfl, Memory.exists?_iff.mpr ⟨hlive, fun _ h => by cases h⟩⟩
  simp [internalRead, ModernOpc.internalRead, Keeper.source, DataSource.read, Body.perform, holdAll, Run.final,
    Frame.step, Frame.get, Ref.writable, Frame.withMemory, Variant.call, Variant.wrap, hderef, destroyAll,
    Variant.destroy]

theorem internalWrite_eq (ds : Keeper σ) :
    internalWrite (some ds) s nodeId range value m =
      some ⟨.good, (ds.m_write s (fromUaNodeId nodeId) (m.content (.foreign value))).1,
        [m.content (.foreign value)], m⟩ := rfl

end Callbacks

/-! ### Ranged accesses -/

/-- A good ranged read gives what the range selects of the value, and where it selects
nothing the status is bad. -/
def HonoursRead (current : Ua.Variant) (range : NumericRange) (value : Nat)
    (outcome : Option (Ua.StatusCode × Memory)) : Prop :=
  ∃ status m, outcome = some (status, m) ∧
    (∀ part, range.select current.elements = some part → status = .good →
      (m.content (.foreign value)).elements = part) ∧
    (range.select current.elements = none → status.Bad)

/-- A good ranged write replaces what the range selects in an array that stays as long as it
was, and where it cannot the status is bad and the data source is not asked. -/
def HonoursWrite {σ : Type} (ds : Keeper σ) (s : σ) (range : NumericRange) (v : Ua.Variant)
    (outcome : Option (Written σ)) : Prop :=
  ∃ w, outcome = some w ∧
    (∀ whole, range.replace v.elements (ds.current s).elements = some whole → w.status = .good →
      (ds.current w.state).elements = whole ∧
        (ds.current w.state).arrayLength = (ds.current s).arrayLength) ∧
    (range.replace v.elements (ds.current s).elements = none → w.status.Bad ∧ w.calls = [])

/-- The range selects all of an array of `n` elements, or more. -/
def Covers (range : NumericRange) (n : Nat) : Prop := ∃ d, range = [d] ∧ d.min = 0 ∧ 0 < n ∧ n ≤ d.max.toNat + 1

/-- The range is that of an array of `n` elements. -/
def Exact (range : NumericRange) (n : Nat) : Prop := ∃ d, range = [d] ∧ d.min = 0 ∧ d.max.toNat + 1 = n

/-- The elements that the range selects all exist, and are those given. -/
def Present (range : NumericRange) (new xs : List Ua.Value) : Prop :=
  ∃ d, range = [d] ∧ d.max.toNat < xs.length ∧ range.select xs = some new

theorem select_all_iff (range : NumericRange) (xs : List Ua.Value) :
    range.select xs = some xs ↔ Covers range xs.length := by
  unfold NumericRange.select Covers
  split
  · next d =>
    rw [Slice.select_eq_self_iff, ← List.length_pos_iff]
    simp [← UInt32.toNat_inj]
  · next hne =>
    refine ⟨fun h => (by cases h), fun ⟨d, hd, _⟩ => absurd hd (hne d)⟩

theorem replace_all_iff (range : NumericRange) (new xs : List Ua.Value) :
    range.replace new xs = some new ↔ Exact range xs.length ∧ new.length = xs.length := by
  unfold NumericRange.replace Exact
  split
  · next d =>
    rw [Slice.replace_eq_new_iff]
    simp [← UInt32.toNat_inj, and_assoc]
  · next hne =>
    refine ⟨fun h => (by cases h), fun ⟨⟨d, hd, _⟩, _⟩ => absurd hd (hne d)⟩

theorem replace_self_iff (range : NumericRange) (new xs : List Ua.Value) :
    range.replace new xs = some xs ↔ Present range new xs := by
  unfold NumericRange.replace Present
  split
  · next d =>
    rw [Slice.replace_eq_self_iff]
    simp [NumericRange.select]
  · next hne => exact ⟨fun h => (by cases h), fun ⟨d, hd, _⟩ => absurd hd (hne d)⟩

section Accesses
variable {σ : Type} (ds : Keeper σ) (s : σ)
  (nodeId : Ua.NodeId) (range : NumericRange) (value : Nat) (m : Memory)

/-- Without a data source every access is refused. -/
theorem unconnected_honours :
    HonoursRead (ds.current s) range value
      (internalRead (none : Option (Keeper σ)) s nodeId (some range) value m) ∧
    HonoursWrite ds s range (m.content (.foreign value))
      (internalWrite (none : Option (Keeper σ)) s nodeId (some range) value m) := by
  have hbad : Ua.StatusCode.badNoData.Bad := by decide
  have hne : Ua.StatusCode.badNoData ≠ .good := by decide
  exact ⟨⟨_, _, rfl, fun _ _ hgood => absurd hgood hne, fun _ => hbad⟩,
    ⟨_, rfl, fun _ _ hgood => absurd hgood hne, fun _ => ⟨hbad, rfl⟩⟩⟩

theorem read_honoured_iff (hlive : .foreign value ∉ m.deleted) :
    HonoursRead (ds.current s) range value (internalRead (some ds) s nodeId (some range) value m) ↔
      Covers range (ds.current s).elements.length := by
  have hread := internalRead_eq s nodeId (some range) value m ds hlive
  have hcontent : (m.store (.foreign value) (ds.current s)).content (.foreign value) = ds.current s :=
    Function.update_self ..
  rw [← select_all_iff]
  constructor
  · intro ⟨status, m', houtcome, hpart, hnone⟩
    cases hread.symm.trans houtcome
    cases hselect : range.select (ds.current s).elements with
    | none => exact absurd (hnone hselect) Ua.StatusCode.good_not_bad
    | some part => rw [← hpart part hselect rfl, hcontent]
  · intro h
    refine ⟨_, _, hread, fun part hpart _ => ?_, fun hnone => ?_⟩
    · rw [hcontent]
      exact Option.some.inj (h.symm.trans hpart)
    · rw [h] at hnone
      cases hnone

/-- What a good write must have left. -/
theorem good_write_honoured_iff {w : Written σ} {v : Ua.Variant} (hgood : w.status = .good) :
    HonoursWrite ds s range v (some w) ↔
      range.replace v.elements (ds.current s).elements = some (ds.current w.state).elements ∧
        (ds.current w.state).arrayLength = (ds.current s).arrayLength := by
  constructor
  · intro ⟨w', hw', hwhole, hnone⟩
    cases hw'
    cases hreplace : range.replace v.elements (ds.current s).elements with
    | none =>
      have hbad := (hnone hreplace).1
      rw [hgood] at hbad
      exact absurd hbad Ua.StatusCode.good_not_bad
    | some whole =>
      obtain ⟨helements, hlength⟩ := hwhole whole hreplace hgood
      exact ⟨congrArg some helements.symm, hlength⟩
  · intro ⟨hreplace, hlength⟩
    refine ⟨w, rfl, fun whole hwhole _ => ?_, fun hnone => ?_⟩
    · exact ⟨Option.some.inj (hreplace.symm.trans hwhole), hlength⟩
    · rw [hreplace] at hnone
      cases hnone

/-- A value as long as an array of elements has them. -/
theorem elements_length {v : Ua.Variant} (hv : v = .init ∨ v.WellFormed) {n : Nat} (hn : 0 < n)
    (h : v.arrayLength = n) : v.elements.length = n := by
  rcases hv with rfl | hv
  · exact h
  · refine (hv.array (Bool.eq_false_iff.mpr fun hs => ?_)).trans h
    have := Ua.Variant.arrayLength_of_scalar hs
    omega

/-- The write that the callback makes leaves the value as a whole, or what was there. -/
theorem write_honoured_iff (harray : (ds.current s).WellFormed ∧ (ds.current s).isScalar = false)
    (hvalue : m.content (.foreign value) = .init ∨ (m.content (.foreign value)).WellFormed) :
    HonoursWrite ds s range (m.content (.foreign value))
        (internalWrite (some ds) s nodeId (some range) value m) ↔
      if (ds.m_write s (fromUaNodeId nodeId) (m.content (.foreign value))).2 = .good then
        Exact range (ds.current s).arrayLength ∧
          (m.content (.foreign value)).arrayLength = (ds.current s).arrayLength
      else Present range (m.content (.foreign value)).elements (ds.current s).elements := by
  have hlength := harray.1.array harray.2
  rw [internalWrite_eq, good_write_honoured_iff ds s range rfl]
  split
  · next haccepted =>
    rw [ds.accepted s _ _ haccepted, replace_all_iff, hlength, and_assoc]
    refine and_congr_right fun ⟨d, _, _, hmax⟩ => and_iff_right_of_imp fun hv => ?_
    exact elements_length hvalue (by omega) hv
  · next hrefused => rw [ds.refused s _ _ hrefused, and_iff_left rfl, replace_self_iff]

end Accesses

/-- Ranged accesses to an array are honoured exactly if there is no data source; or, for a
read, if the range covers the array, and for a write, if the range is that of the array
and the value accepted is as long, or the value refused is there already. -/
theorem ranges_honoured_iff {σ : Type} (ds : Keeper σ) (connected : Bool) (s : σ) (nodeId : Ua.NodeId)
    (range : NumericRange) (value : Nat) (m : Memory) (hlive : .foreign value ∉ m.deleted)
    (harray : (ds.current s).WellFormed ∧ (ds.current s).isScalar = false)
    (hvalue : m.content (.foreign value) = .init ∨ (m.content (.foreign value)).WellFormed) :
    (HonoursRead (ds.current s) range value
        (internalRead (if connected then some ds else none) s nodeId (some range) value m) ↔
      connected = false ∨ Covers range (ds.current s).arrayLength) ∧
    (HonoursWrite ds s range (m.content (.foreign value))
        (internalWrite (if connected then some ds else none) s nodeId (some range) value m) ↔
      connected = false ∨
        if (ds.m_write s (fromUaNodeId nodeId) (m.content (.foreign value))).2 = .good then
          Exact range (ds.current s).arrayLength ∧
            (m.content (.foreign value)).arrayLength = (ds.current s).arrayLength
        else Present range (m.content (.foreign value)).elements (ds.current s).elements) := by
  cases connected with
  | false =>
    obtain ⟨hread, hwrite⟩ := unconnected_honours ds s nodeId range value m
    exact ⟨⟨fun _ => .inl rfl, fun _ => hread⟩, ⟨fun _ => .inl rfl, fun _ => hwrite⟩⟩
  | true =>
    have hread := read_honoured_iff ds s nodeId range value m hlive
    have hwrite := write_honoured_iff ds s nodeId range value m harray hvalue
    rw [harray.1.array harray.2] at hread
    exact ⟨hread.trans (by simp), hwrite.trans (by simp)⟩

/-- A variable of the server's program. -/
def plain : Keeper Ua.Variant where
  current := id
  m_write _ _ v := (v, .good)
  accepted _ _ _ _ := rfl
  refused _ _ _ h := absurd rfl h

def numbers (xs : List Int32) : Ua.Variant := .setArrayCopy (some (xs.map .int32)) (Ua.builtin .int32)

theorem numbers_wellFormed (xs : List Int32) : (numbers xs).WellFormed ∧ (numbers xs).isScalar = false := by
  refine ⟨Ua.Variant.setArrayCopy_wellFormed fun x hx => ?_, by cases xs <;> rfl⟩
  obtain ⟨i, _, rfl⟩ := List.mem_map.mp hx
  rfl

/-- Memory with a value that is written. -/
def writing (v : Ua.Variant) : Memory := ⟨fun _ => v, 0, []⟩

/-- Two numbers read and written as the range `0:1`. -/
theorem whole_range_honoured :
    HonoursRead (numbers [1, 2]) [⟨0, 1⟩] 0
      (internalRead (some plain) (numbers [1, 2]) ⟨1, .numeric 1⟩ (some [⟨0, 1⟩]) 0
        (writing (numbers [3, 4]))) ∧
    HonoursWrite plain (numbers [1, 2]) [⟨0, 1⟩] (numbers [3, 4])
      (internalWrite (some plain) (numbers [1, 2]) ⟨1, .numeric 1⟩ (some [⟨0, 1⟩]) 0
        (writing (numbers [3, 4]))) := by
  have h := ranges_honoured_iff plain true (numbers [1, 2]) ⟨1, .numeric 1⟩ [⟨0, 1⟩] 0
    (writing (numbers [3, 4])) (fun hmem => by cases hmem) (numbers_wellFormed [1, 2])
    (.inr (numbers_wellFormed [3, 4]).1)
  exact ⟨h.1.mpr (.inr ⟨⟨0, 1⟩, rfl, rfl, by decide, by decide⟩),
    h.2.mpr (.inr ⟨⟨⟨0, 1⟩, rfl, rfl, rfl⟩, rfl⟩)⟩

/-- The second of three numbers is read as all three. -/
theorem part_read_as_whole : ¬ ∀ (s : Ua.Variant) (range : NumericRange), s.WellFormed ∧ s.isScalar = false →
    HonoursRead s range 0 (internalRead (some plain) s ⟨1, .numeric 1⟩ (some range) 0 .blank) := by
  intro h
  have hread := (read_honoured_iff plain _ _ _ _ _ (fun hmem => by cases hmem)).mp
    (h (numbers [1, 2, 3]) [⟨1, 1⟩] (numbers_wellFormed [1, 2, 3]))
  obtain ⟨d, hd, hmin, _⟩ := hread
  cases hd
  cases hmin

end ModernOpc.Ranges
