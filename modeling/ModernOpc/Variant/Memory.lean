import ModernOpc.Ua.Types
import Mathlib.Logic.Function.Basic

/-! The class `Variant`: a pointer to a `UA_Variant` and a flag that says who deletes it.

A `UA_Variant` is a cell of memory: one handed in from outside, or one made by
`UA_Variant_new`, which is taken not to run out. Memory keeps the contents of the
cells and every deletion. A member function has no result where the code follows a
null pointer or one to a deleted cell.

Values enter by their encoding, `toUAVariant` of the value, and an encoding that
throws is `none`. -/
namespace ModernOpc

/-! ### Memory -/

/-- A `UA_Variant` from outside, or one of `UA_Variant_new`. -/
inductive Cell where
  | foreign (n : Nat)
  | allocated (n : Nat)
  deriving DecidableEq, Repr

/-- The contents, the number of cells allocated, and every deletion, latest first. -/
structure Memory where
  content : Cell → Ua.Variant
  next : Nat
  deleted : List Cell

namespace Memory

/-- `UA_Variant_new`. -/
def new (m : Memory) : Cell × Memory :=
  (.allocated m.next,
    {m with content := Function.update m.content (.allocated m.next) .init, next := m.next + 1})

def store (m : Memory) (c : Cell) (v : Ua.Variant) : Memory :=
  {m with content := Function.update m.content c v}

/-- `UA_Variant_copy`: the destination is zeroed before the source is read. -/
def copy (m : Memory) (src dst : Cell) : Memory :=
  let zeroed := m.store dst .init
  zeroed.store dst (zeroed.content src)

/-- `UA_Variant_delete`. -/
def delete (m : Memory) (c : Cell) : Memory :=
  {m with deleted := c :: m.deleted}

/-- A cell that was allocated, if it is one of ours, and not deleted. -/
def exists? (m : Memory) (c : Cell) : Bool :=
  !m.deleted.contains c &&
    match c with
    | .foreign _ => true
    | .allocated n => n < m.next

/-- The cell a pointer leads to. -/
def deref (m : Memory) (p : Option Cell) : Option Cell := p.filter m.exists?

/-- No cell was deleted before it was allocated. -/
def Proper (m : Memory) : Prop := ∀ n, .allocated n ∈ m.deleted → n < m.next

@[simp] theorem copy_deleted (m : Memory) (src dst : Cell) : (m.copy src dst).deleted = m.deleted := rfl

/-- What a cell holds after it was copied into; nothing if it was copied into itself. -/
theorem copy_content (m : Memory) (src dst : Cell) :
    (m.copy src dst).content dst = Function.update m.content dst .init src := Function.update_self ..

theorem copy_content_of_ne (m : Memory) (src : Cell) {dst d : Cell} (h : d ≠ dst) :
    (m.copy src dst).content d = m.content d :=
  (Function.update_of_ne h ..).trans (Function.update_of_ne h ..)

@[simp] theorem delete_deleted (m : Memory) (c : Cell) : (m.delete c).deleted = c :: m.deleted := rfl

theorem exists?_iff {m : Memory} {c : Cell} :
    m.exists? c = true ↔ c ∉ m.deleted ∧ ∀ n, c = .allocated n → n < m.next := by
  cases c <;> simp [exists?]

theorem Proper.next_not_deleted {m : Memory} (h : m.Proper) : .allocated m.next ∉ m.deleted :=
  fun hm => Nat.lt_irrefl _ (h _ hm)

theorem deref_eq_some {m : Memory} {p : Option Cell} {c : Cell} :
    m.deref p = some c ↔ p = some c ∧ m.exists? c = true := Option.filter_eq_some_iff

end Memory

theorem new_ne_of_exists {m : Memory} {d : Cell} (h : m.exists? d = true) : d ≠ .allocated m.next := by
  intro he
  subst he
  exact absurd ((Memory.exists?_iff.mp h).2 _ rfl) (Nat.lt_irrefl _)

theorem exists_of_grown {m m' : Memory} {d : Cell} (hn : m.next ≤ m'.next)
    (hd : d ∈ m'.deleted → d ∈ m.deleted) (h : m.exists? d = true) : m'.exists? d = true := by
  rw [Memory.exists?_iff] at h ⊢
  exact ⟨fun hm => h.1 (hd hm), fun n he => Nat.lt_of_lt_of_le (h.2 n he) hn⟩

/-! ### The class -/

structure Variant where
  variant : Option Cell
  owned : Bool
  deriving DecidableEq, Repr

namespace Variant

/-- `Variant()`. -/
def default (m : Memory) : Variant × Memory :=
  let (cell, m) := m.new
  (⟨some cell, true⟩, m)

/-- `Variant(UA_Variant *var, bool owner)`. -/
def wrap (var : Cell) (owner : Bool) : Variant := ⟨some var, owner⟩

/-- `Variant(T &&val)`. Where the encoding throws there is no object, and nobody deletes
the cell. -/
def ofValue (encoding : Option Ua.Variant) (m : Memory) : Option Variant × Memory :=
  let (cell, m) := m.new
  match encoding with
  | some v => (some ⟨some cell, true⟩, m.store cell v)
  | none => (none, m)

/-- `~Variant()`. -/
def destroy (self : Variant) (m : Memory) : Option Memory :=
  if self.owned then self.variant.map m.delete else some m

/-- `Variant(const Variant &other)`. -/
def copy (other : Variant) (m : Memory) : Option (Variant × Memory) := do
  let src ← m.deref other.variant
  let (cell, m) := m.new
  return (⟨some cell, true⟩, m.copy src cell)

/-- `operator=(const Variant &other)`. -/
def copyAssign (self other : Variant) (m : Memory) : Option (Variant × Memory) := do
  let dst ← m.deref self.variant
  -- `UA_Variant_clear`, `UA_Variant_init`
  let m := if self.owned then m.store dst .init else m
  let src ← m.deref other.variant
  return ({self with owned := true}, m.copy src dst)

/-- `Variant(Variant &&other)`: the new object, and what is left of the other. -/
def move (other : Variant) : Variant × Variant := (⟨other.variant, other.owned⟩, ⟨none, false⟩)

/-- `operator=(Variant &&other)`, on two objects or on one: it begins like the destructor. -/
def moveAssign (self other : Variant) (m : Memory) : Option ((Variant × Variant) × Memory) := do
  let m ← self.destroy m
  return (move other, m)

/-- `operator()(const T &val)`. An encoding that throws does so before it writes. -/
def call (self : Variant) (encoding : Option Ua.Variant) (m : Memory) : Option Memory := do
  let dst ← m.deref self.variant
  match encoding with
  | some v => return m.store dst v
  | none => return m

/-- The cell it would delete. -/
def held (self : Variant) : Option Cell := if self.owned then self.variant else none

theorem held_eq_some {self : Variant} {c : Cell} :
    self.held = some c ↔ self.owned = true ∧ self.variant = some c := by
  simp [held]

/-- A destructor deletes what the object holds, and fails on an owned null pointer. -/
theorem destroy_eq_some {self : Variant} {m m' : Memory} (h : self.destroy m = some m') :
    m' = {m with deleted := self.held.toList ++ m.deleted} := by
  unfold destroy at h
  split at h
  · next howned =>
    obtain ⟨c, hc, rfl⟩ := Option.map_eq_some_iff.mp h
    rw [held_eq_some.mpr ⟨howned, hc⟩]
    rfl
  · next howned =>
    cases h
    rw [held, if_neg howned]
    rfl

theorem destroy_of_pointer {self : Variant} {c : Cell} (h : self.variant = some c) (m : Memory) :
    self.destroy m = some {m with deleted := self.held.toList ++ m.deleted} := by
  unfold destroy held
  cases self.owned
  · rfl
  · rw [h]
    rfl

/-- A copy has a cell of its own, with what the other one holds. -/
theorem copy_of_deref {other : Variant} {m : Memory} {c : Cell} (hm : m.Proper)
    (h : m.deref other.variant = some c) :
    ∃ v m' d, other.copy m = some (v, m') ∧ m'.deref v.variant = some d ∧ m'.content d = m.content c ∧
      m'.deref other.variant = some c ∧ m'.content c = m.content c := by
  obtain ⟨hv, hc⟩ := Memory.deref_eq_some.mp h
  have hne := new_ne_of_exists hc
  have hcopy : other.copy m =
      some (⟨some (.allocated m.next), true⟩, m.new.2.copy c (.allocated m.next)) := by
    simp only [copy, h]
    rfl
  refine ⟨_, _, .allocated m.next, hcopy, ?_, ?_, ?_, ?_⟩
  · refine Memory.deref_eq_some.mpr ⟨rfl, Memory.exists?_iff.mpr ⟨hm.next_not_deleted, ?_⟩⟩
    intro n he
    cases he
    exact Nat.lt_succ_self _
  · rw [Memory.copy_content, Function.update_of_ne hne]
    exact Function.update_of_ne hne ..
  · exact Memory.deref_eq_some.mpr ⟨hv, exists_of_grown (Nat.le_succ _) id hc⟩
  · rw [Memory.copy_content_of_ne _ _ hne]
    exact Function.update_of_ne hne ..

/-- A Variant made from a value holds its encoding. -/
theorem ofValue_stores {m : Memory} (hm : m.Proper) (u : Ua.Variant) :
    ∃ v m' c, ofValue (some u) m = (some v, m') ∧ m'.Proper ∧ m'.deref v.variant = some c ∧ m'.content c = u := by
  refine ⟨_, _, .allocated m.next, rfl, fun n hn => Nat.lt_succ_of_lt (hm n hn), ?_, Function.update_self ..⟩
  refine Memory.deref_eq_some.mpr ⟨rfl, Memory.exists?_iff.mpr ⟨hm.next_not_deleted, ?_⟩⟩
  intro n he
  cases he
  exact Nat.lt_succ_self _

/-- A Variant a value is stored in holds its encoding, whatever it held. -/
theorem call_stores {self : Variant} {m : Memory} {c : Cell} (hc : m.deref self.variant = some c)
    (u : Ua.Variant) :
    ∃ m', self.call (some u) m = some m' ∧ (m.Proper → m'.Proper) ∧ m'.deref self.variant = some c ∧
      m'.content c = u := by
  refine ⟨m.store c u, by simp [call, hc], id, hc, Function.update_self ..⟩

/-- An assignment that completes follows both pointers. -/
theorem copyAssign_derefs {self other : Variant} {m : Memory} {p : Variant × Memory}
    (h : self.copyAssign other m = some p) :
    ∃ c d, m.deref self.variant = some c ∧ m.deref other.variant = some d := by
  obtain ⟨c, hc, h⟩ := Option.bind_eq_some_iff.mp h
  obtain ⟨d, hd, _⟩ := Option.bind_eq_some_iff.mp h
  refine ⟨c, d, hc, ?_⟩
  rw [← hd]
  split <;> rfl

/-- A copy assignment copies into the target's cell, and claims it; a cell copied onto
itself is emptied. -/
theorem copyAssign_of_deref {self other : Variant} {m : Memory} {c d : Cell}
    (hc : m.deref self.variant = some c) (hd : m.deref other.variant = some d) :
    ∃ m', self.copyAssign other m = some ({self with owned := true}, m') ∧ m'.next = m.next ∧
      m'.deleted = m.deleted ∧ m'.content c = (if c = d then .init else m.content d) ∧
      ∀ e, e ≠ c → m'.content e = m.content e := by
  -- the memory after the first branch
  have hcleared : ∃ m₁, (if self.owned then m.store c .init else m) = m₁ ∧ m₁.next = m.next ∧
      m₁.deleted = m.deleted ∧ ∀ e, e ≠ c → m₁.content e = m.content e := by
    refine ⟨_, rfl, ?_, ?_, fun e he => ?_⟩
    · split <;> rfl
    · split <;> rfl
    · split
      · exact Function.update_of_ne he ..
      · rfl
  obtain ⟨m₁, hm₁, hnext, hdeleted, hcontent⟩ := hcleared
  have hd₁ : m₁.deref other.variant = some d := by
    obtain ⟨hv, hexists⟩ := Memory.deref_eq_some.mp hd
    refine Memory.deref_eq_some.mpr ⟨hv, exists_of_grown (Nat.le_of_eq hnext.symm) ?_ hexists⟩
    rw [hdeleted]
    exact id
  refine ⟨m₁.copy d c, by simp [copyAssign, hc, hm₁, hd₁], hnext, hdeleted, ?_, fun e he => ?_⟩
  · rw [Memory.copy_content]
    split
    · next heq => rw [heq, Function.update_self]
    · next hne => rw [Function.update_of_ne (Ne.symm hne), hcontent d (Ne.symm hne)]
  · rw [Memory.copy_content_of_ne _ _ he]
    exact hcontent e he

end Variant

end ModernOpc
