import ModernOpc.Library.Simulation
import ModernOpc.Variant.Assignment

/-! Variants as values.

What the class is for: a Variant has a value of its own, or stands for a `UA_Variant` from
outside, and no operation on one of them is seen through another (`Model`). There are no
cells and no pointers in it; a copy is a value and a move leaves nothing behind.

`value_semantics_iff`: as long as only `UA_Variant`s from outside are wrapped, a run of the
class keeps step with this at every point, faults and who deletes what included, exactly if
every copy assignment has a target that owns what it points to, and a source elsewhere or an
empty one. -/
namespace ModernOpc.Ownership
open Library Library.Custody

/-! ### The specification -/

/-- What a Variant stands for: a value, the `UA_Variant` number `n` from outside, which it
deletes or not, or nothing, after a move. -/
inductive Holding where
  | value (v : Ua.Variant)
  | outside (n : Nat) (owner : Bool)
  | nothing
  deriving DecidableEq, Repr

/-- The live Variants, the `UA_Variant`s from outside that were not deleted, and which of
those were handed over for good. -/
structure Model where
  objects : Nat → Option Holding
  outside : Nat → Option Ua.Variant
  taken : List Nat

namespace Model

def start (content : Cell → Ua.Variant) : Model where
  objects _ := none
  outside n := some (content (.foreign n))
  taken := []

/-- What is read through a Variant. -/
def read (m : Model) : Holding → Option Ua.Variant
  | .value v => some v
  | .outside n _ => m.outside n
  | .nothing => none

def value (m : Model) (x : Nat) : Option Ua.Variant := (m.objects x).bind m.read

def set (m : Model) (x : Nat) (h : Option Holding) : Model :=
  {m with objects := Function.update m.objects x h}

/-- What a store through the Variant `x` changes. -/
def write (m : Model) (x : Nat) (v : Ua.Variant) : Holding → Model
  | .value _ => m.set x (some (.value v))
  | .outside n _ => {m with outside := Function.update m.outside n (some v)}
  | .nothing => m

/-- What the end of a Variant changes elsewhere. -/
def release (m : Model) : Holding → Model
  | .outside n true => {m with outside := Function.update m.outside n none}
  | _ => m

/-- One operation, under the names of the class. -/
def step (m : Model) : Op → Option Model
  | .default x => do
    guard (m.objects x).isNone
    return m.set x (some (.value .init))
  | .ofValue x encoding => do
    guard (m.objects x).isNone
    return m.set x (encoding.map .value)
  | .wrap x (.foreign n) owner => do
    guard (m.objects x).isNone
    guard ((m.outside n).isSome && (!owner || !m.taken.contains n))
    return {m with taken := taking (.foreign n) owner ++ m.taken}.set x (some (.outside n owner))
  | .wrap _ (.allocated _) _ => none
  | .copyCtor x y => do
    guard (m.objects x).isNone
    let v ← m.value y
    return m.set x (some (.value v))
  | .moveCtor x y => do
    guard (m.objects x).isNone
    let other ← m.objects y
    return (m.set x (some other)).set y (some .nothing)
  | .copyAssign x y => do
    let self ← m.objects x
    let _ ← m.read self
    let v ← m.value y
    return m.write x v self
  | .moveAssign x y => do
    let self ← m.objects x
    let other ← m.objects y
    return ((m.release self).set x (some other)).set y (some .nothing)
  | .call x encoding => do
    let self ← m.objects x
    let _ ← m.read self
    match encoding with
    | some v => return m.write x v self
    | none => return m
  | .destroy x => do
    let self ← m.objects x
    return (m.release self).set x none

/-- The target owns what it points to, and the source points elsewhere or is empty. -/
def Assignable (m : Model) (x y : Nat) : Holding → Holding → Prop
  | .value _, .value v => x ≠ y ∨ v = .init
  | .outside n owner, .outside k _ => owner = true ∧ (n ≠ k ∨ m.outside k = some .init)
  | .outside _ owner, _ => owner = true
  | _, _ => True

/-- What an operation must respect, if the class is to behave as this says. -/
def Respects (m : Model) : Op → Prop
  | .copyAssign x y => ∀ self other, m.objects x = some self → m.objects y = some other →
      m.Assignable x y self other
  | _ => True

end Model

/-- Only a `UA_Variant` from outside is wrapped. -/
def FromOutside : Op → Prop
  | .wrap _ (.allocated _) _ => False
  | _ => True

/-! ### The relation -/

/-- The object of a name stands for what the specification says. -/
def Represents (s : State) (x : Nat) : Option Holding → Prop
  | none => s.objects x = none
  | some (.value v) => ∃ k, s.objects x = some ⟨some (.allocated k), true⟩ ∧
      s.memory.exists? (.allocated k) = true ∧ s.memory.content (.allocated k) = v
  | some (.outside n owner) => s.objects x = some ⟨some (.foreign n), owner⟩
  | some .nothing => s.objects x = some ⟨none, false⟩

structure Refines (s : State) (m : Model) : Prop where
  proper : s.memory.Proper
  objects : ∀ x, Represents s x (m.objects x)
  /-- No two objects point to one cell of the class. -/
  apart : ∀ x y k, s.objects x = some ⟨some (.allocated k), true⟩ →
    s.objects y = some ⟨some (.allocated k), true⟩ → x = y
  outside : ∀ n, m.outside n =
    if .foreign n ∈ s.memory.deleted then none else some (s.memory.content (.foreign n))
  taken : m.taken = s.taken

theorem refines_start (content : Cell → Ua.Variant) : Refines (start content) (Model.start content) where
  proper n hn := by cases hn
  objects _ := rfl
  apart x y k hx := by cases hx
  outside _ := rfl
  taken := rfl

/-- An object, under its name or a new one, and its cell are as before. -/
theorem Represents.frame {s t : State} {z z' : Nat} {o : Option Holding} (h : Represents s z o)
    (hobject : t.objects z' = s.objects z)
    (hcell : ∀ k, s.objects z = some ⟨some (.allocated k), true⟩ → s.memory.exists? (.allocated k) = true →
      t.memory.exists? (.allocated k) = true ∧
        t.memory.content (.allocated k) = s.memory.content (.allocated k)) : Represents t z' o := by
  match o, h with
  | none, h => exact hobject.trans h
  | some (.value v), ⟨k, hk, hexists, hcontent⟩ =>
    obtain ⟨hexists', hcontent'⟩ := hcell k hk hexists
    exact ⟨k, hobject.trans hk, hexists', hcontent'.trans hcontent⟩
  | some (.outside n owner), h => exact hobject.trans h
  | some .nothing, h => exact hobject.trans h

/-- What an object is, by what it stands for. -/
theorem Represents.isNone_iff {s : State} {x : Nat} {o : Option Holding} (h : Represents s x o) :
    s.objects x = none ↔ o = none := by
  match o, h with
  | none, h => exact ⟨fun _ => rfl, fun _ => h⟩
  | some (.value v), ⟨k, hk, _⟩ => simp [hk]
  | some (.outside n owner), h => simp [show s.objects x = _ from h]
  | some .nothing, h => simp [show s.objects x = _ from h]

namespace Refines
variable {s : State} {m : Model}

theorem unused (h : Refines s m) (x : Nat) : s.objects x = none ↔ m.objects x = none :=
  (h.objects x).isNone_iff

/-- A live object, by what it stands for: where it points to, and what is read there. -/
theorem live (h : Refines s m) {x : Nat} {self : Holding} (hx : m.objects x = some self) :
    ∃ v, s.objects x = some v ∧ (s.memory.deref v.variant).map s.memory.content = m.read self := by
  have hrep := h.objects x
  rw [hx] at hrep
  match self, hrep with
  | .value v, ⟨k, hk, hexists, hcontent⟩ =>
    refine ⟨_, hk, ?_⟩
    rw [Memory.deref_eq_some.mpr ⟨rfl, hexists⟩]
    exact congrArg some hcontent
  | .outside n owner, hk =>
    refine ⟨_, hk, ?_⟩
    show _ = m.outside n
    rw [h.outside n]
    by_cases hn : .foreign n ∈ s.memory.deleted <;> simp [Memory.deref, Memory.exists?, hn]
  | .nothing, hk => exact ⟨_, hk, rfl⟩

/-- What is read through a name is what the specification says. -/
theorem value (h : Refines s m) (x : Nat) : s.value x = m.value x := by
  cases hx : m.objects x with
  | none => simp [State.value, Model.value, hx, (h.unused x).mpr hx]
  | some self =>
    obtain ⟨v, hv, hread⟩ := h.live hx
    rw [Model.value, hx, Option.bind_some, ← hread, State.value, hv]
    exact (Option.map_eq_bind ..).symm

/-- An object with a cell of the class stands for the value in it. -/
theorem cell (h : Refines s m) {x k : Nat} (hx : s.objects x = some ⟨some (.allocated k), true⟩) :
    s.memory.exists? (.allocated k) = true ∧ m.objects x = some (.value (s.memory.content (.allocated k))) := by
  have hrep := h.objects x
  generalize m.objects x = o at hrep ⊢
  match o, hrep with
  | none, hn => cases hx.symm.trans hn
  | some (.value v), ⟨k', hk, hexists, hcontent⟩ =>
    cases hx.symm.trans hk
    exact ⟨hexists, by rw [hcontent]⟩
  | some (.outside n owner), hn => cases hx.symm.trans hn
  | some .nothing, hn => cases hx.symm.trans hn

/-! ### Changes to the two states -/

/-- An object is made around a new cell that holds a value. -/
theorem made (h : Refines s m) {x : Nat} {mem : Memory} {v : Ua.Variant}
    (hnext : mem.next = s.memory.next + 1) (hdeleted : mem.deleted = s.memory.deleted)
    (hcontent : mem.content (.allocated s.memory.next) = v)
    (hframe : ∀ c, c ≠ .allocated s.memory.next → mem.content c = s.memory.content c) :
    Refines ((s.withMemory mem).set x (some ⟨some (.allocated s.memory.next), true⟩))
      (m.set x (some (.value v))) where
  proper n hn := hnext ▸ Nat.lt_succ_of_lt (h.proper n (hdeleted ▸ hn))
  objects z := by
    by_cases hz : z = x
    · subst hz
      show Represents _ z (Function.update m.objects z _ z)
      rw [Function.update_self]
      refine ⟨s.memory.next, Function.update_self .., Memory.exists?_iff.mpr ⟨?_, ?_⟩, hcontent⟩
      · exact hdeleted ▸ h.proper.next_not_deleted
      · intro n hn
        cases hn
        exact hnext ▸ Nat.lt_succ_self _
    · show Represents _ z (Function.update m.objects x _ z)
      rw [Function.update_of_ne hz]
      refine (h.objects z).frame (Function.update_of_ne hz ..) fun k _ hexists => ⟨?_, ?_⟩
      · exact exists_of_grown (hnext ▸ Nat.le_succ _) (fun hd => hdeleted ▸ hd) hexists
      · exact hframe _ (new_ne_of_exists hexists)
  apart y z k hy hz := by
    -- no object of before points to the new cell
    have hnew : ∀ w, s.objects w ≠ some ⟨some (.allocated s.memory.next), true⟩ := fun w hw =>
      new_ne_of_exists (h.cell hw).1 rfl
    rcases Book.holds_update hy with ⟨rfl, hk⟩ | ⟨_, hy'⟩ <;> rcases Book.holds_update hz with ⟨rfl, hk'⟩ | ⟨_, hz'⟩
    · rfl
    · cases hk
      exact absurd hz' (hnew z)
    · cases hk'
      exact absurd hy' (hnew y)
    · exact h.apart y z k hy' hz'
  outside n := by
    show m.outside n = if _ ∈ mem.deleted then _ else _
    rw [h.outside n, hdeleted]
    exact if_congr Iff.rfl rfl (congrArg some (hframe _ (by simp)).symm)
  taken := h.taken

/-- A name that was not used stands for nothing, or for a `UA_Variant` from outside. -/
theorem wrapped (h : Refines s m) (x : Nat) {v : Variant} {self : Holding}
    (hself : self = .nothing ∧ v = ⟨none, false⟩ ∨
      ∃ n owner, self = .outside n owner ∧ v = ⟨some (.foreign n), owner⟩) :
    Refines (s.set x (some v)) (m.set x (some self)) where
  proper := h.proper
  objects z := by
    by_cases hz : z = x
    · subst hz
      show Represents _ z (Function.update m.objects z _ z)
      rw [Function.update_self]
      rcases hself with ⟨rfl, rfl⟩ | ⟨n, owner, rfl, rfl⟩ <;> exact Function.update_self ..
    · show Represents _ z (Function.update m.objects x _ z)
      rw [Function.update_of_ne hz]
      exact (h.objects z).frame (Function.update_of_ne hz ..) fun k _ hexists => ⟨hexists, rfl⟩
  apart y z k hy hz := by
    have hno : ∀ k, some v ≠ some ⟨some (.allocated k), true⟩ := by
      rcases hself with ⟨_, rfl⟩ | ⟨n, owner, _, rfl⟩ <;> simp
    rcases Book.holds_update hy with ⟨_, hk⟩ | ⟨_, hy⟩
    · exact absurd hk (hno k)
    · rcases Book.holds_update hz with ⟨_, hk⟩ | ⟨_, hz⟩
      · exact absurd hk (hno k)
      · exact h.apart y z k hy hz
  outside := h.outside
  taken := h.taken

/-- A value is stored where an object points to. -/
theorem stored (h : Refines s m) {x : Nat} {self : Holding} (hx : m.objects x = some self) {obj : Variant}
    (hobj : s.objects x = some obj) {c : Cell} (hc : s.memory.deref obj.variant = some c) {mem : Memory}
    {v : Ua.Variant} (hnext : mem.next = s.memory.next) (hdeleted : mem.deleted = s.memory.deleted)
    (hcontent : mem.content c = v) (hframe : ∀ d, d ≠ c → mem.content d = s.memory.content d) :
    Refines (s.withMemory mem) (m.write x v self) := by
  obtain ⟨hpointer, hexists⟩ := Memory.deref_eq_some.mp hc
  have hrep := hx ▸ h.objects x
  have hproper : mem.Proper := fun n hn => hnext ▸ h.proper n (hdeleted ▸ hn)
  have hsame : ∀ d, mem.exists? d = s.memory.exists? d := fun d => by
    simp [Memory.exists?, hnext, hdeleted]
  cases self with
  | value u =>
    obtain ⟨k, hk, _, _⟩ : Represents s x (some (.value u)) := hrep
    cases hobj.symm.trans hk
    cases hpointer
    refine ⟨hproper, fun z => ?_, h.apart, fun n => ?_, h.taken⟩
    · by_cases hz : z = x
      · subst hz
        show Represents _ z (Function.update m.objects z _ z)
        rw [Function.update_self]
        exact ⟨k, hk, (hsame _).trans hexists, hcontent⟩
      · show Represents _ z (Function.update m.objects x _ z)
        rw [Function.update_of_ne hz]
        refine (h.objects z).frame rfl fun k' hk' hexists' => ⟨(hsame _).trans hexists', hframe _ ?_⟩
        intro he
        cases he
        exact hz (h.apart z x k hk' hk)
    · show m.outside n = if _ ∈ mem.deleted then _ else _
      rw [h.outside n, hdeleted]
      exact if_congr Iff.rfl rfl (congrArg some (hframe _ (by simp)).symm)
  | outside n owner =>
    cases hobj.symm.trans hrep
    cases hpointer
    refine ⟨hproper, fun z => ?_, h.apart, fun n' => ?_, h.taken⟩
    · exact (h.objects z).frame rfl fun k' _ hexists' => ⟨(hsame _).trans hexists', hframe _ (by simp)⟩
    · show Function.update m.outside n _ n' = if _ ∈ mem.deleted then _ else some (mem.content _)
      by_cases hn : n' = n
      · subst hn
        rw [Function.update_self, hdeleted, if_neg (Memory.exists?_iff.mp hexists).1, hcontent]
      · rw [Function.update_of_ne hn, h.outside n', hdeleted, hframe _ (by simpa using hn)]
  | nothing =>
    cases hobj.symm.trans hrep
    cases hpointer

/-- An object that would delete a cell of the class owns it. -/
theorem owns_of_held {x k : Nat} {obj : Variant} (hobj : s.objects x = some obj)
    (hheld : obj.held = some (.allocated k)) : s.objects x = some ⟨some (.allocated k), true⟩ := by
  obtain ⟨howned, hpointer⟩ := Variant.held_eq_some.mp hheld
  obtain ⟨pointer, owned⟩ := obj
  exact hobj.trans (congrArg some (Variant.mk.injEq .. ▸ ⟨hpointer, howned⟩))

/-- The cells of the other objects outlast one of them. -/
theorem spared (h : Refines s m) {x : Nat} {obj : Variant} (hobj : s.objects x = some obj) {mem : Memory}
    (hnext : mem.next = s.memory.next) (hdeleted : mem.deleted = obj.held.toList ++ s.memory.deleted)
    {z k : Nat} (hz : z ≠ x) (hk : s.objects z = some ⟨some (.allocated k), true⟩) :
    mem.exists? (.allocated k) = true := by
  refine exists_of_grown (Nat.le_of_eq hnext.symm) (fun hd => ?_) (h.cell hk).1
  rw [hdeleted] at hd
  refine (List.mem_append.mp hd).resolve_left fun hd => hz ?_
  exact h.apart z x k hk (owns_of_held hobj (Option.mem_toList.mp hd))

/-- What is left from outside, where none of it is deleted. -/
theorem outside_kept (h : Refines s m) {obj : Variant} (hno : ∀ n, obj.held ≠ some (.foreign n)) (n : Nat) :
    m.outside n = if .foreign n ∈ obj.held.toList ++ s.memory.deleted then none
      else some (s.memory.content (.foreign n)) := by
  rw [h.outside n]
  refine if_congr ?_ rfl rfl
  rw [List.mem_append, Option.mem_toList]
  exact (or_iff_right (hno n)).symm

/-- What is left from outside after an end. -/
theorem outside_released (h : Refines s m) {x : Nat} {self : Holding} (hx : m.objects x = some self)
    {obj : Variant} (hobj : s.objects x = some obj) (n : Nat) :
    (m.release self).outside n = if .foreign n ∈ obj.held.toList ++ s.memory.deleted then none
      else some (s.memory.content (.foreign n)) := by
  have hrep := hx ▸ h.objects x
  match self, hrep with
  | .value u, ⟨k, hk, _, _⟩ =>
    cases hobj.symm.trans hk
    exact h.outside_kept (by simp [Variant.held]) n
  | .outside k false, hk =>
    cases hobj.symm.trans hk
    exact h.outside_kept (by simp [Variant.held]) n
  | .outside k true, hk =>
    cases hobj.symm.trans hk
    show Function.update m.outside k none n = _
    by_cases hn : n = k
    · subst hn
      rw [Function.update_self, if_pos (List.mem_append_left _ (by simp [Variant.held]))]
    · rw [Function.update_of_ne hn, h.outside n]
      exact if_congr (by simp [Variant.held, hn]) rfl rfl
  | .nothing, hk =>
    cases hobj.symm.trans hk
    exact h.outside_kept (by simp [Variant.held]) n

/-- An object ends, and deletes what it holds. -/
theorem released (h : Refines s m) {x : Nat} {self : Holding} (hx : m.objects x = some self) {obj : Variant}
    (hobj : s.objects x = some obj) {mem : Memory} (hdestroy : obj.destroy s.memory = some mem) :
    Refines ((s.withMemory mem).set x none) ((m.release self).set x none) := by
  have hmem := Variant.destroy_eq_some hdestroy
  have hnext : mem.next = s.memory.next := by rw [hmem]
  have hdeleted : mem.deleted = obj.held.toList ++ s.memory.deleted := by rw [hmem]
  have hcontent : mem.content = s.memory.content := by rw [hmem]
  have hrelease : (m.release self).objects = m.objects ∧ (m.release self).taken = m.taken := by
    unfold Model.release
    split <;> exact ⟨rfl, rfl⟩
  refine ⟨fun n hn => ?_, fun z => ?_, fun y z k hy hz => ?_, fun n => ?_, hrelease.2.trans h.taken⟩
  · replace hn : .allocated n ∈ mem.deleted := hn
    rw [hdeleted] at hn
    show n < mem.next
    rw [hnext]
    rcases List.mem_append.mp hn with hn | hn
    · have hcell := owns_of_held hobj (Option.mem_toList.mp hn)
      exact (Memory.exists?_iff.mp (h.cell hcell).1).2 n rfl
    · exact h.proper n hn
  · show Represents _ z (Function.update (m.release self).objects x none z)
    rw [hrelease.1]
    by_cases hz : z = x
    · subst hz
      rw [Function.update_self]
      exact Function.update_self ..
    · rw [Function.update_of_ne hz]
      refine (h.objects z).frame (Function.update_of_ne hz ..) fun k hk _ => ⟨?_, congrFun hcontent _⟩
      exact h.spared hobj hnext hdeleted hz hk
  · rcases Book.holds_update hy with ⟨_, hk⟩ | ⟨_, hy⟩
    · cases hk
    · rcases Book.holds_update hz with ⟨_, hk⟩ | ⟨_, hz⟩
      · cases hk
      · exact h.apart y z k hy hz
  · show (m.release self).outside n = if _ ∈ mem.deleted then _ else some (mem.content _)
    rw [hdeleted, hcontent]
    exact h.outside_released hx hobj n

/-- An object is moved to an unused name. -/
theorem moved (h : Refines s m) {x y : Nat} (hx : s.objects x = none) {other : Holding}
    (hy : m.objects y = some other) {obj : Variant} (hobj : s.objects y = some obj) :
    Refines ((s.set x (some obj)).set y (some ⟨none, false⟩)) ((m.set x (some other)).set y (some .nothing)) where
  proper := h.proper
  objects z := by
    have hxy : x ≠ y := fun he => by
      subst he
      cases hx.symm.trans hobj
    show Represents _ z (Function.update (Function.update m.objects x (some other)) y (some .nothing) z)
    by_cases hzy : z = y
    · subst hzy
      rw [Function.update_self]
      exact Function.update_self ..
    · rw [Function.update_of_ne hzy]
      by_cases hzx : z = x
      · subst hzx
        rw [Function.update_self, ← hy]
        refine (h.objects y).frame ?_ fun k _ hexists => ⟨hexists, rfl⟩
        exact (Function.update_of_ne hzy ..).trans ((Function.update_self ..).trans hobj.symm)
      · rw [Function.update_of_ne hzx]
        refine (h.objects z).frame ?_ fun k _ hexists => ⟨hexists, rfl⟩
        exact (Function.update_of_ne hzy ..).trans (Function.update_of_ne hzx ..)
  apart z w k hz hw := by
    -- each object that is left has its place among the earlier ones
    have hbefore : ∀ z, Function.update (Function.update s.objects x (some obj)) y (some ⟨none, false⟩) z =
        some ⟨some (.allocated k), true⟩ →
        (z = x ∧ s.objects y = some ⟨some (.allocated k), true⟩) ∨
        (z ≠ x ∧ z ≠ y ∧ s.objects z = some ⟨some (.allocated k), true⟩) := by
      intro z hz
      rcases Book.holds_update hz with ⟨_, hk⟩ | ⟨hzy, hz⟩
      · cases hk
      · rcases Book.holds_update hz with ⟨hzx, hk⟩ | ⟨hzx, hz⟩
        · exact .inl ⟨hzx, hobj.trans hk⟩
        · exact .inr ⟨hzx, hzy, hz⟩
    rcases hbefore z hz with ⟨hzx, hzk⟩ | ⟨_, hzy, hzk⟩ <;> rcases hbefore w hw with ⟨hwx, hwk⟩ | ⟨_, hwy, hwk⟩
    · exact hzx.trans hwx.symm
    · exact absurd (h.apart w y k hwk hzk) hwy
    · exact absurd (h.apart z y k hzk hwk) hzy
    · exact h.apart z w k hzk hwk
  outside := h.outside
  taken := h.taken

/-- A constructor throws: there is a cell more, and no object. -/
theorem thrown (h : Refines s m) {x : Nat} (hx : s.objects x = none) :
    Refines ((s.withMemory s.memory.new.2).set x none) (m.set x none) := by
  have hobjects : ((s.withMemory s.memory.new.2).set x none).objects = s.objects := hx ▸ Function.update_eq_self ..
  have hmodel : (m.set x none).objects = m.objects := (h.unused x).mp hx ▸ Function.update_eq_self ..
  refine ⟨fun n hn => Nat.lt_succ_of_lt (h.proper n hn), fun z => ?_, ?_, fun n => ?_, h.taken⟩
  · rw [hmodel]
    refine (h.objects z).frame (congrFun hobjects z) fun k _ hexists => ⟨?_, ?_⟩
    · exact exists_of_grown (Nat.le_succ _) id hexists
    · exact Function.update_of_ne (new_ne_of_exists hexists) ..
  · rw [hobjects]
    exact h.apart
  · show m.outside n = if _ ∈ s.memory.deleted then _ else _
    have hne : Cell.foreign n ≠ .allocated s.memory.next := nofun
    rw [h.outside n]
    exact if_congr Iff.rfl rfl (congrArg some (Function.update_of_ne hne .init _).symm)

theorem takes (h : Refines s m) (l : List Nat) :
    Refines {s with taken := l ++ s.taken} {m with taken := l ++ m.taken} where
  proper := h.proper
  objects x := (h.objects x).frame rfl fun _ _ hexists => ⟨hexists, rfl⟩
  apart := h.apart
  outside := h.outside
  taken := by rw [h.taken]

/-- No object owns a null pointer. -/
theorem destroys (h : Refines s m) {x : Nat} {self : Holding} (hx : m.objects x = some self) {obj : Variant}
    (hobj : s.objects x = some obj) : ∃ mem, obj.destroy s.memory = some mem := by
  have hrep := hx ▸ h.objects x
  match self, hrep with
  | .value v, ⟨k, hk, _⟩ =>
    cases hobj.symm.trans hk
    exact ⟨_, rfl⟩
  | .outside n owner, hk =>
    cases hobj.symm.trans hk
    exact ⟨_, Variant.destroy_of_pointer rfl _⟩
  | .nothing, hk =>
    cases hobj.symm.trans hk
    exact ⟨_, rfl⟩

end Refines

/-! ### One operation -/

/-- The class and the specification at one operation. -/
abbrev InStep (s : State) (m : Model) (op : Op) : Prop :=
  Simulation.Lockstep Refines Model.Respects step Model.step s m op

section Operations
variable {s : State} {m : Model}

/-- Nothing has to be respected. -/
theorem InStep.free {op : Op} {t : State} {b : Model} (hs : step s op = some t) (hm : m.step op = some b)
    (h : Refines t b) (hfree : m.Respects op) : InStep s m op :=
  .performed t b hs hm ⟨fun _ => hfree, fun _ => h⟩

/-- A constructor under a name in use. -/
theorem inStep_used (h : Refines s m) {x : Nat} {op : Op} {f : Option State} {g : Option Model}
    (hs : step s op = do guard (s.objects x).isNone; f) (hm : m.step op = do guard (m.objects x).isNone; g)
    (hnew : s.objects x = none → m.objects x = none → InStep s m op) : InStep s m op := by
  cases hx : m.objects x with
  | none => exact hnew ((h.unused x).mpr hx) hx
  | some self =>
    obtain ⟨v, hv, _⟩ := h.live hx
    exact .refused (by rw [hs, hv]; rfl) (by rw [hm, hx]; rfl)

theorem inStep_default (h : Refines s m) (x : Nat) : InStep s m (.default x) := by
  refine inStep_used h rfl rfl fun hx hx' =>
    .free (by simp [step, hx]; rfl) (by simp [Model.step, hx']; rfl) ?_ trivial
  exact h.made rfl rfl (Function.update_self ..) fun c hc => Function.update_of_ne hc ..

theorem inStep_ofValue (h : Refines s m) (x : Nat) (encoding : Option Ua.Variant) :
    InStep s m (.ofValue x encoding) := by
  refine inStep_used h rfl rfl fun hx hx' =>
    .free (by simp [step, hx]; rfl) (by simp [Model.step, hx']; rfl) ?_ trivial
  cases encoding with
  | none => exact h.thrown hx
  | some v =>
    refine h.made rfl rfl (Function.update_self ..) fun c hc => ?_
    exact (Function.update_of_ne hc ..).trans (Function.update_of_ne hc ..)

theorem inStep_wrap (h : Refines s m) (x n : Nat) (owner : Bool) : InStep s m (.wrap x (.foreign n) owner) := by
  refine inStep_used h rfl rfl fun hx hx' => ?_
  have hwrap : s.wrappable (.foreign n) owner = ((m.outside n).isSome && (!owner || !m.taken.contains n)) := by
    rw [h.outside n, h.taken]
    by_cases hn : .foreign n ∈ s.memory.deleted <;> simp [State.wrappable, Memory.exists?, hn]
  cases hw : s.wrappable (.foreign n) owner with
  | false => exact .refused (by simp [step, hx, hw]) (by rw [hwrap] at hw; simp only [Model.step, hx', hw]; rfl)
  | true =>
    refine .free (by simp [step, hx, hw]; rfl) (by rw [hwrap] at hw; simp only [Model.step, hx', hw]; rfl) ?_ trivial
    exact (h.takes _).wrapped x (.inr ⟨n, owner, rfl, rfl⟩)

theorem inStep_copyCtor (h : Refines s m) (x y : Nat) : InStep s m (.copyCtor x y) := by
  refine inStep_used h rfl rfl fun hx hx' => ?_
  cases hy : m.objects y with
  | none => exact .refused (by simp [step, (h.unused y).mpr hy]) (by simp [Model.step, Model.value, hy])
  | some other =>
    obtain ⟨obj, hobj, hread⟩ := h.live hy
    cases hd : s.memory.deref obj.variant with
    | none =>
      rw [hd] at hread
      refine .refused (by simp [step, hobj, Variant.copy, hd]) ?_
      simp [Model.step, Model.value, hy, ← hread]
    | some d =>
      rw [hd] at hread
      have hvalue : m.value y = some (s.memory.content d) := by rw [Model.value, hy]; exact hread.symm
      refine .free (by simp [step, hx, hobj, Variant.copy, hd]; rfl) (by simp [Model.step, hx', hvalue]; rfl) ?_
        trivial
      have hne := new_ne_of_exists (Memory.deref_eq_some.mp hd).2
      refine h.made rfl rfl ?_ fun c hc => ?_
      · show (s.memory.new.2.copy d (.allocated s.memory.next)).content _ = _
        rw [Memory.copy_content, Function.update_of_ne hne]
        exact Function.update_of_ne hne ..
      · show (s.memory.new.2.copy d (.allocated s.memory.next)).content _ = _
        rw [Memory.copy_content_of_ne _ _ hc]
        exact Function.update_of_ne hc ..

theorem inStep_moveCtor (h : Refines s m) (x y : Nat) : InStep s m (.moveCtor x y) := by
  refine inStep_used h rfl rfl fun hx hx' => ?_
  cases hy : m.objects y with
  | none => exact .refused (by simp [step, (h.unused y).mpr hy]) (by simp [Model.step, hy])
  | some other =>
    obtain ⟨obj, hobj, _⟩ := h.live hy
    refine .free (by simp [step, hx, hobj]; rfl) (by simp [Model.step, hx', hy]; rfl) ?_ trivial
    exact h.moved hx hy hobj

theorem inStep_moveAssign (h : Refines s m) (x y : Nat) : InStep s m (.moveAssign x y) := by
  cases hx : m.objects x with
  | none => exact .refused (by simp [step, (h.unused x).mpr hx]) (by simp [Model.step, hx])
  | some self =>
    cases hy : m.objects y with
    | none =>
      refine .refused ?_ (by simp [Model.step, hy])
      cases hs : s.objects x <;> simp [step, hs, (h.unused y).mpr hy]
    | some other =>
      obtain ⟨a, ha, _⟩ := h.live hx
      obtain ⟨b, hb, _⟩ := h.live hy
      obtain ⟨mem, hmem⟩ := h.destroys hx ha
      have hreleased := h.released hx ha hmem
      refine .free (by simp [step, ha, hb, Variant.moveAssign, hmem]; rfl) (by simp [Model.step, hx, hy]; rfl) ?_
        trivial
      by_cases hxy : y = x
      · -- onto itself: what it was is gone
        subst hxy
        have hnull := hreleased.wrapped y (v := ⟨none, false⟩) (.inl ⟨rfl, rfl⟩)
        simp only [State.set, Model.set, Function.update_idem] at hnull ⊢
        exact hnull
      · have hother : ((m.release self).set x none).objects y = some other := by
          refine (Function.update_of_ne hxy ..).trans ?_
          rw [← hy]
          unfold Model.release
          split <;> rfl
        have hmove := hreleased.moved (Function.update_self ..) hother ((Function.update_of_ne hxy ..).trans hb)
        simp only [State.set, Model.set, Function.update_idem] at hmove ⊢
        exact hmove

theorem inStep_destroy (h : Refines s m) (x : Nat) : InStep s m (.destroy x) := by
  cases hx : m.objects x with
  | none => exact .refused (by simp [step, (h.unused x).mpr hx]) (by simp [Model.step, hx])
  | some self =>
    obtain ⟨a, ha, _⟩ := h.live hx
    obtain ⟨mem, hmem⟩ := h.destroys hx ha
    refine .free (by simp [step, ha, hmem]; rfl) (by simp [Model.step, hx]; rfl) ?_ trivial
    exact h.released hx ha hmem

theorem inStep_call (h : Refines s m) (x : Nat) (encoding : Option Ua.Variant) : InStep s m (.call x encoding) := by
  cases hx : m.objects x with
  | none => exact .refused (by simp [step, (h.unused x).mpr hx]) (by simp [Model.step, hx])
  | some self =>
    obtain ⟨a, ha, hread⟩ := h.live hx
    cases hc : s.memory.deref a.variant with
    | none =>
      rw [hc] at hread
      exact .refused (by simp [step, ha, Variant.call, hc]) (by simp [Model.step, hx, ← hread])
    | some c =>
      rw [hc] at hread
      cases encoding with
      | none =>
        refine .free (by simp [step, ha, Variant.call, hc]; rfl) (by simp [Model.step, hx, ← hread]; rfl) ?_ trivial
        exact h
      | some v =>
        refine .free (by simp [step, ha, Variant.call, hc]; rfl) (by simp [Model.step, hx, ← hread]; rfl) ?_ trivial
        exact h.stored hx ha hc rfl rfl (Function.update_self ..) fun d hd => Function.update_of_ne hd ..

/-- Where a Variant that can be read points to. -/
theorem Refines.points (h : Refines s m) {x : Nat} {self : Holding} (hx : m.objects x = some self) {a : Variant}
    (ha : s.objects x = some a) {c : Cell} (hc : s.memory.deref a.variant = some c) :
    (∃ k v, self = .value v ∧ a = ⟨some (.allocated k), true⟩ ∧ c = .allocated k) ∨
      ∃ n owner, self = .outside n owner ∧ a = ⟨some (.foreign n), owner⟩ ∧ c = .foreign n := by
  have hrep := hx ▸ h.objects x
  have hpointer := (Memory.deref_eq_some.mp hc).1
  match self, hrep with
  | .value v, ⟨k, hk, _⟩ =>
    cases ha.symm.trans hk
    exact .inl ⟨k, v, rfl, rfl, (Option.some.inj hpointer).symm⟩
  | .outside n owner, hk =>
    cases ha.symm.trans hk
    exact .inr ⟨n, owner, rfl, rfl, (Option.some.inj hpointer).symm⟩
  | .nothing, hk =>
    cases ha.symm.trans hk
    cases hpointer

/-- What is stored through a Variant is read through it. -/
theorem Model.write_value {x : Nat} {self : Holding} (hx : m.objects x = some self) (hself : self ≠ .nothing)
    (v : Ua.Variant) : (m.write x v self).value x = some v := by
  cases self with
  | value u => simp [Model.value, Model.write, Model.set, Model.read]
  | outside n owner => simp [Model.value, Model.write, Model.read, hx]
  | nothing => exact absurd rfl hself

/-- What has to be respected, in terms of the two cells: the target is owned, and a cell is copied
onto itself only if it is empty. -/
theorem assignable_iff (h : Refines s m) {x y : Nat} {self other : Holding} (hx : m.objects x = some self)
    (hy : m.objects y = some other) {a b : Variant} (ha : s.objects x = some a) (hb : s.objects y = some b)
    {c d : Cell} (hc : s.memory.deref a.variant = some c) (hd : s.memory.deref b.variant = some d) :
    m.Assignable x y self other ↔ a.owned = true ∧ (c = d → s.memory.content d = .init) := by
  obtain ⟨b', hb', hread⟩ := h.live hy
  cases hb.symm.trans hb'
  rw [hd, Option.map_some] at hread
  rcases h.points hx ha hc with ⟨k, v, rfl, rfl, rfl⟩ | ⟨n, owner, rfl, rfl, rfl⟩ <;>
    rcases h.points hy hb hd with ⟨l, w, rfl, rfl, rfl⟩ | ⟨n', owner', rfl, rfl, rfl⟩
  · have hcell : s.memory.content (.allocated l) = w := Option.some.inj hread
    have hsame : k = l ↔ x = y := by
      refine ⟨fun hk => h.apart x y k ha (hk ▸ hb), fun hxy => ?_⟩
      subst hxy
      cases ha.symm.trans hb
      rfl
    simp only [Model.Assignable, true_and, Cell.allocated.injEq, hcell, hsame]
    exact imp_iff_not_or.symm
  · simp [Model.Assignable]
  · simp [Model.Assignable]
  · have hcell : m.outside n' = some (s.memory.content (.foreign n')) := hread.symm
    simp only [Model.Assignable, Cell.foreign.injEq, hcell, Option.some.injEq]
    exact and_congr_right fun _ => imp_iff_not_or.symm

/-- An assignment stores the source's value in the target's cell and claims it, or empties a
cell copied onto itself. -/
theorem refines_copyAssign_iff (h : Refines s m) {x : Nat} {self : Holding} (hx : m.objects x = some self)
    {a : Variant} (ha : s.objects x = some a) {c d : Cell} (hc : s.memory.deref a.variant = some c)
    {mem : Memory} (hnext : mem.next = s.memory.next) (hdeleted : mem.deleted = s.memory.deleted)
    (hcontent : mem.content c = if c = d then .init else s.memory.content d)
    (hframe : ∀ e, e ≠ c → mem.content e = s.memory.content e) :
    Refines ((s.withMemory mem).set x (some {a with owned := true})) (m.write x (s.memory.content d) self) ↔
      a.owned = true ∧ (c = d → s.memory.content d = .init) := by
  constructor
  · intro hr
    have hself : self ≠ .nothing := fun he => by
      rcases h.points hx ha hc with ⟨_, _, rfl, _⟩ | ⟨_, _, rfl, _⟩ <;> cases he
    have hclaimed : ((s.withMemory mem).set x (some {a with owned := true})).objects x =
        some {a with owned := true} := Function.update_self ..
    refine ⟨?_, fun hcd => ?_⟩
    · rcases h.points hx ha hc with ⟨k, v, rfl, rfl, rfl⟩ | ⟨n, owner, rfl, rfl, rfl⟩
      · rfl
      · have hrep := hr.objects x
        rw [show (m.write x _ (.outside n owner)).objects x = some (.outside n owner) from hx] at hrep
        cases hclaimed.symm.trans hrep
        rfl
    · have hread := hr.value x
      have hderef := (deref_congr hnext hdeleted a.variant).trans hc
      rw [Model.write_value hx hself, value_of_deref hclaimed hderef, Option.some.injEq] at hread
      rw [← hread]
      exact hcontent.trans (if_pos hcd)
  · intro ⟨howned, hempty⟩
    have hset : (s.withMemory mem).set x (some {a with owned := true}) = s.withMemory mem := by
      have hobject : ({a with owned := true} : Variant) = a := by rw [← howned]
      rw [hobject, ← ha]
      exact congrArg (fun objects => State.mk mem objects s.taken) (Function.update_eq_self ..)
    rw [hset]
    refine h.stored hx ha hc hnext hdeleted ?_ hframe
    rw [hcontent]
    split
    · next hcd => exact (hempty hcd).symm
    · rfl

theorem inStep_copyAssign (h : Refines s m) (x y : Nat) : InStep s m (.copyAssign x y) := by
  cases hx : m.objects x with
  | none => exact .refused (by simp [step, (h.unused x).mpr hx]) (by simp [Model.step, hx])
  | some self =>
    obtain ⟨a, ha, hself⟩ := h.live hx
    cases hy : m.objects y with
    | none =>
      refine .refused (by simp [step, ha, (h.unused y).mpr hy]) ?_
      simp [Model.step, hx, Model.value, hy]
    | some other =>
      obtain ⟨b, hb, hother⟩ := h.live hy
      cases hc : s.memory.deref a.variant with
      | none =>
        rw [hc] at hself
        exact .refused (by simp [step, ha, hb, Variant.copyAssign, hc]) (by simp [Model.step, hx, ← hself])
      | some c =>
        rw [hc] at hself
        cases hd : s.memory.deref b.variant with
        | none =>
          rw [hd] at hother
          have hassign : a.copyAssign b s.memory = none := by
            refine Option.eq_none_iff_forall_ne_some.mpr fun p hp => ?_
            obtain ⟨_, _, _, hd'⟩ := Variant.copyAssign_derefs hp
            cases hd.symm.trans hd'
          exact .refused (by simp [step, ha, hb, hassign]) (by simp [Model.step, hx, Model.value, hy, ← hother])
        | some d =>
          rw [hd] at hother
          obtain ⟨mem, hassign, hnext, hdeleted, hcontent, hframe⟩ := Variant.copyAssign_of_deref hc hd
          refine .performed _ _ (by simp [step, ha, hb, hassign]; rfl)
            (by simp [Model.step, hx, ← hself, Model.value, hy, ← hother]; rfl) ?_
          have hiff := (refines_copyAssign_iff h hx ha hc hnext hdeleted hcontent hframe).trans
            (assignable_iff h hx hy ha hb hc hd).symm
          refine hiff.trans ⟨fun hassignable self' other' hx' hy' => ?_, fun hr => hr self other hx hy⟩
          cases hx.symm.trans hx'
          cases hy.symm.trans hy'
          exact hassignable

theorem inStep (h : Refines s m) {op : Op} (hop : FromOutside op) : InStep s m op := by
  cases op with
  | default x => exact inStep_default h x
  | ofValue x encoding => exact inStep_ofValue h x encoding
  | wrap x var owner =>
    cases var with
    | foreign n => exact inStep_wrap h x n owner
    | allocated n => exact hop.elim
  | copyCtor x y => exact inStep_copyCtor h x y
  | moveCtor x y => exact inStep_moveCtor h x y
  | copyAssign x y => exact inStep_copyAssign h x y
  | moveAssign x y => exact inStep_moveAssign h x y
  | call x encoding => exact inStep_call h x encoding
  | destroy x => exact inStep_destroy h x

end Operations

/-- Runs of the class that wrap only what is from outside keep step with the specification, in the
values and in which Variant owns what it points to, exactly if every copy assignment has a target
that owns what it points to and a source elsewhere or an empty one. In step, every read gives what
the specification says. -/
theorem value_semantics_iff (content : Cell → Ua.Variant) (ops : List Op) (hops : ∀ op ∈ ops, FromOutside op) :
    (Simulation.Related Refines step Model.step (start content) (Model.start content) ops ↔
      ∀ e ∈ Run.edges Model.step (Model.start content) ops, e.1.Respects e.2) ∧
    ∀ s m, Refines s m → ∀ x, s.value x = m.value x := by
  refine ⟨?_, fun s m h => h.value⟩
  exact Simulation.related_iff_guarded (fun _ _ _ h hop => inStep h hop) (refines_start content) hops

/-- Two Variants are made and one assigned to the other, which is then moved into a third. -/
theorem value_semantics_of_copies :
    Simulation.Related Refines step Model.step (start fun _ => .init) (Model.start fun _ => .init)
      [.default 0, .ofValue 1 (some (.setScalarCopy (.int32 7) (Ua.builtin .int32))), .copyAssign 0 1,
        .moveCtor 2 0, .destroy 1] := by
  refine (value_semantics_iff (fun _ => .init) _ (by simp [FromOutside])).1.mpr ?_
  simp [Run.edges, Model.step, Model.set, Model.value, Model.read, Model.write, Model.Respects, Model.start,
    Model.Assignable]

end ModernOpc.Ownership
