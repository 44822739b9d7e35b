import ModernOpc.Library.Simulation
import ModernOpc.Variant.Memory
import Mathlib.Data.Option.Basic

/-! What a callback does with the Variants it is handed.

A callback is handed Variants that borrow cells of its caller, has Variants of its own, and
stores values through the public writers: a value, a Variant copied or a Variant moved, from
any of them to any of them that is not an input. `Frame` is the objects in memory.

`Ledger` says without memory what can be read off the stores: what each Variant holds, and
for each output the Variant that has its cell, the slot, whether a copy assignment was made
to the Variant that had it, the last value written through by `operator()`, and the last
value stored into the output itself. `lockstep` connects the two. -/
namespace ModernOpc
open Library

/-- A Variant within reach of a callback: an input, an output, or one of its own. -/
inductive Ref where
  | input (i : Nat)
  | output (i : Nat)
  | own (i : Nat)
  deriving DecidableEq, Repr

/-- Inputs are `const`. -/
def Ref.writable : Ref → Bool
  | input _ => false
  | _ => true

/-- A store through a public writer: `x(value)`, `x = y` or `x = std::move(y)`. -/
inductive Writer where
  | call (x : Ref) (value : Ua.Variant)
  | copyAssign (x y : Ref)
  | moveAssign (x y : Ref)
  deriving DecidableEq, Repr

/-- What a callback does: the Variants it makes, from their values and around a cell they own
or not, and the stores, in order. -/
structure Body where
  own : List (Ua.Variant × Bool)
  writers : List Writer
  deriving DecidableEq, Repr

/-! ### In memory -/

/-- The objects while a callback runs. -/
structure Frame where
  inputs : List Variant
  outputs : List Variant
  own : List Variant
  memory : Memory

namespace Frame

def get (f : Frame) : Ref → Option Variant
  | .input i => f.inputs[i]?
  | .output i => f.outputs[i]?
  | .own i => f.own[i]?

def set (f : Frame) (x : Ref) (v : Variant) : Frame :=
  match x with
  | .input i => {f with inputs := f.inputs.set i v}
  | .output i => {f with outputs := f.outputs.set i v}
  | .own i => {f with own := f.own.set i v}

def withMemory (f : Frame) (m : Memory) : Frame := {f with memory := m}

/-- One store; no result for a Variant that is not there. -/
def step (f : Frame) : Writer → Option Frame
  | .call x value => do
    guard x.writable
    let self ← f.get x
    let m ← self.call (some value) f.memory
    return f.withMemory m
  | .copyAssign x y => do
    guard x.writable
    let self ← f.get x
    let other ← f.get y
    let (v, m) ← self.copyAssign other f.memory
    return (f.withMemory m).set x v
  | .moveAssign x y => do
    guard (x.writable && y.writable)
    let self ← f.get x
    let other ← f.get y
    let ((v, rest), m) ← self.moveAssign other f.memory
    return ((f.withMemory m).set x v).set y rest

@[simp] theorem withMemory_get (f : Frame) (m : Memory) (x : Ref) : (f.withMemory m).get x = f.get x := by
  cases x <;> rfl

@[simp] theorem withMemory_memory (f : Frame) (m : Memory) : (f.withMemory m).memory = m := rfl

@[simp] theorem set_memory (f : Frame) (x : Ref) (v : Variant) : (f.set x v).memory = f.memory := by
  cases x <;> rfl

/-- An object that is there is replaced. -/
theorem get_set (f : Frame) (x y : Ref) (v : Variant) :
    (f.set x v).get y = if y = x then (f.get x).map fun _ => v else f.get y := by
  have hlist (vs : List Variant) (i j : Nat) :
      (vs.set i v)[j]? = if j = i then vs[i]?.map fun _ => v else vs[j]? := by
    rw [List.getElem?_set]
    by_cases h : i = j
    · subst h
      by_cases hi : i < vs.length <;> simp [hi]
    · rw [if_neg h, if_neg (Ne.symm h)]
  cases x <;> cases y <;> simp [set, get, hlist]

theorem set_inputs {x : Ref} (h : x.writable = true) (f : Frame) (v : Variant) : (f.set x v).inputs = f.inputs := by
  cases x with
  | input i => cases h
  | _ => rfl

/-- No store changes an input's object. -/
theorem step_inputs {f f' : Frame} {w : Writer} (h : f.step w = some f') : f'.inputs = f.inputs := by
  cases w with
  | call x value =>
    simp only [step, Option.bind_eq_bind, Option.bind_eq_some_iff, Option.pure_def, Option.some.injEq] at h
    obtain ⟨_, _, _, _, m, _, rfl⟩ := h
    rfl
  | copyAssign x y =>
    simp only [step, Option.bind_eq_bind, Option.bind_eq_some_iff, Option.pure_def, Option.some.injEq,
      Option.guard_eq_some', Prod.exists] at h
    obtain ⟨_, hx, _, _, _, _, v, m, _, rfl⟩ := h
    exact set_inputs hx ..
  | moveAssign x y =>
    simp only [step, Option.bind_eq_bind, Option.bind_eq_some_iff, Option.pure_def, Option.some.injEq,
      Option.guard_eq_some', Bool.and_eq_true, Prod.exists] at h
    obtain ⟨_, ⟨hx, hy⟩, _, _, _, _, v, rest, m, _, rfl⟩ := h
    exact (set_inputs hy ..).trans (set_inputs hx ..)

/-- A store has to do with cells only that the objects point to, and makes none. -/
theorem step_local {f f' : Frame} {w : Writer} (h : f.step w = some f') :
    f'.memory.next = f.memory.next ∧
    (∀ d, (∀ x v, f.get x = some v → v.variant ≠ some d) →
      f'.memory.content d = f.memory.content d ∧ (d ∈ f'.memory.deleted ↔ d ∈ f.memory.deleted)) ∧
    ∀ y v d, f'.get y = some v → v.variant = some d → ∃ x u, f.get x = some u ∧ u.variant = some d := by
  cases w with
  | call x value =>
    simp only [step, Option.bind_eq_bind, Option.bind_eq_some_iff, Option.pure_def, Option.some.injEq] at h
    obtain ⟨_, _, self, hx, m, hcall, rfl⟩ := h
    simp only [Variant.call, Option.bind_eq_bind, Option.bind_eq_some_iff, Option.pure_def,
      Option.some.injEq] at hcall
    obtain ⟨c, hc, rfl⟩ := hcall
    refine ⟨rfl, fun d hd => ⟨Function.update_of_ne ?_ .., Iff.rfl⟩, fun y v d hy hv => ?_⟩
    · rintro rfl
      exact hd x self hx (Memory.deref_eq_some.mp hc).1
    · rw [withMemory_get] at hy
      exact ⟨y, v, hy, hv⟩
  | copyAssign x y =>
    simp only [step, Option.bind_eq_bind, Option.bind_eq_some_iff, Option.pure_def, Option.some.injEq,
      Prod.exists] at h
    obtain ⟨_, _, self, hx, other, _, v, m, hassign, rfl⟩ := h
    obtain ⟨c, d, hc, hd⟩ := Variant.copyAssign_derefs hassign
    obtain ⟨m', hassign', hnext, hdeleted, _, hframe⟩ := Variant.copyAssign_of_deref hc hd
    cases hassign.symm.trans hassign'
    rw [set_memory, withMemory_memory]
    refine ⟨hnext, fun e he => ⟨hframe e ?_, by rw [hdeleted]⟩, fun y u e hy hu => ?_⟩
    · rintro rfl
      exact he x self hx (Memory.deref_eq_some.mp hc).1
    · rw [get_set, withMemory_get, withMemory_get, hx] at hy
      split at hy
      · cases hy
        exact ⟨x, self, hx, hu⟩
      · exact ⟨y, u, hy, hu⟩
  | moveAssign x y =>
    simp only [step, Option.bind_eq_bind, Option.bind_eq_some_iff, Option.pure_def, Option.some.injEq,
      Prod.exists, Variant.moveAssign, Prod.mk.injEq] at h
    obtain ⟨_, _, self, hx, other, hy, _, _, _, ⟨m, hdestroy, hmove, rfl⟩, rfl⟩ := h
    obtain rfl := Variant.destroy_eq_some hdestroy
    rw [set_memory, set_memory, withMemory_memory]
    refine ⟨rfl, fun e he => ⟨rfl, ?_⟩, fun z u e hz hu => ?_⟩
    · have hheld : e ∉ self.held.toList := fun hmem =>
        he x self hx (Variant.held_eq_some.mp (Option.mem_toList.mp hmem)).2
      simp [hheld]
    · cases hmove
      rw [get_set] at hz
      split at hz
      · obtain ⟨_, _, rfl⟩ := Option.map_eq_some_iff.mp hz
        cases hu
      · rw [get_set] at hz
        split at hz
        · obtain ⟨_, _, rfl⟩ := Option.map_eq_some_iff.mp hz
          exact ⟨y, other, hy, hu⟩
        · exact ⟨z, u, (withMemory_get ..).symm.trans hz, hu⟩

end Frame

/-! ### Without memory -/

/-- What can be read off the stores. -/
structure Ledger where
  /-- The Variants there are, and the value of each that has not been moved from. -/
  holds : Ref → Option (Option Ua.Variant)
  /-- Who has the slot of output `j`. -/
  holder : Nat → Option Ref
  /-- Whether a copy assignment was made to the Variant that had slot `j` then. -/
  claimed : Nat → Bool
  /-- The last value that `operator()` wrote through the Variant that had slot `j` then. -/
  written : Nat → Ua.Variant
  /-- The last value stored into output `j`. -/
  stored : Nat → Option Ua.Variant

namespace Ledger

/-- At first every output has its slot, and what is there counts as stored. -/
def opening (inputs outputs own : List Ua.Variant) : Ledger where
  holds
    | .input i => inputs[i]?.map some
    | .output i => outputs[i]?.map some
    | .own i => own[i]?.map some
  holder j := if j < outputs.length then some (.output j) else none
  claimed _ := false
  written j := outputs[j]?.getD .init
  stored j := outputs[j]?

def call (l : Ledger) (x : Ref) (value : Ua.Variant) : Ledger where
  holds := Function.update l.holds x (some (some value))
  holder := l.holder
  claimed := l.claimed
  written j := if l.holder j = some x then value else l.written j
  stored j := if x = .output j then some value else l.stored j

/-- A Variant assigned to itself is left empty. -/
def copyAssign (l : Ledger) (x y : Ref) (value : Ua.Variant) : Ledger where
  holds := Function.update l.holds x (some (some (if x = y then .init else value)))
  holder := l.holder
  claimed j := l.claimed j || l.holder j = some x
  written := l.written
  stored j := if x = .output j then some value else l.stored j

/-- A slot that `x` had is nobody's, one that `y` had goes to `x`. -/
def moveAssign (l : Ledger) (x y : Ref) (value : Option Ua.Variant) : Ledger where
  holds := Function.update (Function.update l.holds x (some value)) y (some none)
  holder j := if l.holder j = some x then none else if l.holder j = some y then some x else l.holder j
  claimed := l.claimed
  written := l.written
  stored j := if x = .output j then value else l.stored j

/-- One store; a Variant that was moved from can only be assigned by a move. -/
def step (l : Ledger) : Writer → Option Ledger
  | .call x value => do
    guard x.writable
    let _ ← (l.holds x).join
    return l.call x value
  | .copyAssign x y => do
    guard x.writable
    let _ ← (l.holds x).join
    let value ← (l.holds y).join
    return l.copyAssign x y value
  | .moveAssign x y => do
    guard (x.writable && y.writable)
    let _ ← l.holds x
    let value ← l.holds y
    return l.moveAssign x y value

/-- Slot `j` was never the target of a copy assignment, and the last value written to it is
the last one stored into the output. -/
def Intact (l : Ledger) (j : Nat) : Prop := l.claimed j = false ∧ l.stored j = some (l.written j)

instance (l : Ledger) (j : Nat) : Decidable (l.Intact j) := inferInstanceAs (Decidable (_ ∧ _))

end Ledger

/-! ### The relation -/

/-- An object, if it is there, holds the value the ledger says. -/
inductive Stands (m : Memory) : Option Variant → Option (Option Ua.Variant) → Prop where
  | absent : Stands m none none
  | moved : Stands m (some ⟨none, false⟩) (some none)
  | pointing (v : Variant) (c : Cell) (hv : v.variant = some c) (hc : m.exists? c = true) :
    Stands m (some v) (some (some (m.content c)))

/-- The cell of output `j`, at address `output + j`. -/
abbrev slot (output j : Nat) : Cell := .foreign (output + j)

/-- Memory is as the ledger says, with `n` slots from address `output` on. -/
structure Follows (output n : Nat) (f : Frame) (l : Ledger) : Prop where
  proper : f.memory.Proper
  objects : ∀ x, Stands f.memory (f.get x) (l.holds x)
  /-- No two Variants point to one cell. -/
  apart : ∀ x y v w c, f.get x = some v → f.get y = some w → v.variant = some c → w.variant = some c → x = y
  holder : ∀ j < n, ∀ x, l.holder j = some x ↔ ∃ v, f.get x = some v ∧ v.variant = some (slot output j)
  /-- Who has a slot owns it once it was claimed. -/
  claimed : ∀ j < n, ∀ x v, l.holder j = some x → f.get x = some v → v.owned = l.claimed j
  written : ∀ j < n, l.claimed j = false → f.memory.content (slot output j) = l.written j
  /-- A slot is deleted when nobody has it any more after it was claimed. -/
  released : ∀ j < n, slot output j ∈ f.memory.deleted ↔ l.claimed j = true ∧ l.holder j = none

/-- An object whose cell is as before stands for what it did. -/
theorem Stands.frame {m m' : Memory} {o : Option Variant} {h : Option (Option Ua.Variant)} (hs : Stands m o h)
    (hcell : ∀ v c, o = some v → v.variant = some c → m.exists? c = true →
      m'.exists? c = true ∧ m'.content c = m.content c) : Stands m' o h := by
  cases hs with
  | absent => exact .absent
  | moved => exact .moved
  | pointing v c hv hc =>
    obtain ⟨hexists, hcontent⟩ := hcell v c rfl hv hc
    exact hcontent ▸ .pointing v c hv hexists

namespace Follows
variable {output n : Nat} {f : Frame} {l : Ledger}

/-- The Variant that has a slot is the only one that points there. -/
theorem holder_iff_cell (h : Follows output n f l) {j : Nat} (hj : j < n) {x : Ref} {v : Variant} {c : Cell}
    (hx : f.get x = some v) (hv : v.variant = some c) : l.holder j = some x ↔ c = slot output j := by
  rw [h.holder j hj x]
  constructor
  · intro ⟨w, hw, hslot⟩
    cases hx.symm.trans hw
    exact Option.some.inj (hv.symm.trans hslot)
  · intro hc
    exact ⟨v, hx, hc ▸ hv⟩

/-- A Variant that owns what it points to is not null. -/
theorem pointer_of_owned (h : Follows output n f l) {x : Ref} {v : Variant} (hx : f.get x = some v)
    (howned : v.owned = true) : ∃ c, v.variant = some c := by
  have hs := h.objects x
  rw [hx] at hs
  generalize l.holds x = o at hs
  cases hs with
  | moved => cases howned
  | pointing _ c hv _ => exact ⟨c, hv⟩

/-- A value is stored into the cell of `x`. -/
theorem call (h : Follows output n f l) {x : Ref} {v : Variant} {c : Cell} (hx : f.get x = some v)
    (hv : v.variant = some c) (hc : f.memory.exists? c = true) (value : Ua.Variant) :
    Follows output n (f.withMemory (f.memory.store c value)) (l.call x value) where
  proper := h.proper
  objects y := by
    rw [Frame.withMemory_get, Frame.withMemory_memory]
    by_cases hy : y = x
    · subst hy
      have hcontent : (f.memory.store c value).content c = value := Function.update_self ..
      have hstands : Stands (f.memory.store c value) (some v) _ := .pointing v c hv hc
      rw [hcontent] at hstands
      show Stands _ _ (Function.update l.holds y _ y)
      rw [Function.update_self, hx]
      exact hstands
    · show Stands _ _ (Function.update l.holds x _ y)
      rw [Function.update_of_ne hy]
      refine (h.objects y).frame fun w d hw hd hexists => ⟨hexists, Function.update_of_ne ?_ ..⟩
      rintro rfl
      exact hy (h.apart y x w v d hw hx hd hv)
  apart y z u w d hy hz :=
    h.apart y z u w d ((f.withMemory_get ..).symm.trans hy) ((f.withMemory_get ..).symm.trans hz)
  holder j hj y := by
    rw [Frame.withMemory_get]
    exact h.holder j hj y
  claimed j hj y w hy hw := h.claimed j hj y w hy ((f.withMemory_get ..).symm.trans hw)
  written j hj hclaimed := by
    show Function.update f.memory.content c value (slot output j) =
      if l.holder j = some x then value else l.written j
    by_cases hcell : c = slot output j
    · rw [if_pos ((h.holder_iff_cell hj hx hv).mpr hcell), hcell, Function.update_self]
    · rw [if_neg (mt (h.holder_iff_cell hj hx hv).mp hcell), Function.update_of_ne (Ne.symm hcell)]
      exact h.written j hj hclaimed
  released := h.released

/-- A value is copied into the cell of `x`, which `x` then owns. -/
theorem copyAssign (h : Follows output n f l) {x y : Ref} {v : Variant} {c : Cell} (hx : f.get x = some v)
    (hv : v.variant = some c) (hc : f.memory.exists? c = true) {value : Ua.Variant} {m : Memory}
    (hnext : m.next = f.memory.next) (hdeleted : m.deleted = f.memory.deleted)
    (hcontent : m.content c = if x = y then .init else value)
    (hframe : ∀ d, d ≠ c → m.content d = f.memory.content d) :
    Follows output n ((f.withMemory m).set x {v with owned := true}) (l.copyAssign x y value) := by
  have hget (z : Ref) : ((f.withMemory m).set x {v with owned := true}).get z =
      if z = x then some {v with owned := true} else f.get z := by
    rw [Frame.get_set, Frame.withMemory_get, Frame.withMemory_get, hx]
    rfl
  -- every object points where it did
  have hpointer {z : Ref} {w : Variant} (hw : ((f.withMemory m).set x {v with owned := true}).get z = some w) :
      ∃ w', f.get z = some w' ∧ w'.variant = w.variant := by
    rw [hget] at hw
    split at hw
    · next hz =>
      cases hw
      exact ⟨v, hz ▸ hx, rfl⟩
    · exact ⟨w, hw, rfl⟩
  have hsame (d : Cell) : m.exists? d = f.memory.exists? d := by simp [Memory.exists?, hnext, hdeleted]
  refine ⟨?_, fun z => ?_, ?_, fun j hj z => ?_, fun j hj z w hz hw => ?_, fun j hj hclaimed => ?_, fun j hj => ?_⟩
  · intro k hk
    rw [Frame.set_memory, Frame.withMemory_memory] at hk ⊢
    exact hnext ▸ h.proper k (hdeleted ▸ hk)
  · rw [hget, Frame.set_memory, Frame.withMemory_memory]
    show Stands _ _ (Function.update l.holds x _ z)
    by_cases hz : z = x
    · rw [if_pos hz, hz, Function.update_self, ← hcontent]
      exact .pointing _ c hv ((hsame c).trans hc)
    · rw [if_neg hz, Function.update_of_ne hz]
      refine (h.objects z).frame fun w d hw hd hexists => ⟨(hsame d).trans hexists, hframe d ?_⟩
      rintro rfl
      exact hz (h.apart z x w v d hw hx hd hv)
  · intro z z' u w d hz hz' hu hw
    obtain ⟨u', hu', hpu⟩ := hpointer hz
    obtain ⟨w', hw', hpw⟩ := hpointer hz'
    exact h.apart z z' u' w' d hu' hw' (hpu.trans hu) (hpw.trans hw)
  · show l.holder j = some z ↔ _
    rw [h.holder j hj z, hget]
    split
    · next hz =>
      subst hz
      simp [hx]
    · exact Iff.rfl
  · show w.owned = (l.claimed j || decide (l.holder j = some x))
    have hz : l.holder j = some z := hz
    rw [hget] at hw
    split at hw
    · next hzx =>
      cases hw
      simp [hz, hzx]
    · next hzx =>
      have hother : ¬ l.holder j = some x := fun he => hzx (Option.some.inj (hz.symm.trans he))
      simp [hother, h.claimed j hj z w hz hw]
  · have hclaimed : (l.claimed j || decide (l.holder j = some x)) = false := hclaimed
    simp only [Bool.or_eq_false_iff, decide_eq_false_iff_not, h.holder_iff_cell hj hx hv] at hclaimed
    rw [Frame.set_memory, Frame.withMemory_memory, hframe _ (Ne.symm hclaimed.2)]
    exact h.written j hj hclaimed.1
  · rw [Frame.set_memory, Frame.withMemory_memory, hdeleted, h.released j hj]
    show _ ↔ (l.claimed j || decide (l.holder j = some x)) = true ∧ l.holder j = none
    refine and_congr_left fun hnone => ?_
    simp [hnone]

/-- Who has a slot after a move from `y` to `x`. -/
theorem moved_holder (h : Follows output n f l) {j : Nat} (hj : j < n) {x y : Ref} {v w : Variant}
    (hx : f.get x = some v) (hy : f.get y = some w) (z : Ref) :
    (if l.holder j = some x then none else if l.holder j = some y then some x else l.holder j) = some z ↔
      ∃ u, (if z = y then some ⟨none, false⟩ else if z = x then some w else f.get z) = some u ∧
        u.variant = some (slot output j) := by
  have hpoints : l.holder j = some y ↔ w.variant = some (slot output j) := by
    rw [h.holder j hj y, hy]
    simp
  by_cases hzy : z = y
  · subst hzy
    by_cases hhz : l.holder j = some z
    · by_cases hxz : z = x <;> simp [hhz, hxz, Ne.symm]
    · by_cases hhx : l.holder j = some x <;> simp [hhx, hhz]
  · by_cases hzx : z = x
    · subst hzx
      rw [if_neg hzy, if_pos rfl]
      by_cases hhz : l.holder j = some z
      · simp [hhz, hzy, ← hpoints]
      · by_cases hhy : l.holder j = some y <;> simp [hhz, hhy, Ne.symm hzy, ← hpoints]
    · rw [if_neg hzy, if_neg hzx, ← h.holder j hj z]
      by_cases hhx : l.holder j = some x
      · simp [hhx, Ne.symm hzx]
      · by_cases hhy : l.holder j = some y
        · simp [hhy, Ne.symm hzx, Ne.symm hzy]
        · rw [if_neg hhx, if_neg hhy]

/-- Who has a slot owns it exactly once it was claimed. -/
theorem owned_slot (h : Follows output n f l) {j : Nat} (hj : j < n) {x : Ref} {v : Variant} (hx : f.get x = some v) :
    v.owned = true ∧ v.variant = some (slot output j) ↔ l.claimed j = true ∧ l.holder j = some x := by
  rw [h.holder j hj x]
  constructor
  · intro ⟨howned, hv⟩
    exact ⟨h.claimed j hj x v ((h.holder j hj x).mpr ⟨v, hx, hv⟩) hx ▸ howned, v, hx, hv⟩
  · intro ⟨hclaimed, u, hu, hv⟩
    cases hx.symm.trans hu
    exact ⟨(h.claimed j hj x v ((h.holder j hj x).mpr ⟨v, hx, hv⟩) hx).trans hclaimed, hv⟩

section Move
variable {x y : Ref} {v w : Variant} {m : Memory}

/-- The objects after a move from `y` to `x`. -/
theorem moved_get (hx : f.get x = some v) (hy : f.get y = some w) (m : Memory) (z : Ref) :
    (((f.withMemory m).set x w.move.1).set y w.move.2).get z =
      if z = y then some ⟨none, false⟩ else if z = x then some w else f.get z := by
  rw [Frame.get_set, Frame.get_set, Frame.get_set, Frame.withMemory_get, Frame.withMemory_get,
    Frame.withMemory_get, hx, hy]
  by_cases hyx : y = x
  · simp [hyx, Variant.move]
  · simp [hyx, Variant.move]

/-- Where an object points to now, and which it was then. -/
theorem moved_pointer (hx : f.get x = some v) (hy : f.get y = some w) {z : Ref} {u : Variant} {d : Cell}
    (hz : (((f.withMemory m).set x w.move.1).set y w.move.2).get z = some u) (hd : u.variant = some d) :
    z ≠ y ∧ ((z = x ∧ u = w) ∨ (z ≠ x ∧ f.get z = some u)) := by
  rw [moved_get hx hy] at hz
  split at hz
  · cases hz
    cases hd
  · next hzy =>
    split at hz
    · next hzx =>
      cases hz
      exact ⟨hzy, .inl ⟨hzx, rfl⟩⟩
    · next hzx => exact ⟨hzy, .inr ⟨hzx, hz⟩⟩

theorem moved_deleted (hm : m = {f.memory with deleted := v.held.toList ++ f.memory.deleted}) {d : Cell} :
    d ∈ m.deleted ↔ (v.owned = true ∧ v.variant = some d) ∨ d ∈ f.memory.deleted := by
  rw [hm, List.mem_append, Option.mem_toList, Variant.held_eq_some]

/-- The cells of the other objects stay. -/
theorem moved_kept (h : Follows output n f l) (hx : f.get x = some v)
    (hm : m = {f.memory with deleted := v.held.toList ++ f.memory.deleted}) {z : Ref} {u : Variant} {d : Cell}
    (hz : f.get z = some u) (hzx : z ≠ x) (hd : u.variant = some d) (hexists : f.memory.exists? d = true) :
    m.exists? d = true ∧ m.content d = f.memory.content d := by
  refine ⟨exists_of_grown (m := f.memory) (hm ▸ Nat.le_refl _) (fun hmem => ?_) hexists, hm ▸ rfl⟩
  rcases (moved_deleted hm).mp hmem with ⟨_, hv⟩ | hmem
  · exact absurd (h.apart z x u v d hz hx hd hv) hzx
  · exact hmem

theorem moved_proper (h : Follows output n f l) (hx : f.get x = some v)
    (hm : m = {f.memory with deleted := v.held.toList ++ f.memory.deleted}) : m.Proper := by
  intro k hk
  have hproper : k < f.memory.next := by
    rcases (moved_deleted hm).mp hk with ⟨_, hv⟩ | hk
    · have hs := h.objects x
      rw [hx] at hs
      generalize l.holds x = o at hs
      cases hs with
      | moved => cases hv
      | pointing _ c hc hexists =>
        cases hv.symm.trans hc
        exact (Memory.exists?_iff.mp hexists).2 k rfl
    · exact h.proper k hk
  exact hm ▸ hproper

/-- What the objects hold after the move. -/
theorem moved_objects (h : Follows output n f l) (hx : f.get x = some v) (hy : f.get y = some w)
    {value : Option Ua.Variant} (hvalue : l.holds y = some value)
    (hm : m = {f.memory with deleted := v.held.toList ++ f.memory.deleted}) (z : Ref) :
    Stands m (if z = y then some ⟨none, false⟩ else if z = x then some w else f.get z)
      ((l.moveAssign x y value).holds z) := by
  show Stands _ _ (Function.update (Function.update l.holds x (some value)) y (some none) z)
  by_cases hzy : z = y
  · rw [if_pos hzy, hzy, Function.update_self]
    exact .moved
  · rw [if_neg hzy, Function.update_of_ne hzy]
    by_cases hzx : z = x
    · rw [if_pos hzx, hzx, Function.update_self, ← hvalue, ← hy]
      have hyx : y ≠ x := fun he => hzy (hzx.trans he.symm)
      exact (h.objects y).frame fun u d hu hd hexists => h.moved_kept hx hm hu hyx hd hexists
    · rw [if_neg hzx, Function.update_of_ne hzx]
      exact (h.objects z).frame fun u d hu hd hexists => h.moved_kept hx hm hu hzx hd hexists

/-- What `x` owned is deleted, and what `y` pointed to goes to `x`. -/
theorem moveAssign (h : Follows output n f l) (hx : f.get x = some v) (hy : f.get y = some w)
    {value : Option Ua.Variant} (hvalue : l.holds y = some value)
    (hm : m = {f.memory with deleted := v.held.toList ++ f.memory.deleted}) :
    Follows output n (((f.withMemory m).set x w.move.1).set y w.move.2) (l.moveAssign x y value) := by
  have hget := moved_get hx hy m
  have hmemory : (((f.withMemory m).set x w.move.1).set y w.move.2).memory = m := by
    rw [Frame.set_memory, Frame.set_memory, Frame.withMemory_memory]
  refine ⟨?_, fun z => ?_, ?_, fun j hj z => ?_, fun j hj z u hz hu => ?_, fun j hj hclaimed => ?_,
    fun j hj => ?_⟩
  · rw [hmemory]
    exact h.moved_proper hx hm
  · rw [hget, hmemory]
    exact h.moved_objects hx hy hvalue hm z
  · intro z z' u u' d hz hz' hd hd'
    obtain ⟨hzy, hcase⟩ := moved_pointer hx hy hz hd
    obtain ⟨hzy', hcase'⟩ := moved_pointer hx hy hz' hd'
    rcases hcase with ⟨rfl, rfl⟩ | ⟨_, hu⟩ <;> rcases hcase' with ⟨rfl, rfl⟩ | ⟨_, hu'⟩
    · rfl
    · exact absurd (h.apart z' y u' u d hu' hy hd' hd) hzy'
    · exact absurd (h.apart z y u u' d hu hy hd hd') hzy
    · exact h.apart z z' u u' d hu hu' hd hd'
  · show (if l.holder j = some x then none else if l.holder j = some y then some x else l.holder j) = some z ↔ _
    rw [hget, h.moved_holder hj hx hy]
  · obtain ⟨u', hu', hslot⟩ := (h.moved_holder hj hx hy z).mp hz
    rw [hget] at hu
    cases hu'.symm.trans hu
    show u.owned = l.claimed j
    split at hu
    · cases hu
      cases hslot
    · split at hu
      · cases hu
        exact h.claimed j hj y w ((h.holder j hj y).mpr ⟨w, hy, hslot⟩) hy
      · exact h.claimed j hj z u ((h.holder j hj z).mpr ⟨u, hu, hslot⟩) hu
  · rw [hmemory, hm]
    exact h.written j hj hclaimed
  · rw [hmemory, moved_deleted hm, h.released j hj, h.owned_slot hj hx, ← and_or_left]
    show _ ↔ l.claimed j = true ∧
      (if l.holder j = some x then none else if l.holder j = some y then some x else l.holder j) = none
    refine and_congr_right fun _ => ?_
    by_cases hhx : l.holder j = some x <;> by_cases hhy : l.holder j = some y <;> simp [hhx, hhy]

end Move

/-- An object that is there and what is read through it, in memory and in the ledger. -/
theorem object_cases (h : Follows output n f l) (x : Ref) :
    (f.get x = none ∧ l.holds x = none) ∨ (f.get x = some ⟨none, false⟩ ∧ l.holds x = some none) ∨
      ∃ v c, f.get x = some v ∧ f.memory.deref v.variant = some c ∧ l.holds x = some (some (f.memory.content c)) := by
  have hs := h.objects x
  generalize f.get x = o at hs ⊢
  generalize l.holds x = o' at hs ⊢
  cases hs with
  | absent => exact .inl ⟨rfl, rfl⟩
  | moved => exact .inr (.inl ⟨rfl, rfl⟩)
  | pointing v c hv hc => exact .inr (.inr ⟨v, c, rfl, Memory.deref_eq_some.mpr ⟨hv, hc⟩, rfl⟩)

end Follows

/-! ### The stores -/

abbrev StoreStep (output n : Nat) (f : Frame) (l : Ledger) (w : Writer) : Prop :=
  Simulation.Lockstep (Follows output n) (fun _ _ => True) Frame.step Ledger.step f l w

section Stores
variable {output n : Nat} {f : Frame} {l : Ledger}

theorem lockstep_call (h : Follows output n f l) (x : Ref) (value : Ua.Variant) :
    StoreStep output n f l (.call x value) := by
  cases hw : x.writable with
  | false => exact .refused (by simp only [Frame.step, hw]; rfl) (by simp only [Ledger.step, hw]; rfl)
  | true =>
    rcases h.object_cases x with ⟨hx, hl⟩ | ⟨hx, hl⟩ | ⟨v, c, hx, hc, hl⟩
    · exact .refused (by simp [Frame.step, hx]) (by simp [Ledger.step, hl])
    · exact .refused (by simp [Frame.step, hx, Variant.call, Memory.deref]) (by simp [Ledger.step, hl])
    · obtain ⟨hv, hexists⟩ := Memory.deref_eq_some.mp hc
      refine .performed (f.withMemory (f.memory.store c value)) (l.call x value) ?_ ?_
        (iff_true_intro (h.call hx hv hexists value))
      · simp [Frame.step, hw, hx, Variant.call, hc]
      · simp [Ledger.step, hw, hl]

theorem lockstep_copyAssign (h : Follows output n f l) (x y : Ref) :
    StoreStep output n f l (.copyAssign x y) := by
  cases hw : x.writable with
  | false => exact .refused (by simp only [Frame.step, hw]; rfl) (by simp only [Ledger.step, hw]; rfl)
  | true =>
    rcases h.object_cases x with ⟨hx, hl⟩ | ⟨hx, hl⟩ | ⟨v, c, hx, hc, hl⟩
    · exact .refused (by simp [Frame.step, hx]) (by simp [Ledger.step, hl])
    · refine .refused ?_ (by simp [Ledger.step, hl])
      cases hy : f.get y <;> simp [Frame.step, hx, hy, Variant.copyAssign, Memory.deref]
    · rcases h.object_cases y with ⟨hy, hl'⟩ | ⟨hy, hl'⟩ | ⟨w, d, hy, hd, hl'⟩
      · exact .refused (by simp [Frame.step, hy]) (by simp [Ledger.step, hl, hl'])
      · refine .refused ?_ (by simp [Ledger.step, hl, hl'])
        simp [Frame.step, hx, hy, Variant.copyAssign, Memory.deref]
      · obtain ⟨hv, hexists⟩ := Memory.deref_eq_some.mp hc
        obtain ⟨hv', _⟩ := Memory.deref_eq_some.mp hd
        obtain ⟨m, hassign, hnext, hdeleted, hcontent, hframe⟩ := Variant.copyAssign_of_deref hc hd
        have hsame : c = d ↔ x = y := by
          constructor
          · rintro rfl
            exact h.apart x y v w c hx hy hv hv'
          · rintro rfl
            cases hx.symm.trans hy
            exact Option.some.inj (hv.symm.trans hv')
        simp only [hsame] at hcontent
        refine .performed _ (l.copyAssign x y (f.memory.content d)) ?_ ?_
          (iff_true_intro (h.copyAssign hx hv hexists hnext hdeleted hcontent hframe))
        · simp [Frame.step, hw, hx, hy, hassign]
        · simp [Ledger.step, hw, hl, hl']

theorem lockstep_moveAssign (h : Follows output n f l) (x y : Ref) :
    StoreStep output n f l (.moveAssign x y) := by
  cases hw : x.writable && y.writable with
  | false => exact .refused (by simp only [Frame.step, hw]; rfl) (by simp only [Ledger.step, hw]; rfl)
  | true =>
    cases hx : f.get x with
    | none =>
      have hl : l.holds x = none := by rcases h.object_cases x with hc | ⟨hc, _⟩ | ⟨_, _, hc, _⟩ <;> simp_all
      exact .refused (by simp [Frame.step, hx]) (by simp [Ledger.step, hl])
    | some v =>
      cases hy : f.get y with
      | none =>
        have hl : l.holds y = none := by rcases h.object_cases y with hc | ⟨hc, _⟩ | ⟨_, _, hc, _⟩ <;> simp_all
        exact .refused (by simp [Frame.step, hy]) (by simp [Ledger.step, hl])
      | some w =>
        have hl : ∃ value, l.holds x = some value := by
          rcases h.object_cases x with ⟨hc, _⟩ | ⟨_, hc⟩ | ⟨_, _, _, _, hc⟩ <;> simp_all
        have hl' : ∃ value, l.holds y = some value := by
          rcases h.object_cases y with ⟨hc, _⟩ | ⟨_, hc⟩ | ⟨_, _, _, _, hc⟩ <;> simp_all
        obtain ⟨_, hl⟩ := hl
        obtain ⟨value, hl'⟩ := hl'
        obtain ⟨m, hdestroy⟩ : ∃ m, v.destroy f.memory = some m := by
          cases howned : v.owned with
          | false => exact ⟨f.memory, by simp [Variant.destroy, howned]⟩
          | true =>
            obtain ⟨c, hc⟩ := h.pointer_of_owned hx howned
            exact ⟨_, Variant.destroy_of_pointer hc f.memory⟩
        refine .performed _ (l.moveAssign x y value) ?_ ?_
          (iff_true_intro (h.moveAssign hx hy hl' (Variant.destroy_eq_some hdestroy)))
        · simp [Frame.step, hw, hx, hy, Variant.moveAssign, hdestroy]
        · simp [Ledger.step, hw, hl, hl']

theorem lockstep (h : Follows output n f l) (w : Writer) : StoreStep output n f l w := by
  cases w with
  | call x value => exact lockstep_call h x value
  | copyAssign x y => exact lockstep_copyAssign h x y
  | moveAssign x y => exact lockstep_moveAssign h x y

end Stores

end ModernOpc
