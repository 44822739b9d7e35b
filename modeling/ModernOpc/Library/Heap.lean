import Mathlib.Logic.Function.Basic

/-! A heap of blocks, for code that frees what it walks over.

A block is reached by its address while it is allocated. `free` takes a null pointer and
the address of a block; on anything else, a block freed before included, it has no result.
What is left after some blocks were freed is the heap `without` them, in any order. -/
namespace ModernOpc.Library

abbrev Address := Nat

/-- The blocks by address. -/
abbrev Heap (β : Type) := Address → Option β

namespace Heap
variable {β : Type}

/-- `free`. -/
def free (p : Option Address) (h : Heap β) : Option (Heap β) :=
  match p with
  | none => some h
  | some a => (h a).map fun _ => Function.update h a none

/-- A store into a block. -/
def write (a : Address) (b : β) (h : Heap β) : Option (Heap β) :=
  (h a).map fun _ => Function.update h a (some b)

/-- The heap without the blocks at some addresses. -/
def without (h : Heap β) (freed : List Address) : Heap β := fun a => if a ∈ freed then none else h a

@[simp] theorem without_nil (h : Heap β) : h.without [] = h := rfl

theorem without_of_mem {h : Heap β} {freed : List Address} {a : Address} (ha : a ∈ freed) :
    h.without freed a = none := if_pos ha

theorem without_of_not_mem {h : Heap β} {freed : List Address} {a : Address} (ha : a ∉ freed) :
    h.without freed a = h a := if_neg ha

theorem without_append (h : Heap β) (freed more : List Address) :
    (h.without freed).without more = h.without (freed ++ more) := by
  funext a
  by_cases hm : a ∈ more
  · rw [without_of_mem hm, without_of_mem (List.mem_append_right _ hm)]
  · rw [without_of_not_mem hm]
    by_cases hf : a ∈ freed
    · rw [without_of_mem hf, without_of_mem (List.mem_append_left _ hf)]
    · rw [without_of_not_mem hf, without_of_not_mem]
      exact fun h => (List.mem_append.mp h).elim hf hm

/-- A pointer that may be freed is null or leads to a block. -/
theorem free_eq {p : Option Address} {h : Heap β} (hp : ∀ a ∈ p, (h a).isSome = true) :
    free p h = some (h.without p.toList) := by
  cases p with
  | none => rfl
  | some a =>
    obtain ⟨b, hb⟩ := Option.isSome_iff_exists.mp (hp a rfl)
    show (h a).map (fun _ => Function.update h a none) = _
    rw [hb]
    refine congrArg some (funext fun c => ?_)
    show Function.update h a none c = h.without [a] c
    by_cases hc : c = a
    · subst hc
      rw [Function.update_self, without_of_mem (List.mem_singleton_self c)]
    · rw [Function.update_of_ne hc, without_of_not_mem fun hm => hc (List.mem_singleton.mp hm)]

theorem write_eq {h : Heap β} {a : Address} (ha : (h a).isSome = true) (b : β) :
    write a b h = some (Function.update h a (some b)) := by
  obtain ⟨c, hc⟩ := Option.isSome_iff_exists.mp ha
  exact congrArg _ hc

end Heap

end ModernOpc.Library
