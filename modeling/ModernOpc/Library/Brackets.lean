import Mathlib.Data.List.Basic
import Mathlib.Data.String.Basic

/-! Balanced brackets.

A text is scanned with a stack of the brackets that are open. `Neutral` texts leave any
stack as it was; they are what can stand anywhere, they are closed under everything that
text is put together with, and they are balanced. -/
namespace ModernOpc.Library.Brackets

/-- What a symbol does to brackets of the kinds `κ`. -/
inductive Role (κ : Type) where
  | opens (k : κ)
  | closes (k : κ)
  | plain
  deriving DecidableEq, Repr

variable {α κ : Type} [DecidableEq κ] (role : α → Role κ)

/-- One symbol, with the brackets that are open, the innermost first. -/
def next (stack : List κ) (a : α) : Option (List κ) :=
  match role a with
  | .plain => some stack
  | .opens k => some (k :: stack)
  | .closes k =>
    match stack with
    | [] => none
    | k' :: rest => if k = k' then some rest else none

def scan (stack : List κ) : List α → Option (List κ)
  | [] => some stack
  | a :: rest => (next role stack a).bind fun stack => scan stack rest

/-- Every bracket is closed by one of its kind. -/
def Balanced (s : List α) : Prop := scan role [] s = some []

/-- The text leaves open what was open. -/
def Neutral (s : List α) : Prop := ∀ stack, scan role stack s = some stack

variable {role}

theorem scan_append (stack : List κ) (s t : List α) :
    scan role stack (s ++ t) = (scan role stack s).bind fun stack => scan role stack t := by
  induction s generalizing stack with
  | nil => rfl
  | cons a rest ih =>
    rw [List.cons_append, scan, scan]
    cases next role stack a with
    | none => rfl
    | some stack' => exact ih stack'

theorem next_frame {stack stack' : List κ} {a : α} (h : next role stack a = some stack') (outer : List κ) :
    next role (stack ++ outer) a = some (stack' ++ outer) := by
  unfold next at h ⊢
  generalize role a = r at h ⊢
  cases r with
  | plain =>
    cases h
    rfl
  | opens k =>
    cases h
    rfl
  | closes k =>
    cases stack with
    | nil => cases h
    | cons k' rest =>
      by_cases hk : k = k'
      · simp only [if_pos hk, Option.some.injEq] at h
        simp [hk, h]
      · simp [hk] at h

/-- Brackets further out do not matter. -/
theorem scan_frame {stack stack' : List κ} {s : List α} (h : scan role stack s = some stack') (outer : List κ) :
    scan role (stack ++ outer) s = some (stack' ++ outer) := by
  induction s generalizing stack with
  | nil =>
    cases h
    rfl
  | cons a rest ih =>
    obtain ⟨mid, hmid, hrest⟩ := Option.bind_eq_some_iff.mp h
    rw [scan, next_frame hmid outer]
    exact ih hrest

variable (role) in
/-- With the brackets `before` open, the text leaves `after` open instead. -/
def Moves (before after : List κ) (s : List α) : Prop :=
  ∀ outer, scan role (before ++ outer) s = some (after ++ outer)

theorem Moves.of_scan {before after : List κ} {s : List α} (h : scan role before s = some after) :
    Moves role before after s := scan_frame h

theorem Moves.append {before mid after : List κ} {s t : List α} (hs : Moves role before mid s)
    (ht : Moves role mid after t) : Moves role before after (s ++ t) := by
  intro outer
  rw [scan_append, hs outer]
  exact ht outer

theorem Moves.balanced {s : List α} (h : Moves role [] [] s) : Balanced role s := h []

namespace Neutral
variable {s t : List α}

theorem moves (h : Neutral role s) (open_ : List κ) : Moves role open_ open_ s := fun _ => h _

theorem of_moves (h : Moves role [] [] s) : Neutral role s := h

theorem nil : Neutral role ([] : List α) := fun _ => rfl

theorem append (hs : Neutral role s) (ht : Neutral role t) : Neutral role (s ++ t) :=
  of_moves ((hs.moves []).append (ht.moves []))

theorem flatMap {β : Type} {f : β → List α} {xs : List β} (h : ∀ x ∈ xs, Neutral role (f x)) :
    Neutral role (xs.flatMap f) := by
  induction xs with
  | nil => exact nil
  | cons x rest ih =>
    rw [List.flatMap_cons]
    exact (h x (List.mem_cons_self ..)).append (ih fun y hy => h y (List.mem_cons_of_mem _ hy))

/-- A text without brackets. -/
theorem of_plain (h : ∀ a ∈ s, role a = .plain) : Neutral role s := by
  induction s with
  | nil => exact nil
  | cons a rest ih =>
    intro stack
    rw [scan, next, h a (List.mem_cons_self ..)]
    exact ih (fun b hb => h b (List.mem_cons_of_mem _ hb)) stack

end Neutral

end ModernOpc.Library.Brackets
