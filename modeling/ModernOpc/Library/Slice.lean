import Mathlib.Data.List.Basic

/-! Part of a list, by its first and its last place.

`select` takes what there is of the part, if anything; `replace` puts a list of the same
length in its place, if all of it is there. -/
namespace ModernOpc.Library.Slice
variable {α : Type} {min max : Nat} {new xs ys : List α}

/-- The elements from place `min` to place `max`, as far as they exist. -/
def select (min max : Nat) (xs : List α) : Option (List α) :=
  if min ≤ max ∧ min < xs.length then some ((xs.take (max + 1)).drop min) else none

/-- The list with the elements from `min` to `max` replaced. -/
def replace (min max : Nat) (new xs : List α) : Option (List α) :=
  if min ≤ max ∧ max < xs.length ∧ new.length + min = max + 1 then
    some (xs.take min ++ new ++ xs.drop (max + 1))
  else none

theorem replace_eq_some : replace min max new xs = some ys ↔
    (min ≤ max ∧ max < xs.length ∧ new.length + min = max + 1) ∧
      xs.take min ++ new ++ xs.drop (max + 1) = ys := by
  unfold replace
  split
  · next h => simp [h]
  · next h => simp [h]

/-- A replacement keeps the length. -/
theorem replace_length (h : replace min max new xs = some ys) : ys.length = xs.length := by
  obtain ⟨hbounds, rfl⟩ := replace_eq_some.mp h
  simp only [List.length_append, List.length_take, List.length_drop]
  omega

/-- The whole list is selected exactly if the bounds include all of it. -/
theorem select_eq_self_iff : select min max xs = some xs ↔ min = 0 ∧ xs ≠ [] ∧ xs.length ≤ max + 1 := by
  have hlength : 0 < xs.length ↔ xs ≠ [] := List.length_pos_iff
  unfold select
  constructor
  · intro h
    split at h
    · next hbounds =>
      have := congrArg List.length (Option.some.inj h)
      simp only [List.length_drop, List.length_take] at this
      exact ⟨by omega, hlength.mp (by omega), by omega⟩
    · cases h
  · intro ⟨hmin, hne, hmax⟩
    subst hmin
    rw [if_pos ⟨Nat.zero_le _, hlength.mpr hne⟩, List.take_of_length_le hmax, List.drop_zero]

/-- A replacement leaves nothing of the old list exactly if the bounds are those of the list
and the new one is as long. -/
theorem replace_eq_new_iff : replace min max new xs = some new ↔
    min = 0 ∧ max + 1 = xs.length ∧ new.length = xs.length := by
  constructor
  · intro h
    have hlength := replace_length h
    obtain ⟨hbounds, _⟩ := replace_eq_some.mp h
    omega
  · intro ⟨hmin, hmax, hlength⟩
    subst hmin
    refine replace_eq_some.mpr ⟨by omega, ?_⟩
    rw [List.take_zero, List.nil_append, hmax, List.drop_length, List.append_nil]

/-- A list is what is before a part, the part, and what is after it. -/
theorem parts_append (h : min ≤ max) :
    xs.take min ++ (xs.take (max + 1)).drop min ++ xs.drop (max + 1) = xs := by
  have hbefore : xs.take min = (xs.take (max + 1)).take min := by
    rw [List.take_take, Nat.min_eq_left (by omega)]
  rw [hbefore, List.take_append_drop, List.take_append_drop]

/-- A replacement changes nothing exactly if the new elements are those selected. -/
theorem replace_eq_self_iff : replace min max new xs = some xs ↔
    max < xs.length ∧ select min max xs = some new := by
  unfold select
  constructor
  · intro h
    obtain ⟨⟨hle, hmax, hlength⟩, heq⟩ := replace_eq_some.mp h
    refine ⟨hmax, ?_⟩
    rw [if_pos ⟨hle, by omega⟩]
    have hparts := heq.trans (parts_append hle).symm
    exact congrArg some (List.append_cancel_left (List.append_cancel_right hparts)).symm
  · intro ⟨hmax, hselect⟩
    split at hselect
    · next hbounds =>
      cases hselect
      refine replace_eq_some.mpr ⟨⟨hbounds.1, hmax, ?_⟩, parts_append hbounds.1⟩
      rw [List.length_drop, List.length_take]
      omega
    · cases hselect

end ModernOpc.Library.Slice
