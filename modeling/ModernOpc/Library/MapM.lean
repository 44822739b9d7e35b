import Mathlib.Data.List.Forall2

/-! Lists computed entry by entry, where an entry may have no result.

`eq_some_iff` says what a result is, entry by entry, and `isSome_iff` when there is one. -/
namespace ModernOpc.Library.MapM

variable {α β : Type} {f : α → Option β} {xs : List α} {ys : List β}

theorem eq_some_iff : xs.mapM f = some ys ↔ List.Forall₂ (fun x y => f x = some y) xs ys := by
  induction xs generalizing ys with
  | nil => simp [eq_comm]
  | cons x rest ih =>
    simp only [List.mapM_cons, Option.bind_eq_bind, Option.bind_eq_some_iff, Option.pure_def, Option.some.injEq,
      List.forall₂_cons_left_iff, ← ih]
    constructor
    · intro ⟨y, hy, ys', hys, heq⟩
      exact ⟨y, ys', hy, hys, heq.symm⟩
    · intro ⟨y, ys', hy, hys, heq⟩
      exact ⟨y, hy, ys', hys, heq.symm⟩

theorem isSome_iff : (xs.mapM f).isSome ↔ ∀ x ∈ xs, (f x).isSome := by
  induction xs with
  | nil => simp
  | cons x rest ih =>
    rw [List.forall_mem_cons, ← ih, List.mapM_cons]
    cases f x with
    | none => simp
    | some y => cases rest.mapM f <;> simp

theorem length_eq (h : xs.mapM f = some ys) : ys.length = xs.length := (eq_some_iff.mp h).length_eq.symm

/-- Each entry of a result is that of some entry. -/
theorem exists_of_mem (h : xs.mapM f = some ys) {y : β} (hy : y ∈ ys) : ∃ x ∈ xs, f x = some y := by
  have hentries := eq_some_iff.mp h
  clear h
  induction hentries with
  | nil => cases hy
  | cons hx _ ih =>
    rcases List.mem_cons.mp hy with rfl | hy
    · exact ⟨_, List.mem_cons_self .., hx⟩
    · obtain ⟨x, hmem, hfx⟩ := ih hy
      exact ⟨x, List.mem_cons_of_mem _ hmem, hfx⟩

end ModernOpc.Library.MapM
