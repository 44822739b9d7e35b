import Mathlib.Data.List.Basic

/-! Text in fields with a separator between them.

A field that does not have the separator ends at the first one (`cut`), so as many
fields, joined, are told from any others (`join_injective`). Where a word stands between
two fields, and either may have it, the word found may be another one (`word_cut`). -/
namespace ModernOpc.Library.Fields

variable {α : Type}

/-- The fields, the separator between each two. -/
def join (sep : α) : List (List α) → List α
  | [] => []
  | [field] => field
  | field :: rest => field ++ sep :: join sep rest

theorem join_cons_cons (sep : α) (field next : List α) (rest : List (List α)) :
    join sep (field :: next :: rest) = field ++ sep :: join sep (next :: rest) := rfl

/-- What stands before the first separator, and what behind it. -/
theorem cut {sep : α} {a b x y : List α} (ha : sep ∉ a) (hb : sep ∉ b) (h : a ++ sep :: x = b ++ sep :: y) :
    a = b ∧ x = y := by
  induction a generalizing b with
  | nil =>
    cases b with
    | nil => exact ⟨rfl, (List.cons.inj h).2⟩
    | cons c b => exact absurd ((List.cons.inj h).1 ▸ List.mem_cons_self ..) hb
  | cons c a ih =>
    cases b with
    | nil => exact absurd ((List.cons.inj h).1 ▸ List.mem_cons_self ..) ha
    | cons d b =>
      obtain ⟨rfl, hrest⟩ := List.cons.inj h
      obtain ⟨rfl, rfl⟩ := ih (fun hc => ha (List.mem_cons_of_mem _ hc)) (fun hc => hb (List.mem_cons_of_mem _ hc))
        hrest
      exact ⟨rfl, rfl⟩

theorem join_injective {sep : α} {xs ys : List (List α)} (hx : ∀ x ∈ xs, sep ∉ x) (hy : ∀ y ∈ ys, sep ∉ y)
    (hlen : xs.length = ys.length) (h : join sep xs = join sep ys) : xs = ys := by
  induction xs generalizing ys with
  | nil => exact (List.length_eq_zero_iff.mp hlen.symm).symm
  | cons x xs ih =>
    obtain ⟨y, ys, rfl⟩ := List.exists_cons_of_length_eq_add_one hlen.symm
    have htail : xs.length = ys.length := Nat.succ.inj hlen
    cases xs with
    | nil =>
      obtain rfl := List.length_eq_zero_iff.mp htail.symm
      exact congrArg (fun field => [field]) h
    | cons x' xs =>
      obtain ⟨y', ys, rfl⟩ := List.exists_cons_of_length_eq_add_one htail.symm
      rw [join_cons_cons, join_cons_cons] at h
      obtain ⟨rfl, hrest⟩ := cut (hx x (List.mem_cons_self ..)) (hy y (List.mem_cons_self ..)) h
      rw [ih (fun z hz => hx z (List.mem_cons_of_mem _ hz)) (fun z hz => hy z (List.mem_cons_of_mem _ hz)) htail
        hrest]

/-- A word whose first letter it has only once does not overlap itself. -/
theorem word_cut_left {c : α} {w u x y : List α} (hc : c ∉ w) (h : c :: w ++ x = u ++ (c :: w ++ y)) :
    u = [] ∧ x = y ∨ ∃ m, u = c :: w ++ m ∧ x = m ++ (c :: w ++ y) := by
  cases u with
  | nil => exact .inl ⟨rfl, List.append_cancel_left h⟩
  | cons d u =>
    obtain ⟨rfl, hrest⟩ := List.cons.inj h
    rcases List.append_eq_append_iff.mp hrest with ⟨v, rfl, hx⟩ | ⟨v, hw, hx⟩
    · exact .inr ⟨v, rfl, hx⟩
    · cases v with
      | nil =>
        rw [List.append_nil] at hw
        exact .inr ⟨[], by rw [List.append_nil, hw], hx.symm⟩
      | cons d v =>
        obtain ⟨rfl, _⟩ := List.cons.inj hx
        exact absurd (hw ▸ List.mem_append_right u (List.mem_cons_self ..)) hc

/-- Two fields and a word between them: the fields are the same, or one of them has the word. -/
theorem word_cut {c : α} {w a b x y : List α} (hc : c ∉ w) (h : a ++ (c :: w ++ x) = b ++ (c :: w ++ y)) :
    (a = b ∧ x = y) ∨ (∃ m, b = a ++ (c :: w ++ m) ∧ x = m ++ (c :: w ++ y)) ∨
      ∃ m, a = b ++ (c :: w ++ m) ∧ y = m ++ (c :: w ++ x) := by
  rcases List.append_eq_append_iff.mp h with ⟨u, rfl, hu⟩ | ⟨u, rfl, hu⟩
  · rcases word_cut_left hc hu with ⟨rfl, rfl⟩ | ⟨m, rfl, hx⟩
    · exact .inl ⟨(List.append_nil a).symm, rfl⟩
    · exact .inr (.inl ⟨m, rfl, hx⟩)
  · rcases word_cut_left hc hu with ⟨rfl, rfl⟩ | ⟨m, rfl, hy⟩
    · exact .inl ⟨List.append_nil b, rfl⟩
    · exact .inr (.inr ⟨m, rfl, hy⟩)

end ModernOpc.Library.Fields
