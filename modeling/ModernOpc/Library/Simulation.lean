import ModernOpc.Library.Run
import Mathlib.Data.List.Forall2

/-! Two machines run side by side.

A machine refines another, its specification, if on every run the two refuse the same
operation and are related at each point before it. `related_iff_guarded` splits this into
facts about one step (`Lockstep`): from related states both perform an operation or neither
does, and they end up related exactly if it meets a guard, read off the specification. -/
namespace ModernOpc.Library.Simulation
open Run

variable {σ τ α : Type} {step : σ → α → Option σ} {spec : τ → α → Option τ}

/-- The states visited by the two are related one by one. -/
def Related (R : σ → τ → Prop) (step : σ → α → Option σ) (spec : τ → α → Option τ) (s : σ) (a : τ)
    (ops : List α) : Prop :=
  List.Forall₂ R (visited step s ops) (visited spec a ops)

variable {R : σ → τ → Prop} {A : α → Prop} {G : τ → α → Prop}

/-- Both refuse. -/
theorem Related.refused {s : σ} {a : τ} {op : α} (h : R s a) (hs : step s op = none) (ha : spec a op = none)
    (rest : List α) : Related R step spec s a (op :: rest) := by
  unfold Related
  rw [visited_refused hs, visited_refused ha]
  exact .cons h .nil

theorem related_cons {s t : σ} {a b : τ} {op : α} (hs : step s op = some t) (ha : spec a op = some b)
    (rest : List α) : Related R step spec s a (op :: rest) ↔ R s a ∧ Related R step spec t b rest := by
  unfold Related
  rw [visited_cons hs, visited_cons ha]
  exact List.forall₂_cons

theorem Related.first {s : σ} {a : τ} {ops : List α} (h : Related R step spec s a ops) : R s a := by
  cases ops with
  | nil => exact (List.forall₂_cons.mp h).1
  | cons op rest =>
    unfold Related visited at h
    split at h <;> split at h <;> exact (List.forall₂_cons.mp h).1

/-- Two machines and an operation: both refuse it, or both perform it and are related
afterwards exactly if the guard is met. -/
inductive Lockstep (R : σ → τ → Prop) (G : τ → α → Prop) (step : σ → α → Option σ) (spec : τ → α → Option τ)
    (s : σ) (a : τ) (op : α) : Prop where
  | refused (hs : step s op = none) (ha : spec a op = none)
  | performed (t : σ) (b : τ) (hs : step s op = some t) (ha : spec a op = some b) (h : R t b ↔ G a op)

/-- Machines that go in lockstep from related states are related throughout a run exactly if
it meets the guard. -/
theorem related_iff_guarded (lockstep : ∀ s a op, R s a → A op → Lockstep R G step spec s a op)
    {s : σ} {a : τ} (h0 : R s a) {ops : List α} (hops : ∀ op ∈ ops, A op) :
    Related R step spec s a ops ↔ ∀ e ∈ edges spec a ops, G e.1 e.2 := by
  induction ops generalizing s a with
  | nil =>
    refine ⟨fun _ e he => ?_, fun _ => .cons h0 .nil⟩
    cases he
  | cons op rest ih =>
    have hrest : ∀ op ∈ rest, A op := fun o ho => hops o (List.mem_cons_of_mem _ ho)
    cases lockstep s a op h0 (hops op (List.mem_cons_self ..)) with
    | refused hs ha =>
      rw [edges_refused ha]
      refine ⟨fun _ e he => ?_, fun _ => .refused h0 hs ha rest⟩
      cases he
    | performed t b hs ha hstep =>
      rw [edges_cons ha, related_cons hs ha]
      constructor
      · intro ⟨_, hrelated⟩ e he
        have hR := hrelated.first
        rcases List.mem_cons.mp he with rfl | he
        · exact hstep.mp hR
        · exact (ih hR hrest).mp hrelated e he
      · intro hG
        have hR := hstep.mpr (hG _ (List.mem_cons_self ..))
        exact ⟨h0, (ih hR hrest).mpr fun e he => hG e (List.mem_cons_of_mem _ he)⟩

/-- Machines in lockstep without a guard end a run together, related, or both refuse it. -/
theorem final_related (lockstep : ∀ s a op, R s a → Lockstep R (fun _ _ => True) step spec s a op) {s : σ} {a : τ}
    (h : R s a) (ops : List α) :
    (final step s ops = none ∧ final spec a ops = none) ∨
      ∃ t b, final step s ops = some t ∧ final spec a ops = some b ∧ R t b := by
  induction ops generalizing s a with
  | nil => exact .inr ⟨s, a, rfl, rfl, h⟩
  | cons op rest ih =>
    unfold final
    cases lockstep s a op h with
    | refused hs ha =>
      rw [hs, ha]
      exact .inl ⟨rfl, rfl⟩
    | performed t b hs ha hstep =>
      rw [hs, ha]
      exact ih (hstep.mpr trivial)

end ModernOpc.Library.Simulation
