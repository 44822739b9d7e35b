import ModernOpc.Library.Run
import Mathlib.Logic.Function.Basic

/-! Running a server and stopping it.

`run` sets `isRunning` itself and then hands it to `UA_Server_run`, which loops while it is
true; `stop` clears it and shuts the server down. Any number of calls are in progress at a
time, and the steps of one come between those of the others in any order.

A request to stop stands until another `run` is invoked. `stop_kept_iff`: none is lost, in a
run and when its calls of `stop` complete, exactly if no `run` sets the flag that a request
which stands has cleared. -/
namespace ModernOpc.Server.Running
open Library

/-! ### Calls and their steps -/

/-- Where a call of `run` is: before its first statement, before or inside the loop of
`UA_Server_run`, or behind it. -/
inductive RunPhase where
  | invoked
  | entering
  | looping
  | returned
  deriving DecidableEq, Repr

/-- Where a call of `stop` is. -/
inductive StopPhase where
  | invoked
  | cleared
  | returned
  deriving DecidableEq, Repr

/-- The flag and the calls made so far. -/
structure State where
  isRunning : Bool
  run : Nat → Option RunPhase
  stop : Nat → Option StopPhase
  /-- No `run` was invoked since this `stop` was. -/
  latest : Nat → Bool

def start : State := ⟨false, fun _ => none, fun _ => none, fun _ => false⟩

/-- A step of a call; `~Server` calls `stop` too. -/
inductive Op where
  | run (r : Nat)
  /-- `isRunning = true;` -/
  | setRunning (r : Nat)
  /-- The test of the loop in `UA_Server_run`. -/
  | testRunning (r : Nat)
  | stop (q : Nat)
  /-- `isRunning = false;` -/
  | clearRunning (q : Nat)
  /-- `UA_Server_run_shutdown(server);` -/
  | shutdown (q : Nat)
  deriving DecidableEq, Repr

def step (s : State) : Op → Option State
  | .run r =>
    if s.run r = none then
      some {s with run := Function.update s.run r (some .invoked), latest := fun _ => false}
    else none
  | .setRunning r =>
    if s.run r = some .invoked then
      some {s with isRunning := true, run := Function.update s.run r (some .entering)}
    else none
  | .testRunning r =>
    if s.run r = some .entering ∨ s.run r = some .looping then
      some {s with run := Function.update s.run r (some (if s.isRunning then .looping else .returned))}
    else none
  | .stop q =>
    if s.stop q = none then
      some {s with
        stop := Function.update s.stop q (some .invoked)
        latest := Function.update s.latest q true}
    else none
  | .clearRunning q =>
    if s.stop q = some .invoked then
      some {s with isRunning := false, stop := Function.update s.stop q (some .cleared)}
    else none
  | .shutdown q =>
    if s.stop q = some .cleared then some {s with stop := Function.update s.stop q (some .returned)}
    else none

/-! ### Requests -/

/-- A request that has cleared the flag, with no `run` invoked since it was made. -/
structure State.Stands (s : State) (q : Nat) : Prop where
  latest : s.latest q = true
  cleared : s.stop q = some .cleared ∨ s.stop q = some .returned

/-- Once a `stop` has completed and no `run` was invoked since it was, the flag is not true,
and a loop that is entered or continued ends. -/
def State.Kept (s : State) : Prop :=
  ∀ q, s.latest q = true → s.stop q = some .returned →
    s.isRunning = false ∧ ∀ r t, step s (.testRunning r) = some t → t.run r = some .returned

/-- No `run` sets the flag against a request that stands. -/
def Respects (s : State) : Op → Prop
  | .setRunning _ => ∀ q, ¬ s.Stands q
  | .run _ | .testRunning _ | .stop _ | .clearRunning _ | .shutdown _ => True

/-- Where a request stands, the flag is cleared. -/
def State.Inv (s : State) : Prop := ∀ q, s.Stands q → s.isRunning = false

section
variable {s t : State}

theorem step_run {r : Nat} (h : step s (.run r) = some t) :
    s.run r = none ∧
      t = {s with run := Function.update s.run r (some .invoked), latest := fun _ => false} := by
  simp only [step, Option.ite_none_right_eq_some, Option.some.injEq] at h
  exact ⟨h.1, h.2.symm⟩

theorem step_setRunning {r : Nat} (h : step s (.setRunning r) = some t) :
    s.run r = some .invoked ∧
      t = {s with isRunning := true, run := Function.update s.run r (some .entering)} := by
  simp only [step, Option.ite_none_right_eq_some, Option.some.injEq] at h
  exact ⟨h.1, h.2.symm⟩

theorem step_testRunning {r : Nat} (h : step s (.testRunning r) = some t) :
    t = {s with run := Function.update s.run r (some (if s.isRunning then .looping else .returned))} := by
  simp only [step, Option.ite_none_right_eq_some, Option.some.injEq] at h
  exact h.2.symm

theorem step_stop {q : Nat} (h : step s (.stop q) = some t) :
    s.stop q = none ∧ t = {s with
      stop := Function.update s.stop q (some .invoked)
      latest := Function.update s.latest q true} := by
  simp only [step, Option.ite_none_right_eq_some, Option.some.injEq] at h
  exact ⟨h.1, h.2.symm⟩

theorem step_clearRunning {q : Nat} (h : step s (.clearRunning q) = some t) :
    s.stop q = some .invoked ∧
      t = {s with isRunning := false, stop := Function.update s.stop q (some .cleared)} := by
  simp only [step, Option.ite_none_right_eq_some, Option.some.injEq] at h
  exact ⟨h.1, h.2.symm⟩

theorem step_shutdown {q : Nat} (h : step s (.shutdown q) = some t) :
    s.stop q = some .cleared ∧ t = {s with stop := Function.update s.stop q (some .returned)} := by
  simp only [step, Option.ite_none_right_eq_some, Option.some.injEq] at h
  exact ⟨h.1, h.2.symm⟩

theorem inv_start : start.Inv := by
  intro q h
  cases h.latest

theorem State.Inv.kept (h : s.Inv) : s.Kept := by
  intro q hlatest hreturned
  have hflag : s.isRunning = false := h q ⟨hlatest, .inr hreturned⟩
  refine ⟨hflag, fun r t ht => ?_⟩
  rw [step_testRunning ht, hflag]
  exact Function.update_self ..

/-- Every other step than setting the flag against a request keeps the invariant. -/
theorem step_inv {op : Op} (hi : s.Inv) (hg : Respects s op) (h : step s op = some t) : t.Inv := by
  intro p hp
  cases op with
  | run r =>
    obtain ⟨_, rfl⟩ := step_run h
    cases hp.latest
  | setRunning r =>
    obtain ⟨_, rfl⟩ := step_setRunning h
    exact absurd ⟨hp.latest, hp.cleared⟩ (hg p)
  | testRunning r =>
    obtain rfl := step_testRunning h
    exact hi p ⟨hp.latest, hp.cleared⟩
  | stop q =>
    obtain ⟨_, rfl⟩ := step_stop h
    by_cases he : p = q
    · -- the new request has cleared nothing yet
      subst he
      rcases hp.cleared with hc | hc <;> simp at hc
    · exact hi p ⟨by simpa [he] using hp.latest, by simpa [he] using hp.cleared⟩
  | clearRunning q =>
    obtain ⟨_, rfl⟩ := step_clearRunning h
    rfl
  | shutdown q =>
    obtain ⟨hq, rfl⟩ := step_shutdown h
    by_cases he : p = q
    · subst he
      exact hi p ⟨hp.latest, .inl hq⟩
    · exact hi p ⟨hp.latest, by simpa [he] using hp.cleared⟩

end

/-! ### Runs -/

/-- The calls of `stop` that have cleared the flag complete. -/
def Completing (ops : List Op) : Prop := ∀ op ∈ ops, ∃ q, op = .shutdown q

/-- No request is lost, now or when the calls of `stop` complete. -/
def State.KeptOn (s : State) : Prop := ∀ ops, Completing ops → ∀ t ∈ Run.visited step s ops, t.Kept

theorem State.Inv.keptOn {s : State} (h : s.Inv) : s.KeptOn := by
  intro ops hops t ht
  have hguarded : ∀ e ∈ Run.edges step s ops, Respects e.1 e.2 := by
    intro e he
    obtain ⟨q, hq⟩ := hops e.2 (Run.edge_mem he)
    rw [hq]
    trivial
  exact (Run.holds_of_kept (fun _ _ _ => step_inv) h hguarded t ht).kept

/-- A flag set against a request is still set when the `stop` completes. -/
theorem step_lost {s t : State} {op : Op} (hg : ¬ Respects s op) (h : step s op = some t) : ¬ t.KeptOn := by
  intro hkept
  cases op with
  | setRunning r =>
    obtain ⟨q, hstands⟩ := not_forall_not.mp hg
    obtain ⟨_, rfl⟩ := step_setRunning h
    rcases hstands.cleared with hcleared | hreturned
    · let t : State := {s with isRunning := true, run := Function.update s.run r (some .entering)}
      have hshutdown : step t (.shutdown q) =
          some {t with stop := Function.update t.stop q (some .returned)} := if_pos hcleared
      have hvisited : {t with stop := Function.update t.stop q (some .returned)} ∈
          Run.visited step t [.shutdown q] := by
        rw [Run.visited_cons hshutdown]
        exact List.mem_cons_of_mem _ (Run.mem_visited_self _ [])
      have hcompleting : Completing [.shutdown q] := fun op hop => ⟨q, List.mem_singleton.mp hop⟩
      cases (hkept _ hcompleting _ hvisited q hstands.latest (Function.update_self ..)).1
    · have hnone : Completing [] := fun op hop => by cases hop
      cases (hkept [] hnone _ (List.mem_singleton_self _) q hstands.latest hreturned).1
  | run _ | testRunning _ | stop _ | clearRunning _ | shutdown _ => exact hg trivial

/-- No request to stop is lost in a run in which no `run` sets the flag against one. Where one
does, a request is lost by the time the calls of `stop` have completed. -/
theorem stop_kept_iff (ops : List Op) :
    ((∀ e ∈ Run.edges step start ops, Respects e.1 e.2) → ∀ s ∈ Run.visited step start ops, s.Kept) ∧
    ((∀ s ∈ Run.visited step start ops, s.KeptOn) ↔ ∀ e ∈ Run.edges step start ops, Respects e.1 e.2) := by
  refine ⟨fun hguarded s hs => ?_, ?_⟩
  · exact (Run.holds_of_kept (fun _ _ _ => step_inv) inv_start hguarded s hs).kept
  · exact Run.holds_iff_guarded (fun _ h => h.keptOn) (fun _ _ _ => step_inv)
      (fun _ _ _ _ => step_lost) inv_start ops

/-- A `stop` between the invocation of `run` and its first statement. -/
theorem stop_lost : ¬ ∀ ops : List Op, ∀ s ∈ Run.visited step start ops, s.Kept := by
  intro h
  let ops : List Op := [.run 0, .stop 0, .clearRunning 0, .shutdown 0, .setRunning 0]
  obtain ⟨s, hfinal, hrunning, hlatest, hreturned⟩ : ∃ s, Run.final step start ops = some s ∧
      s.isRunning = true ∧ s.latest 0 = true ∧ s.stop 0 = some .returned := ⟨_, rfl, rfl, rfl, rfl⟩
  have hkept := (h ops s (Run.final_mem_visited hfinal) 0 hlatest hreturned).1
  rw [hrunning] at hkept
  cases hkept

end ModernOpc.Server.Running
