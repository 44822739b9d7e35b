/-! Runs of a machine whose operations may be refused.

A machine is a partial step function. `visited` lists the states of a run, the
first one included, and `edges` the operations it performed, each with the state
it was performed in; a run ends early at an operation the machine refuses.

An invariant argument splits a safety claim about runs into facts about one step.
`holds_of_kept` asks that every guarded step keeps the invariant;
`holds_iff_guarded` asks in addition that every unguarded step breaks the
property, and then the guard is exactly what a run must respect. -/
namespace ModernOpc.Library.Run

variable {σ α : Type} (step : σ → α → Option σ)

/-- The states of a run, in order. -/
def visited (s : σ) : List α → List σ
  | [] => [s]
  | a :: rest =>
    match step s a with
    | none => [s]
    | some t => s :: visited t rest

/-- The operations a run performs, each with the state it is performed in. -/
def edges (s : σ) : List α → List (σ × α)
  | [] => []
  | a :: rest =>
    match step s a with
    | none => []
    | some t => (s, a) :: edges t rest

/-- The state after all the operations, if none of them is refused. -/
def final (s : σ) : List α → Option σ
  | [] => some s
  | a :: rest =>
    match step s a with
    | none => none
    | some t => final t rest

variable {step}

theorem mem_visited_self (s : σ) (ops : List α) : s ∈ visited step s ops := by
  cases ops with
  | nil => exact List.mem_singleton_self s
  | cons a rest =>
    unfold visited
    split
    · exact List.mem_singleton_self s
    · exact List.mem_cons_self ..

theorem visited_cons {s t : σ} {a : α} (h : step s a = some t) (rest : List α) :
    visited step s (a :: rest) = s :: visited step t rest := by
  simp [visited, h]

theorem edges_cons {s t : σ} {a : α} (h : step s a = some t) (rest : List α) :
    edges step s (a :: rest) = (s, a) :: edges step t rest := by
  simp [edges, h]

theorem visited_refused {s : σ} {a : α} (h : step s a = none) (rest : List α) :
    visited step s (a :: rest) = [s] := by
  simp [visited, h]

theorem edges_refused {s : σ} {a : α} (h : step s a = none) (rest : List α) :
    edges step s (a :: rest) = [] := by
  simp [edges, h]

/-- What a machine is in part runs as a machine of its own. -/
theorem visited_map {τ β : Type} {step' : τ → β → Option τ} (f : σ → τ) (g : α → β)
    (h : ∀ s a t, step s a = some t → step' (f s) (g a) = some (f t)) {s t : σ} {ops : List α}
    (ht : t ∈ visited step s ops) : f t ∈ visited step' (f s) (ops.map g) := by
  induction ops generalizing s with
  | nil =>
    rw [List.mem_singleton.mp ht]
    exact mem_visited_self ..
  | cons a rest ih =>
    cases hs : step s a with
    | none =>
      rw [visited_refused hs] at ht
      rw [List.mem_singleton.mp ht]
      exact mem_visited_self ..
    | some u =>
      rw [visited_cons hs] at ht
      rw [List.map_cons, visited_cons (h s a u hs)]
      rcases List.mem_cons.mp ht with rfl | ht
      · exact List.mem_cons_self ..
      · exact List.mem_cons_of_mem _ (ih ht)

/-- A run performs its operations. -/
theorem performed {s : σ} {ops : List α} {e : σ × α} (h : e ∈ edges step s ops) :
    ∃ t, step e.1 e.2 = some t := by
  induction ops generalizing s with
  | nil => cases h
  | cons a rest ih =>
    cases hs : step s a with
    | none =>
      rw [edges_refused hs] at h
      cases h
    | some u =>
      rw [edges_cons hs] at h
      rcases List.mem_cons.mp h with rfl | h
      · exact ⟨u, hs⟩
      · exact ih h

theorem edge_mem {s : σ} {ops : List α} {e : σ × α} (h : e ∈ edges step s ops) : e.2 ∈ ops := by
  induction ops generalizing s with
  | nil => cases h
  | cons a rest ih =>
    cases hs : step s a with
    | none =>
      rw [edges_refused hs] at h
      cases h
    | some u =>
      rw [edges_cons hs] at h
      rcases List.mem_cons.mp h with rfl | h
      · exact List.mem_cons_self ..
      · exact List.mem_cons_of_mem _ (ih h)

theorem edge_visited {s : σ} {ops : List α} {e : σ × α} (h : e ∈ edges step s ops) :
    e.1 ∈ visited step s ops := by
  induction ops generalizing s with
  | nil => cases h
  | cons a rest ih =>
    cases hs : step s a with
    | none =>
      rw [edges_refused hs] at h
      cases h
    | some u =>
      rw [edges_cons hs] at h
      rw [visited_cons hs]
      rcases List.mem_cons.mp h with rfl | h
      · exact List.mem_cons_self ..
      · exact List.mem_cons_of_mem _ (ih h)

theorem edge_target_visited {s t : σ} {ops : List α} {e : σ × α} (h : e ∈ edges step s ops)
    (ht : step e.1 e.2 = some t) : t ∈ visited step s ops := by
  induction ops generalizing s with
  | nil => cases h
  | cons a rest ih =>
    cases hs : step s a with
    | none =>
      rw [edges_refused hs] at h
      cases h
    | some u =>
      rw [edges_cons hs] at h
      rw [visited_cons hs]
      rcases List.mem_cons.mp h with rfl | h
      · rw [hs, Option.some.injEq] at ht
        subst ht
        exact List.mem_cons_of_mem _ (mem_visited_self _ rest)
      · exact List.mem_cons_of_mem _ (ih h)

/-- A run that is not refused performs each of its operations. -/
theorem edge_of_final {s t : σ} {ops : List α} (h : final step s ops = some t) {a : α} (ha : a ∈ ops) :
    ∃ u, (u, a) ∈ edges step s ops := by
  induction ops generalizing s with
  | nil => cases ha
  | cons b rest ih =>
    unfold final at h
    split at h
    · cases h
    · next u hu =>
      rw [edges_cons hu]
      rcases List.mem_cons.mp ha with rfl | ha
      · exact ⟨s, List.mem_cons_self ..⟩
      · exact (ih h ha).imp fun _ hedge => List.mem_cons_of_mem _ hedge

theorem final_mem_visited {s t : σ} {ops : List α} (h : final step s ops = some t) :
    t ∈ visited step s ops := by
  induction ops generalizing s with
  | nil =>
    rw [final, Option.some.injEq] at h
    exact h ▸ mem_visited_self s []
  | cons a rest ih =>
    unfold final at h
    split at h
    · cases h
    · next u hu =>
      rw [visited_cons hu]
      exact List.mem_cons_of_mem _ (ih h)

/-! ### Invariants -/

section Invariant
variable {I P : σ → Prop} {G : σ → α → Prop}

/-- A guarded run keeps what every guarded step keeps. -/
theorem holds_of_kept (keep : ∀ s a t, I s → G s a → step s a = some t → I t)
    {s : σ} {ops : List α} (h0 : I s) (hg : ∀ e ∈ edges step s ops, G e.1 e.2) :
    ∀ t ∈ visited step s ops, I t := by
  induction ops generalizing s with
  | nil =>
    intro t ht
    rw [List.mem_singleton.mp ht]
    exact h0
  | cons a rest ih =>
    cases hs : step s a with
    | none =>
      intro t ht
      rw [visited_refused hs] at ht
      rw [List.mem_singleton.mp ht]
      exact h0
    | some u =>
      rw [edges_cons hs] at hg
      have hu : I u := keep s a u h0 (hg _ (List.mem_cons_self ..)) hs
      intro t ht
      rw [visited_cons hs] at ht
      rcases List.mem_cons.mp ht with rfl | ht
      · exact h0
      · exact ih hu (fun e he => hg e (List.mem_cons_of_mem _ he)) t ht

/-- A run is never refused if the guarded operations never are and keep the invariant. -/
theorem final_of_total {G : α → Prop} (total : ∀ s a, I s → G a → ∃ t, step s a = some t ∧ I t)
    {s : σ} {ops : List α} (h0 : I s) (hg : ∀ a ∈ ops, G a) : ∃ t, final step s ops = some t := by
  induction ops generalizing s with
  | nil => exact ⟨s, rfl⟩
  | cons a rest ih =>
    obtain ⟨t, ht, hit⟩ := total s a h0 (hg a (List.mem_cons_self ..))
    unfold final
    rw [ht]
    exact ih hit fun b hb => hg b (List.mem_cons_of_mem _ hb)

/-- If guarded steps keep the invariant and unguarded ones break the property,
the property holds throughout a run exactly when the run respects the guard. -/
theorem holds_iff_guarded (sound : ∀ s, I s → P s)
    (keep : ∀ s a t, I s → G s a → step s a = some t → I t)
    (breaks : ∀ s a t, I s → ¬ G s a → step s a = some t → ¬ P t)
    {s : σ} (h0 : I s) (ops : List α) :
    (∀ t ∈ visited step s ops, P t) ↔ ∀ e ∈ edges step s ops, G e.1 e.2 := by
  constructor
  · intro hP
    induction ops generalizing s with
    | nil => intro e he; cases he
    | cons a rest ih =>
      cases hs : step s a with
      | none => intro e he; rw [edges_refused hs] at he; cases he
      | some u =>
        rw [visited_cons hs] at hP
        have hG : G s a := by
          refine Classical.byContradiction fun hn => breaks s a u h0 hn hs ?_
          exact hP u (List.mem_cons_of_mem _ (mem_visited_self u rest))
        rw [edges_cons hs]
        intro e he
        rcases List.mem_cons.mp he with rfl | he
        · exact hG
        · exact ih (keep s a u h0 hG hs) (fun t ht => hP t (List.mem_cons_of_mem _ ht)) e he
  · intro hG t ht
    exact sound t (holds_of_kept keep h0 hG t ht)

end Invariant

end ModernOpc.Library.Run
