import ModernOpc.Variant.Ownership

/-! What a copy assignment does to the values.

`x = y` should give `x` the value of `y` and leave `y`, and every Variant elsewhere, as
it was. The assignment clears the target's cell before it reads the source's, so it must
not be one cell, and it needs a cell to copy into, which a moved-from target has not.

`copyAssign_iff`: in any state of any run, the assignment does what it should exactly
if the two Variants point to different cells that were not deleted, or to one such cell
that is empty. -/
namespace ModernOpc.Ownership
open Library

/-- The value a Variant holds, if it points to an existing cell. -/
def State.value (s : State) (x : Nat) : Option Ua.Variant := do
  let v ← s.objects x
  let c ← s.memory.deref v.variant
  return s.memory.content c

/-- Two Variants point to one cell. -/
def State.Share (s : State) (x y : Nat) : Prop :=
  ∃ v w c, s.objects x = some v ∧ s.objects y = some w ∧ v.variant = some c ∧ w.variant = some c

/-- What `x = y` should do. -/
structure Assigns (s : State) (x y : Nat) (t : State) : Prop where
  target : t.value x = s.value y
  source : t.value y = s.value y
  others : ∀ z, z ≠ x → ¬ s.Share z x → t.objects z = s.objects z ∧ t.value z = s.value z

/-- The two cells are there, and are two or empty. -/
def Assignable (m : Memory) (self other : Variant) : Prop :=
  ∃ c d, self.variant = some c ∧ other.variant = some d ∧ c ∉ m.deleted ∧ d ∉ m.deleted ∧
    (c ≠ d ∨ m.content d = .init)

/-! ### Every pointer leads to a cell that was made -/

/-- A Variant points to a cell from outside, or to one that was allocated. -/
def State.Placed (s : State) : Prop :=
  ∀ x v n, s.objects x = some v → v.variant = some (.allocated n) → n < s.memory.next

theorem placed_start (content : Cell → Ua.Variant) : (start content).Placed := by
  intro x v n hx
  cases hx

theorem placed_step {s t : State} {op : Op} (h : s.Placed) (hstep : step s op = some t) : t.Placed := by
  obtain ⟨hgrown, horigin⟩ := step_origin hstep
  intro z w n hz hw
  cases horigin z w hz with
  | kept hk => exact Nat.lt_of_lt_of_le (h z w n hk hw) hgrown
  | made hnew hn =>
    subst hnew
    cases hw
    exact hn ▸ Nat.lt_succ_self _
  | wrapped var owner _ hwrap hexists =>
    subst hwrap
    exact Nat.lt_of_lt_of_le ((Memory.exists?_iff.mp hexists).2 n (Option.some.inj hw)) hgrown
  | moved y _ hy => exact Nat.lt_of_lt_of_le (h y w n hy hw) hgrown
  | left hleft =>
    subst hleft
    cases hw
  | assigned y v c _ hv _ hclaim =>
    subst hclaim
    exact Nat.lt_of_lt_of_le (h z v n hv hw) hgrown

/-- A Variant of a run that points to a cell not deleted may read it. -/
theorem deref_of_placed {s : State} (h : s.Placed) {x : Nat} {v : Variant} {c : Cell}
    (hx : s.objects x = some v) (hc : v.variant = some c) (hlive : c ∉ s.memory.deleted) :
    s.memory.deref v.variant = some c := by
  refine Memory.deref_eq_some.mpr ⟨hc, Memory.exists?_iff.mpr ⟨hlive, ?_⟩⟩
  intro n hn
  subst hn
  exact h x v n hx hc

/-! ### The assignment -/

theorem deref_congr {m m' : Memory} (hn : m'.next = m.next) (hd : m'.deleted = m.deleted) (p : Option Cell) :
    m'.deref p = m.deref p := by
  unfold Memory.deref Memory.exists?
  rw [hn, hd]

theorem value_of_deref {s : State} {x : Nat} {v : Variant} {c : Cell} (hx : s.objects x = some v)
    (hc : s.memory.deref v.variant = some c) : s.value x = some (s.memory.content c) := by
  simp [State.value, hx, hc]

section
variable {s : State} {x y : Nat} {a b : Variant} {c d : Cell}

/-- The state afterwards: both Variants hold the source's value, or nothing where they
share a cell, and values elsewhere are kept. -/
theorem step_copyAssign_of_deref (hx : s.objects x = some a) (hy : s.objects y = some b)
    (hc : s.memory.deref a.variant = some c) (hd : s.memory.deref b.variant = some d) :
    ∃ t, step s (.copyAssign x y) = some t ∧ t.value x = some (if c = d then .init else s.memory.content d) ∧
      t.value y = some (if c = d then .init else s.memory.content d) ∧
      ∀ z, z ≠ x → ¬ s.Share z x → t.objects z = s.objects z ∧ t.value z = s.value z := by
  obtain ⟨m, hassign, hn, hdel, hcontent, hframe⟩ := Variant.copyAssign_of_deref hc hd
  have hderef := deref_congr hn hdel
  have htarget : ((s.withMemory m).set x (some {a with owned := true})).value x =
      some (if c = d then .init else s.memory.content d) := by
    have hobject : ((s.withMemory m).set x (some {a with owned := true})).objects x =
        some {a with owned := true} := Function.update_self ..
    rw [value_of_deref hobject ((hderef a.variant).trans hc)]
    exact congrArg some hcontent
  have hother : ∀ z, z ≠ x →
      ((s.withMemory m).set x (some {a with owned := true})).objects z = s.objects z := fun z hz =>
    Function.update_of_ne hz ..
  refine ⟨_, by simp [step, hx, hy, hassign], htarget, ?_, fun z hz hshare => ⟨hother z hz, ?_⟩⟩
  · by_cases hyx : y = x
    · exact hyx ▸ htarget
    · rw [value_of_deref ((hother y hyx).trans hy) ((hderef b.variant).trans hd)]
      refine congrArg some (Eq.trans ?_ hcontent)
      by_cases hdc : d = c
      · rw [hdc]
        rfl
      · rw [hcontent, if_neg (Ne.symm hdc)]
        exact hframe d hdc
  · unfold State.value
    rw [hother z hz]
    cases hw : s.objects z with
    | none => rfl
    | some w =>
      show (m.deref w.variant).bind (fun e => some (m.content e)) =
        (s.memory.deref w.variant).bind (fun e => some (s.memory.content e))
      rw [hderef]
      cases he : s.memory.deref w.variant with
      | none => rfl
      | some e =>
        refine congrArg some (hframe e ?_)
        intro he
        subst he
        exact hshare ⟨w, a, e, hw, hx, (Memory.deref_eq_some.mp he).1, (Memory.deref_eq_some.mp hc).1⟩

end

/-- In every state of every run, a copy assignment completes and does what it should
exactly if neither cell was deleted and they are two, or one that is empty. -/
theorem copyAssign_iff (content : Cell → Ua.Variant) (ops : List Op) {s : State}
    (hs : s ∈ Run.visited step (start content) ops) {x y : Nat} {a b : Variant}
    (hx : s.objects x = some a) (hy : s.objects y = some b) :
    (∃ t, step s (.copyAssign x y) = some t ∧ Assigns s x y t) ↔ Assignable s.memory a b := by
  have hplaced : s.Placed := Run.holds_of_kept (G := fun _ _ => True)
    (fun _ _ _ h _ hstep => placed_step h hstep) (placed_start content) (fun _ _ => trivial) s hs
  constructor
  · intro ⟨t, ht, hassigns⟩
    have hcompletes : ∃ p, a.copyAssign b s.memory = some p := by
      simp only [step, hx, hy, Option.bind_eq_bind, Option.bind_some] at ht
      obtain ⟨p, hp, _⟩ := Option.bind_eq_some_iff.mp ht
      exact ⟨p, hp⟩
    obtain ⟨p, hp⟩ := hcompletes
    obtain ⟨c, d, hc, hd⟩ := Variant.copyAssign_derefs hp
    obtain ⟨hac, hcx⟩ := Memory.deref_eq_some.mp hc
    obtain ⟨hbd, hdx⟩ := Memory.deref_eq_some.mp hd
    refine ⟨c, d, hac, hbd, (Memory.exists?_iff.mp hcx).1, (Memory.exists?_iff.mp hdx).1, ?_⟩
    obtain ⟨t', ht', htarget, _, _⟩ := step_copyAssign_of_deref hx hy hc hd
    cases ht.symm.trans ht'
    by_cases hcd : c = d
    · refine .inr ?_
      have hvalues := hassigns.target
      rw [htarget, if_pos hcd, value_of_deref hy hd] at hvalues
      exact (Option.some.inj hvalues).symm
    · exact .inl hcd
  · intro ⟨c, d, hac, hbd, hc, hd, hdiffer⟩
    have hc := deref_of_placed hplaced hx hac hc
    have hd := deref_of_placed hplaced hy hbd hd
    obtain ⟨t, ht, htarget, hsource, hothers⟩ := step_copyAssign_of_deref hx hy hc hd
    have hkept : some (if c = d then .init else s.memory.content d) = s.value y := by
      rw [value_of_deref hy hd]
      split
      · next hcd => rw [hdiffer.resolve_left (absurd hcd)]
      · rfl
    exact ⟨t, ht, htarget.trans hkept, hsource.trans hkept, hothers⟩

/-- `Variant x0(1); Variant x1; x1 = x0;` -/
theorem copyAssign_of_int : ∃ s ∈ Run.visited step (start fun _ => .init)
      [.ofValue 0 (some (.setScalarCopy (.int32 1) (Ua.builtin .int32))), .default 1],
    ∃ t, step s (.copyAssign 1 0) = some t ∧ Assigns s 1 0 t := by
  let ops : List Op := [.ofValue 0 (some (.setScalarCopy (.int32 1) (Ua.builtin .int32))), .default 1]
  have hrun : ∃ s, Run.final step (start fun _ => .init) ops = some s ∧ s.memory.deleted = [] ∧
      s.objects 0 = some ⟨some (.allocated 0), true⟩ ∧
      s.objects 1 = some ⟨some (.allocated 1), true⟩ := ⟨_, rfl, rfl, rfl, rfl⟩
  obtain ⟨s, hs, hdel, h0, h1⟩ := hrun
  refine ⟨s, Run.final_mem_visited hs, (copyAssign_iff _ ops (Run.final_mem_visited hs) h1 h0).mpr ?_⟩
  exact ⟨_, _, rfl, rfl, by simp [hdel], by simp [hdel], .inl (by decide)⟩

/-- `Variant x0(1); x0 = x0;` empties `x0`. -/
theorem copyAssign_to_itself : ¬ ∀ (content : Cell → Ua.Variant) (ops : List Op),
    ∀ s ∈ Run.visited step (start content) ops, ∀ x y a b, s.objects x = some a → s.objects y = some b →
      b.variant ≠ none → ∃ t, step s (.copyAssign x y) = some t ∧ Assigns s x y t := by
  intro h
  let ops : List Op := [.ofValue 0 (some (.setScalarCopy (.int32 1) (Ua.builtin .int32)))]
  have hrun : ∃ s, Run.final step (start fun _ => .init) ops = some s ∧
      s.objects 0 = some ⟨some (.allocated 0), true⟩ ∧
      s.value 0 = some (.setScalarCopy (.int32 1) (Ua.builtin .int32)) ∧
      ∃ t, step s (.copyAssign 0 0) = some t ∧ t.value 0 = some .init := ⟨_, rfl, rfl, rfl, _, rfl, rfl⟩
  obtain ⟨s, hs, h0, hvalue, t, ht, hempty⟩ := hrun
  obtain ⟨t', ht', hassigns⟩ := h _ ops s (Run.final_mem_visited hs) 0 0 _ _ h0 h0 nofun
  cases ht.symm.trans ht'
  have hinit := hassigns.target
  rw [hempty, hvalue, Option.some.injEq] at hinit
  cases hinit

end ModernOpc.Ownership
