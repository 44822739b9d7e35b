import Mathlib.Logic.Function.Basic
import Mathlib.Data.List.Nodup

/-! Custody of resources that must be released exactly once.

Each holder has at most one resource in custody. Resources are entrusted, when they
are made or handed over for good, and released; `released` lists every release. A
book is in order (`Sound`) when no resource has two holders, every entrusted one is
held or was released once, and nothing else was held or released at all.

`acquire`, `release` and `transfer` keep a book in order. `grab` takes custody of a
resource that was not handed over, and shares it or holds what is not entrusted;
`lose` entrusts a resource to nobody, and leaves it unsettled. -/
namespace ModernOpc.Library.Custody

/-- Who holds what, what was entrusted so far and what was released, latest first. -/
@[ext] structure Book (ι κ : Type) where
  holds : ι → Option κ
  entrusted : κ → Prop
  released : List κ

namespace Book
variable {ι κ : Type}

structure Sound (b : Book ι κ) : Prop where
  /-- No resource has two holders. -/
  unique : ∀ i j k, b.holds i = some k → b.holds j = some k → i = j
  /-- What is held was entrusted. -/
  held : ∀ i k, b.holds i = some k → b.entrusted k
  /-- What was entrusted is held or was released. -/
  settled : ∀ k, b.entrusted k → (∃ i, b.holds i = some k) ∨ k ∈ b.released
  /-- What is held was not released. -/
  live : ∀ i k, b.holds i = some k → k ∉ b.released
  /-- Nothing was released twice. -/
  once : b.released.Nodup
  /-- What was released was entrusted. -/
  accounted : ∀ k ∈ b.released, b.entrusted k

variable [DecidableEq ι]

/-- A holder without custody is entrusted with a resource. -/
def acquire (b : Book ι κ) (i : ι) (k : κ) : Book ι κ where
  holds := Function.update b.holds i (some k)
  entrusted k' := b.entrusted k' ∨ k' = k
  released := b.released

/-- A holder releases what it holds, if anything. -/
def release (b : Book ι κ) (i : ι) : Book ι κ where
  holds := Function.update b.holds i none
  entrusted := b.entrusted
  released := (b.holds i).toList ++ b.released

/-- A holder without custody is given what another one holds, or itself. -/
def transfer (b : Book ι κ) (i j : ι) : Book ι κ where
  holds := Function.update (Function.update b.holds i (b.holds j)) j none
  entrusted := b.entrusted
  released := b.released

/-- A holder takes custody of a resource that is not handed over to it. -/
def grab (b : Book ι κ) (i : ι) (k : κ) : Book ι κ where
  holds := Function.update b.holds i (some k)
  entrusted := b.entrusted
  released := b.released

/-- A resource is entrusted to nobody. -/
def lose (b : Book ι κ) (k : κ) : Book ι κ where
  holds := b.holds
  entrusted k' := b.entrusted k' ∨ k' = k
  released := b.released

/-- Whoever holds something after one holder's entry changed held it before, or is
that holder. -/
theorem holds_update {f : ι → Option κ} {i j : ι} {o : Option κ} {k : κ}
    (h : Function.update f i o j = some k) : j = i ∧ o = some k ∨ j ≠ i ∧ f j = some k := by
  by_cases hj : j = i
  · subst hj
    rw [Function.update_self] at h
    exact .inl ⟨rfl, h⟩
  · rw [Function.update_of_ne hj] at h
    exact .inr ⟨hj, h⟩

namespace Sound
variable {b : Book ι κ}

omit [DecidableEq ι] in
theorem empty {entrusted : κ → Prop} (h : ∀ k, ¬ entrusted k) :
    Sound (⟨fun _ => none, entrusted, []⟩ : Book ι κ) where
  unique := by intro i j k hk; cases hk
  held := by intro i k hk; cases hk
  settled := fun k hk => absurd hk (h k)
  live := by intro i k hk; cases hk
  once := List.nodup_nil
  accounted := by intro k hk; cases hk

theorem acquire {i : ι} {k : κ} (h : b.Sound) (hi : b.holds i = none) (hk : ¬ b.entrusted k) :
    (b.acquire i k).Sound where
  unique := by
    intro p q c hp hq
    rcases holds_update hp with ⟨hpi, hpc⟩ | ⟨_, hpc⟩ <;> rcases holds_update hq with ⟨hqi, hqc⟩ | ⟨_, hqc⟩
    · exact hpi.trans hqi.symm
    · cases hpc
      exact absurd (h.held q k hqc) hk
    · cases hqc
      exact absurd (h.held p k hpc) hk
    · exact h.unique p q c hpc hqc
  held := by
    intro p c hp
    rcases holds_update hp with ⟨_, hpc⟩ | ⟨_, hpc⟩
    · exact .inr (Option.some.inj hpc).symm
    · exact .inl (h.held p c hpc)
  settled := by
    intro c hc
    rcases hc with hc | rfl
    · rcases h.settled c hc with ⟨p, hp⟩ | hr
      · refine .inl ⟨p, ?_⟩
        have hpi : p ≠ i := by
          intro he
          subst he
          rw [hi] at hp
          cases hp
        exact (Function.update_of_ne hpi ..).trans hp
      · exact .inr hr
    · exact .inl ⟨i, Function.update_self ..⟩
  live := by
    intro p c hp hr
    rcases holds_update hp with ⟨_, hpc⟩ | ⟨_, hpc⟩
    · cases hpc
      exact hk (h.accounted k hr)
    · exact h.live p c hpc hr
  once := h.once
  accounted := fun c hc => .inl (h.accounted c hc)

theorem release (h : b.Sound) (i : ι) : (b.release i).Sound := by
  have hrel : ∀ c, c ∈ (b.release i).released ↔ b.holds i = some c ∨ c ∈ b.released := fun c => by
    simp [Book.release]
  refine ⟨?_, ?_, ?_, ?_, ?_, ?_⟩
  · intro p q c hp hq
    rcases holds_update hp with ⟨_, hp⟩ | ⟨_, hp⟩
    · cases hp
    · rcases holds_update hq with ⟨_, hq⟩ | ⟨_, hq⟩
      · cases hq
      · exact h.unique p q c hp hq
  · intro p c hp
    rcases holds_update hp with ⟨_, hp⟩ | ⟨_, hp⟩
    · cases hp
    · exact h.held p c hp
  · intro c hc
    rw [hrel]
    rcases h.settled c hc with ⟨p, hp⟩ | hr
    · by_cases hpi : p = i
      · exact .inr (.inl (hpi ▸ hp))
      · exact .inl ⟨p, (Function.update_of_ne hpi ..).trans hp⟩
    · exact .inr (.inr hr)
  · intro p c hp
    rw [hrel]
    rcases holds_update hp with ⟨_, hp⟩ | ⟨hpi, hp⟩
    · cases hp
    · intro h
      rcases h with hi | hr
      · exact hpi (h.unique p i c hp hi)
      · exact h.live p c hp hr
  · show ((b.holds i).toList ++ b.released).Nodup
    cases hi : b.holds i with
    | none => exact h.once
    | some k => exact List.nodup_cons.mpr ⟨h.live i k hi, h.once⟩
  · intro c hc
    rcases (hrel c).mp hc with hi | hr
    · exact h.held i c hi
    · exact h.accounted c hr

/-- After a transfer the second holder holds nothing and the first, unless it is the
same, what the second held. -/
theorem holds_transfer {i j p : ι} {k : κ} (hi : b.holds i = none) :
    (b.transfer i j).holds p = some k ↔
      (p = i ∧ p ≠ j ∧ b.holds j = some k) ∨ (p ≠ i ∧ p ≠ j ∧ b.holds p = some k) := by
  show Function.update (Function.update b.holds i (b.holds j)) j none p = some k ↔ _
  by_cases hj : p = j
  · subst hj
    simp
  · rw [Function.update_of_ne hj]
    by_cases hp : p = i
    · subst hp
      simp [hj]
    · simp [hj, hp]

theorem transfer {i j : ι} (h : b.Sound) (hi : b.holds i = none) : (b.transfer i j).Sound where
  unique := by
    intro p q c hp hq
    rw [holds_transfer hi] at hp hq
    rcases hp with ⟨rfl, _, hp⟩ | ⟨_, hpj, hp⟩ <;> rcases hq with ⟨rfl, _, hq⟩ | ⟨_, hqj, hq⟩
    · rfl
    · exact absurd (h.unique q j c hq hp) hqj
    · exact absurd (h.unique p j c hp hq) hpj
    · exact h.unique p q c hp hq
  held := by
    intro p c hp
    rcases (holds_transfer hi).mp hp with ⟨_, _, hp⟩ | ⟨_, _, hp⟩
    · exact h.held j c hp
    · exact h.held p c hp
  settled := by
    intro c hc
    rcases h.settled c hc with ⟨p, hp⟩ | hr
    · refine .inl ?_
      have hpi : p ≠ i := by
        intro he
        subst he
        rw [hi] at hp
        cases hp
      by_cases hpj : p = j
      · subst hpj
        exact ⟨i, (holds_transfer hi).mpr (.inl ⟨rfl, Ne.symm hpi, hp⟩)⟩
      · exact ⟨p, (holds_transfer hi).mpr (.inr ⟨hpi, hpj, hp⟩)⟩
    · exact .inr hr
  live := by
    intro p c hp
    rcases (holds_transfer hi).mp hp with ⟨_, _, hp⟩ | ⟨_, _, hp⟩
    · exact h.live j c hp
    · exact h.live p c hp
  once := h.once
  accounted := h.accounted

/-- Whoever grabs an entrusted and unreleased resource shares it. -/
theorem grab_shared {i : ι} {k : κ} (h : b.Sound) (hi : b.holds i = none) (hk : b.entrusted k)
    (hr : k ∉ b.released) : ∃ p, p ≠ i ∧ (b.grab i k).holds p = some k := by
  rcases h.settled k hk with ⟨p, hp⟩ | hmem
  · have hpi : p ≠ i := by
      intro he
      subst he
      rw [hi] at hp
      cases hp
    exact ⟨p, hpi, (Function.update_of_ne hpi ..).trans hp⟩
  · exact absurd hmem hr

omit [DecidableEq ι] in
/-- A new resource entrusted to nobody is neither held nor released. -/
theorem lose_unsettled {k : κ} (h : b.Sound) (hk : ¬ b.entrusted k) :
    (∀ i, (b.lose k).holds i ≠ some k) ∧ k ∉ (b.lose k).released :=
  ⟨fun i hi => hk (h.held i k hi), fun hr => hk (h.accounted k hr)⟩

end Sound

/-- The changes that keep a book in order. -/
inductive Orderly : Book ι κ → Book ι κ → Prop where
  | refl (b) : Orderly b b
  | acquire (b) {i k} (hi : b.holds i = none) (hk : ¬ b.entrusted k) : Orderly b (b.acquire i k)
  | release (b) (i) : Orderly b (b.release i)
  | transfer (b) {i j} (hi : b.holds i = none) : Orderly b (b.transfer i j)
  | trans {b c d} : Orderly b c → Orderly c d → Orderly b d

theorem Sound.of_orderly {b c : Book ι κ} (h : b.Sound) (ho : b.Orderly c) : c.Sound := by
  induction ho with
  | refl => exact h
  | acquire _ hi hk => exact h.acquire hi hk
  | release _ i => exact h.release i
  | transfer _ hi => exact h.transfer hi
  | trans _ _ ih₁ ih₂ => exact ih₂ (ih₁ h)

/-- What a holder holds is replaced by what another one, or itself, holds. -/
theorem Orderly.replace (b : Book ι κ) (i j : ι) : b.Orderly ((b.release i).transfer i j) :=
  (Orderly.release b i).trans (Orderly.transfer _ (Function.update_self ..))

end Book

end ModernOpc.Library.Custody
