import ModernOpc.Variant.Value
import ModernOpc.Variant.Writers

/-! What the server's callbacks hand to user code, and what comes back.

open62541 calls `internalMethodCallback`, `internalRead` and `internalWrite` with the
addresses of its own `UA_Variant`s. They are wrapped as borrowed, one after another in
memory for a method's arguments, and user code stores its results into the wrappers.

`delivery_iff` says when a slot holds the last value stored and was not deleted. -/
namespace ModernOpc
open Library Library.Bytes

/-! ### `std::vector<Variant>` -/

/-- The destructor of a vector. -/
def destroyAll : List Variant → Memory → Option Memory
  | [], m => some m
  | v :: rest, m => do
    let m ← v.destroy m
    destroyAll rest m

/-- `emplace_back(Variant{…})`. Where the vector grows, its elements are moved to the new
storage and what is left of them destroyed. -/
def emplaceBack (grows : Nat → Bool) (args : List Variant) (v : Variant) (m : Memory) :
    Option (List Variant × Memory) := do
  let (added, rest) := v.move
  if grows args.length then
    let m ← destroyAll (args.map (·.move.2)) m
    let m ← rest.destroy m
    return (args.map (·.move.1) ++ [added], m)
  else
    let m ← rest.destroy m
    return (args ++ [added], m)

/-- `for (auto it = …; it != … + size; it++)`, with `n` addresses to go. -/
def wrapAll (grows : Nat → Bool) (it : Nat) : Nat → List Variant → Memory → Option (List Variant × Memory)
  | 0, args, m => some (args, m)
  | n + 1, args, m => do
    let (args, m) ← emplaceBack grows args (Variant.wrap (.foreign it) false) m
    wrapAll grows (it + 1) n args m

/-- What the Variants hold. -/
def values (args : List Variant) (m : Memory) : List Ua.Variant :=
  args.filterMap fun v => v.variant.map m.content

/-! ### User code -/

/-- A new cell with a value in it. -/
def Memory.holding (m : Memory) (value : Ua.Variant) : Cell × Memory :=
  let (cell, m) := m.new
  (cell, m.store cell value)

/-- The Variants a callback makes. -/
def holdAll : List (Ua.Variant × Bool) → Memory → List Variant × Memory
  | [], m => ([], m)
  | (value, owned) :: rest, m =>
    let (cell, m) := m.holding value
    let (vs, m) := holdAll rest m
    (⟨some cell, owned⟩ :: vs, m)

/-- The callback makes its Variants, stores, and destroys them. -/
def Body.perform (body : Body) (inputArgs outputArgs : List Variant) (m : Memory) : Option Frame := do
  let (own, m) := holdAll body.own m
  let f ← Run.final Frame.step ⟨inputArgs, outputArgs, own, m⟩ body.writers
  let m ← destroyAll f.own f.memory
  return f.withMemory m

/-- What can be read off the body about these inputs and outputs; nothing if it uses a
Variant that is not there or was moved from. -/
def Body.ledger (body : Body) (inputs outputs : List Ua.Variant) : Option Ledger :=
  Run.final Ledger.step (.opening inputs outputs (body.own.map (·.1))) body.writers

/-- A generic method: from the inputs, what it does and returns. -/
abbrev FunctionCall := List Ua.Variant → Body × Bool

/-- Two functions of user code, which share state with the rest of it. -/
structure DataSource (σ : Type) where
  key : Bytes
  m_read : σ → NodeId → σ × Body × Ua.StatusCode
  m_write : σ → NodeId → Ua.Variant → σ × Ua.StatusCode

section DataSources
variable {σ : Type}

def DataSource.read (ds : DataSource σ) (code : σ) (id : NodeId) : σ × Body × Ua.StatusCode := ds.m_read code id

def DataSource.write (ds : DataSource σ) (code : σ) (id : NodeId) (var : Ua.Variant) : σ × Ua.StatusCode :=
  ds.m_write code id var

end DataSources

/-! ### The callbacks -/

/-- `Server::internalMethodCallback`. -/
def internalMethodCallback (grows : Nat → Bool) (methodContext : Option FunctionCall)
    (input inputSize output outputSize : Nat) (m : Memory) : Option (Ua.StatusCode × Memory) :=
  match methodContext with
  | none => some (.badMethodInvalid, m)
  | some s => do
    let (outputArgs, m) ← wrapAll grows output outputSize [] m
    let (inputArgs, m) ← wrapAll grows input inputSize [] m
    let (body, returned) := s (values inputArgs m)
    let f ← body.perform inputArgs outputArgs m
    let m ← destroyAll f.outputs f.memory
    let m ← destroyAll inputArgs m
    return (if returned then .good else .badMethodInvalid, m)

/-- `Server::internalRead`: what the data source returns is dropped. -/
def internalRead {σ : Type} (nodeContext : Option (DataSource σ)) (code : σ) (nodeId : Ua.NodeId) (value : Nat)
    (m : Memory) : Option (Ua.StatusCode × σ × Memory) :=
  match nodeContext with
  | none => some (.badNoData, code, m)
  | some ds => do
    let var := Variant.wrap (.foreign value) false
    let (code, body, _) := ds.read code (fromUaNodeId nodeId)
    let f ← body.perform [] [var] m
    let m ← destroyAll f.outputs f.memory
    return (.good, code, m)

/-- `Server::internalWrite`: what the data source returns is dropped. -/
def internalWrite {σ : Type} (nodeContext : Option (DataSource σ)) (code : σ) (nodeId : Ua.NodeId) (value : Nat)
    (m : Memory) : Option (Ua.StatusCode × σ × Memory) :=
  match nodeContext with
  | none => some (.badNoData, code, m)
  | some ds => do
    let var := Variant.wrap (.foreign value) false
    let (code, _) := ds.write code (fromUaNodeId nodeId) (m.content (.foreign value))
    let m ← var.destroy m
    return (.good, code, m)

/-! ### Vectors of borrowed Variants -/

/-- What is left of a Variant that was moved from is destroyed to no effect. -/
theorem destroyAll_moved (args : List Variant) (m : Memory) :
    destroyAll (args.map (·.move.2)) m = some m := by
  induction args with
  | nil => rfl
  | cons v rest ih => exact ih

/-- Growing or not, the vector has one more element. -/
theorem emplaceBack_eq (grows : Nat → Bool) (args : List Variant) (v : Variant) (m : Memory) :
    emplaceBack grows args v m = some (args ++ [v], m) := by
  have hmove : args.map (fun v => v.move.1) = args := List.map_id args
  show (if grows args.length then (destroyAll (args.map (·.move.2)) m).bind fun m =>
      some (args.map (·.move.1) ++ [v], m) else some (args ++ [v], m)) = _
  rw [destroyAll_moved, hmove]
  exact ite_self _

/-- Variants around the cells from address `it` on, which they borrow. -/
def borrowed (it n : Nat) : List Variant := (List.range' it n).map fun a => ⟨some (.foreign a), false⟩

theorem wrapAll_eq (grows : Nat → Bool) (it n : Nat) (args : List Variant) (m : Memory) :
    wrapAll grows it n args m = some (args ++ borrowed it n, m) := by
  induction n generalizing it args with
  | zero => simp [wrapAll, borrowed]
  | succ n ih => simp [wrapAll, emplaceBack_eq, ih, borrowed, Variant.wrap, List.range'_succ]

/-- The values in `n` cells. -/
def handed (m : Memory) (base n : Nat) : List Ua.Variant :=
  (List.range' base n).map fun a => m.content (.foreign a)

theorem values_borrowed (it n : Nat) (m : Memory) : values (borrowed it n) m = handed m it n := by
  rw [values, borrowed, List.filterMap_map]
  exact congrFun List.filterMap_eq_map (List.range' it n)

/-! ### From beginning to end -/

/-- What open62541 hands over: `k` inputs and `n` outputs, all there, and none among the others. -/
structure Handed (m : Memory) (input k output n : Nat) : Prop where
  proper : m.Proper
  inputs : ∀ i < k, .foreign (input + i) ∉ m.deleted
  outputs : ∀ j < n, .foreign (output + j) ∉ m.deleted
  apart : ∀ i < k, ∀ j < n, input + i ≠ output + j

theorem borrowed_getElem? (it n i : Nat) :
    (borrowed it n)[i]? = if i < n then some ⟨some (.foreign (it + i)), false⟩ else none := by
  by_cases h : i < n <;> simp [borrowed, h]

theorem handed_getElem? (m : Memory) (base n i : Nat) :
    (handed m base n)[i]? = if i < n then some (m.content (.foreign (base + i))) else none := by
  by_cases h : i < n <;> simp [handed, h]

/-- A cell that was there, if it is one of ours. -/
def Memory.Old (m : Memory) (c : Cell) : Prop := ∀ n, c = .allocated n → n < m.next

/-- The Variants that a callback makes have new cells, one after another. -/
theorem holdAll_spec (own : List (Ua.Variant × Bool)) (m : Memory) :
    (holdAll own m).2.next = m.next + own.length ∧ (holdAll own m).2.deleted = m.deleted ∧
    (∀ c, m.Old c → (holdAll own m).2.content c = m.content c) ∧
    (∀ i : Nat, (holdAll own m).1[i]? = own[i]?.map fun o => Variant.mk (some (.allocated (m.next + i))) o.2) ∧
    ∀ (i : Nat) o, own[i]? = some o → (holdAll own m).2.content (.allocated (m.next + i)) = o.1 := by
  induction own generalizing m with
  | nil => exact ⟨rfl, rfl, fun _ _ => rfl, fun _ => rfl, fun i o h => by cases h⟩
  | cons o rest ih =>
    obtain ⟨value, owned⟩ := o
    obtain ⟨hnext, hdeleted, hcontent, hget, hvalue⟩ := ih (m.holding value).2
    have hone : (m.holding value).2.next = m.next + 1 := rfl
    have hother {c : Cell} (hc : c ≠ .allocated m.next) : (m.holding value).2.content c = m.content c :=
      (Function.update_of_ne hc ..).trans (Function.update_of_ne hc ..)
    refine ⟨?_, hdeleted, fun c hc => ?_, fun i => ?_, fun i o ho => ?_⟩
    · rw [List.length_cons]
      exact hnext.trans (by omega)
    · refine (hcontent c fun n hn => Nat.lt_succ_of_lt (hc n hn)).trans (hother ?_)
      rintro rfl
      exact Nat.lt_irrefl _ (hc _ rfl)
    · cases i with
      | zero => rfl
      | succ i =>
        refine (hget i).trans ?_
        rw [hone, Nat.add_assoc, Nat.add_comm 1]
        rfl
    · cases i with
      | zero =>
        cases ho
        refine (hcontent _ fun n hn => ?_).trans (Function.update_self ..)
        cases hn
        exact Nat.lt_succ_self _
      | succ i =>
        have := hvalue i o ho
        rw [hone, Nat.add_assoc, Nat.add_comm 1] at this
        exact this

section Callback
variable {input k output n : Nat} {m : Memory}

/-- Where the Variants point to at first. -/
theorem opened_cases (own : List (Ua.Variant × Bool)) {x : Ref} {v : Variant}
    (h : (⟨borrowed input k, borrowed output n, (holdAll own m).1, (holdAll own m).2⟩ : Frame).get x = some v) :
    (∃ i < k, x = .input i ∧ v = ⟨some (.foreign (input + i)), false⟩) ∨
    (∃ j < n, x = .output j ∧ v = ⟨some (.foreign (output + j)), false⟩) ∨
    ∃ i o, own[i]? = some o ∧ x = .own i ∧ v = ⟨some (.allocated (m.next + i)), o.2⟩ := by
  cases x with
  | input i =>
    refine .inl ⟨i, ?_⟩
    simp only [Frame.get, borrowed_getElem?] at h
    split at h
    · next hi => exact ⟨hi, rfl, (Option.some.inj h).symm⟩
    · cases h
  | output j =>
    refine .inr (.inl ⟨j, ?_⟩)
    simp only [Frame.get, borrowed_getElem?] at h
    split at h
    · next hj => exact ⟨hj, rfl, (Option.some.inj h).symm⟩
    · cases h
  | own i =>
    simp only [Frame.get, (holdAll_spec own m).2.2.2.1, Option.map_eq_some_iff] at h
    obtain ⟨o, ho, hv⟩ := h
    exact .inr (.inr ⟨i, o, ho, rfl, hv.symm⟩)

/-- At first every Variant holds the value it was made around. -/
theorem opening_objects (h : Handed m input k output n) (own : List (Ua.Variant × Bool)) (x : Ref) :
    Stands (holdAll own m).2
      ((⟨borrowed input k, borrowed output n, (holdAll own m).1, (holdAll own m).2⟩ : Frame).get x)
      ((Ledger.opening (handed m input k) (handed m output n) (own.map (·.1))).holds x) := by
  obtain ⟨hnext, hdeleted, hcontent, hget, hvalue⟩ := holdAll_spec own m
  have hold (a : Nat) : m.Old (.foreign a) := fun n hn => by cases hn
  have hlive {a : Nat} (ha : .foreign a ∉ m.deleted) : (holdAll own m).2.exists? (.foreign a) = true :=
    Memory.exists?_iff.mpr ⟨hdeleted ▸ ha, fun n hn => by cases hn⟩
  cases x with
  | input i =>
    simp only [Frame.get, Ledger.opening, borrowed_getElem?, handed_getElem?]
    by_cases hi : i < k
    · rw [if_pos hi, if_pos hi, Option.map_some, ← hcontent _ (hold _)]
      exact .pointing _ _ rfl (hlive (h.inputs i hi))
    · rw [if_neg hi, if_neg hi]
      exact .absent
  | output j =>
    simp only [Frame.get, Ledger.opening, borrowed_getElem?, handed_getElem?]
    by_cases hj : j < n
    · rw [if_pos hj, if_pos hj, Option.map_some, ← hcontent _ (hold _)]
      exact .pointing _ _ rfl (hlive (h.outputs j hj))
    · rw [if_neg hj, if_neg hj]
      exact .absent
  | own i =>
    simp only [Frame.get, Ledger.opening, hget, List.getElem?_map]
    cases ho : own[i]? with
    | none => exact .absent
    | some o =>
      rw [Option.map_some, Option.map_some, Option.map_some, ← hvalue i o ho]
      refine .pointing _ _ rfl (Memory.exists?_iff.mpr ⟨fun hmem => ?_, fun a ha => ?_⟩)
      · have := h.proper _ (hdeleted ▸ hmem)
        omega
      · cases ha
        rw [hnext]
        exact Nat.add_lt_add_left (List.getElem?_eq_some_iff.mp ho).1 _

/-- At first no two Variants point to one cell. -/
theorem opening_apart (h : Handed m input k output n) (own : List (Ua.Variant × Bool)) {x y : Ref} {v w : Variant}
    {c : Cell}
    (hx : (⟨borrowed input k, borrowed output n, (holdAll own m).1, (holdAll own m).2⟩ : Frame).get x = some v)
    (hy : (⟨borrowed input k, borrowed output n, (holdAll own m).1, (holdAll own m).2⟩ : Frame).get y = some w)
    (hv : v.variant = some c) (hw : w.variant = some c) : x = y := by
  obtain ⟨i, hi, rfl, rfl⟩ | ⟨i, hi, rfl, rfl⟩ | ⟨i, o, _, rfl, rfl⟩ := opened_cases own hx <;>
    obtain ⟨i', hi', rfl, rfl⟩ | ⟨i', hi', rfl, rfl⟩ | ⟨i', o', _, rfl, rfl⟩ := opened_cases own hy <;>
    cases hv <;> simp only [Option.some.injEq, Cell.foreign.injEq, Cell.allocated.injEq, reduceCtorEq,
      Nat.add_left_cancel_iff] at hw <;> try subst hw
  · rfl
  · exact absurd hw.symm (h.apart i hi i' hi')
  · exact absurd hw (h.apart i' hi' i hi)
  · rfl
  · rfl

/-- At first the slot of an output is pointed to by that output alone. -/
theorem opening_slot (h : Handed m input k output n) (own : List (Ua.Variant × Bool)) {j : Nat} (hj : j < n)
    (x : Ref) :
    .output j = x ↔ ∃ v,
      (⟨borrowed input k, borrowed output n, (holdAll own m).1, (holdAll own m).2⟩ : Frame).get x = some v ∧
        v.variant = some (slot output j) := by
  constructor
  · rintro rfl
    refine ⟨⟨some (slot output j), false⟩, ?_, rfl⟩
    simp only [Frame.get, borrowed_getElem?, if_pos hj]
  · rintro ⟨v, hx, hv⟩
    obtain ⟨i, hi, rfl, rfl⟩ | ⟨i, hi, rfl, rfl⟩ | ⟨i, o, _, rfl, rfl⟩ := opened_cases own hx
    · simp only [Option.some.injEq, Cell.foreign.injEq] at hv
      exact absurd hv (h.apart i hi j hj)
    · simp only [Option.some.injEq, Cell.foreign.injEq, Nat.add_left_cancel_iff] at hv
      rw [hv]
    · cases hv

/-- At first memory is as the ledger says. -/
theorem opening_follows (h : Handed m input k output n) (own : List (Ua.Variant × Bool)) :
    Follows output n ⟨borrowed input k, borrowed output n, (holdAll own m).1, (holdAll own m).2⟩
      (.opening (handed m input k) (handed m output n) (own.map (·.1))) := by
  obtain ⟨hnext, hdeleted, hcontent, _, _⟩ := holdAll_spec own m
  have hlength : (handed m output n).length = n := by simp [handed]
  refine ⟨fun a ha => ?_, opening_objects h own, fun _ _ _ _ _ hx hy hv hw => opening_apart h own hx hy hv hw,
    fun j hj x => ?_, fun j hj x v hx hv => ?_, fun j hj _ => ?_, fun j hj => ?_⟩
  · rw [hnext]
    exact Nat.lt_of_lt_of_le (h.proper a (hdeleted ▸ ha)) (Nat.le_add_right ..)
  · simp only [Ledger.opening, hlength, if_pos hj, Option.some.injEq]
    exact opening_slot h own hj x
  · simp only [Ledger.opening, hlength, if_pos hj, Option.some.injEq] at hx
    subst hx
    obtain ⟨i, hi, he, _⟩ | ⟨i, hi, _, rfl⟩ | ⟨i, o, _, he, _⟩ := opened_cases own hv
    · cases he
    · rfl
    · cases he
  · show _ = (handed m output n)[j]?.getD .init
    rw [handed_getElem?, if_pos hj]
    exact hcontent _ fun n hn => by cases hn
  · rw [hdeleted]
    exact ⟨fun hmem => absurd hmem (h.outputs j hj), fun hc => (by cases hc.1)⟩

/-- The destructor deletes what the elements hold. -/
theorem destroyAll_eq {args : List Variant} (h : ∀ v ∈ args, v.owned = true → ∃ c, v.variant = some c)
    (m : Memory) :
    ∃ m', destroyAll args m = some m' ∧ m'.content = m.content ∧ m'.next = m.next ∧
      ∀ c, c ∈ m'.deleted ↔ (∃ v ∈ args, v.held = some c) ∨ c ∈ m.deleted := by
  induction args generalizing m with
  | nil => exact ⟨m, rfl, rfl, rfl, by simp⟩
  | cons v rest ih =>
    obtain ⟨m', hm', hcontent, hnext, hdeleted⟩ := ih (fun w hw => h w (List.mem_cons_of_mem _ hw))
      {m with deleted := v.held.toList ++ m.deleted}
    have hdestroy : v.destroy m = some {m with deleted := v.held.toList ++ m.deleted} := by
      cases howned : v.owned with
      | false => simp [Variant.destroy, Variant.held, howned]
      | true =>
        obtain ⟨c, hc⟩ := h v (List.mem_cons_self ..) howned
        exact Variant.destroy_of_pointer hc m
    refine ⟨m', ?_, hcontent, hnext, fun d => ?_⟩
    · rw [destroyAll, hdestroy]
      exact hm'
    · simp only [hdeleted, List.mem_append, Option.mem_toList, List.mem_cons, exists_eq_or_imp, or_assoc]
      exact or_left_comm

variable {f : Frame} {l : Ledger}

/-- When all Variants have been destroyed, what they held is deleted. -/
theorem Follows.closed (h : Follows output n f l) :
    ∃ m₀ m₁ m', destroyAll f.own f.memory = some m₀ ∧ destroyAll f.outputs m₀ = some m₁ ∧
      destroyAll f.inputs m₁ = some m' ∧ m'.content = f.memory.content ∧ m'.next = f.memory.next ∧
      ∀ c, c ∈ m'.deleted ↔ (∃ x v, f.get x = some v ∧ v.held = some c) ∨ c ∈ f.memory.deleted := by
  have hpointer {x : Nat → Ref} {args : List Variant} (hx : ∀ i, f.get (x i) = args[i]?) :
      ∀ v ∈ args, v.owned = true → ∃ c, v.variant = some c := fun v hv => by
    obtain ⟨i, hi⟩ := List.getElem?_of_mem hv
    exact h.pointer_of_owned ((hx i).trans hi)
  obtain ⟨m₀, hm₀, hcontent₀, hnext₀, hdeleted₀⟩ := destroyAll_eq (hpointer (x := .own) fun _ => rfl) f.memory
  obtain ⟨m₁, hm₁, hcontent₁, hnext₁, hdeleted₁⟩ := destroyAll_eq (hpointer (x := .output) fun _ => rfl) m₀
  obtain ⟨m', hm', hcontent, hnext, hdeleted⟩ := destroyAll_eq (hpointer (x := .input) fun _ => rfl) m₁
  refine ⟨m₀, m₁, m', hm₀, hm₁, hm', hcontent.trans (hcontent₁.trans hcontent₀), hnext.trans (hnext₁.trans hnext₀),
    fun c => ?_⟩
  rw [hdeleted, hdeleted₁, hdeleted₀]
  simp only [List.mem_iff_getElem?]
  constructor
  · rintro (⟨v, ⟨i, hi⟩, hheld⟩ | ⟨v, ⟨i, hi⟩, hheld⟩ | ⟨v, ⟨i, hi⟩, hheld⟩ | hc)
    · exact .inl ⟨.input i, v, hi, hheld⟩
    · exact .inl ⟨.output i, v, hi, hheld⟩
    · exact .inl ⟨.own i, v, hi, hheld⟩
    · exact .inr hc
  · rintro (⟨x, v, hx, hheld⟩ | hc)
    · cases x with
      | input i => exact .inl ⟨v, ⟨i, hx⟩, hheld⟩
      | output i => exact .inr (.inl ⟨v, ⟨i, hx⟩, hheld⟩)
      | own i => exact .inr (.inr (.inl ⟨v, ⟨i, hx⟩, hheld⟩))
    · exact .inr (.inr (.inr hc))

/-- The slot holds the last value stored into output `j`, and was not deleted. -/
def Delivered (l : Ledger) (after : Memory) (output j : Nat) : Prop :=
  l.stored j = some (after.content (slot output j)) ∧ slot output j ∉ after.deleted

theorem Follows.delivered_iff (h : Follows output n f l) {m' : Memory} (hcontent : m'.content = f.memory.content)
    (hdeleted : ∀ c, c ∈ m'.deleted ↔ (∃ x v, f.get x = some v ∧ v.held = some c) ∨ c ∈ f.memory.deleted)
    {j : Nat} (hj : j < n) : Delivered l m' output j ↔ l.Intact j := by
  have hslot : slot output j ∈ m'.deleted ↔ l.claimed j = true := by
    rw [hdeleted, h.released j hj]
    constructor
    · rintro (⟨x, v, hx, hheld⟩ | hc)
      · obtain ⟨howned, hv⟩ := Variant.held_eq_some.mp hheld
        rw [← h.claimed j hj x v ((h.holder j hj x).mpr ⟨v, hx, hv⟩) hx]
        exact howned
      · exact hc.1
    · intro hclaimed
      cases hholder : l.holder j with
      | none => exact .inr ⟨hclaimed, rfl⟩
      | some x =>
        obtain ⟨v, hx, hv⟩ := (h.holder j hj x).mp hholder
        exact .inl ⟨x, v, hx, Variant.held_eq_some.mpr ⟨(h.claimed j hj x v hholder hx).trans hclaimed, hv⟩⟩
  unfold Delivered Ledger.Intact
  rw [hslot, Bool.not_eq_true, and_comm]
  refine and_congr_right fun hclaimed => ?_
  rw [hcontent, h.written j hj hclaimed]

/-- A cell from before that is no input's and no output's. -/
structure Memory.Apart (m : Memory) (input k output n : Nat) (c : Cell) : Prop where
  old : m.Old c
  inputs : ∀ i < k, c ≠ .foreign (input + i)
  outputs : ∀ j < n, c ≠ .foreign (output + j)

/-- No Variant of the callback ever points to a cell of before, but for those handed over. -/
theorem run_apart {ws : List Writer} {f f' : Frame} {c : Cell} (hrun : Run.final Frame.step f ws = some f')
    (h : ∀ x v, f.get x = some v → v.variant ≠ some c) :
    f'.memory.content c = f.memory.content c ∧ (c ∈ f'.memory.deleted ↔ c ∈ f.memory.deleted) ∧
      ∀ x v, f'.get x = some v → v.variant ≠ some c := by
  let I (t : Frame) : Prop := t.memory.content c = f.memory.content c ∧
    (c ∈ t.memory.deleted ↔ c ∈ f.memory.deleted) ∧ ∀ x v, t.get x = some v → v.variant ≠ some c
  have hkept : ∀ s w t, I s → True → Frame.step s w = some t → I t := by
    intro s w t ⟨hcontent, hdeleted, hpoints⟩ _ hstep
    obtain ⟨-, hcell, hpointer⟩ := Frame.step_local hstep
    obtain ⟨hcontent', hdeleted'⟩ := hcell c hpoints
    refine ⟨hcontent'.trans hcontent, hdeleted'.trans hdeleted, fun x v hx hv => ?_⟩
    obtain ⟨y, u, hy, hu⟩ := hpointer x v c hx hv
    exact hpoints y u hy hu
  exact Run.holds_of_kept (G := fun _ _ => True) hkept ⟨rfl, Iff.rfl, h⟩ (fun _ _ => trivial) f'
    (Run.final_mem_visited hrun)

/-- No store makes a cell. -/
theorem run_next {ws : List Writer} {f f' : Frame} (hrun : Run.final Frame.step f ws = some f') :
    f'.memory.next = f.memory.next :=
  Run.holds_of_kept (G := fun _ _ => True) (I := fun t => t.memory.next = f.memory.next)
    (fun _ _ _ hs _ hstep => (Frame.step_local hstep).1.trans hs) rfl (fun _ _ => trivial) f'
    (Run.final_mem_visited hrun)

/-- No store changes an input's object. -/
theorem run_inputs {ws : List Writer} {f f' : Frame} (hrun : Run.final Frame.step f ws = some f') :
    f'.inputs = f.inputs :=
  Run.holds_of_kept (G := fun _ _ => True) (I := fun t => t.inputs = f.inputs)
    (fun _ _ _ hs _ hstep => (Frame.step_inputs hstep).trans hs) rfl (fun _ _ => trivial) f'
    (Run.final_mem_visited hrun)

/-- What a callback leaves once all its Variants are destroyed. -/
structure Performed (m : Memory) (input k output n : Nat) (l : Ledger) (m' : Memory) : Prop where
  proper : m'.Proper
  delivered : ∀ j < n, Delivered l m' output j ↔ l.Intact j
  /-- Other cells are as they were. -/
  frame : ∀ c, m.Apart input k output n c → m'.content c = m.content c ∧ (c ∈ m'.deleted ↔ c ∈ m.deleted)
  grown : m.next ≤ m'.next

/-- A callback comes to its end exactly if there is a ledger for it. -/
theorem perform_cases (h : Handed m input k output n) (body : Body) :
    (body.ledger (handed m input k) (handed m output n) = none ∧
      body.perform (borrowed input k) (borrowed output n) m = none) ∨
    ∃ l f m₁ m', body.ledger (handed m input k) (handed m output n) = some l ∧
      body.perform (borrowed input k) (borrowed output n) m = some f ∧
      destroyAll f.outputs f.memory = some m₁ ∧ destroyAll (borrowed input k) m₁ = some m' ∧
      Performed m input k output n l m' := by
  obtain ⟨hnext, hdeleted, hcontent, -, -⟩ := holdAll_spec body.own m
  rcases Simulation.final_related (fun f l w hf => lockstep hf w) (opening_follows h body.own) body.writers with
    ⟨hf, hl⟩ | ⟨f, l, hf, hl, hfollows⟩
  · exact .inl ⟨hl, by simp [Body.perform, hf]⟩
  · obtain ⟨m₀, m₁, m', hm₀, hm₁, hm', hcontent', hnext', hdeleted'⟩ := hfollows.closed
    have hinputs : f.inputs = borrowed input k := run_inputs hf
    rw [hinputs] at hm'
    refine .inr ⟨l, f.withMemory m₀, m₁, m', hl, by simp [Body.perform, hf, hm₀], hm₁, hm', ?_, fun j hj => ?_,
      fun c hc => ?_, ?_⟩
    · intro a ha
      rw [hnext']
      rcases (hdeleted' _).mp ha with ⟨x, v, hx, hheld⟩ | ha
      · have hs := hx ▸ hfollows.objects x
        generalize l.holds x = o at hs
        cases hs with
        | moved => cases hheld
        | pointing _ c hv hexists =>
          cases hv.symm.trans (Variant.held_eq_some.mp hheld).2
          exact (Memory.exists?_iff.mp hexists).2 a rfl
      · exact hfollows.proper a ha
    · exact hfollows.delivered_iff hcontent' hdeleted' hj
    · have hpoints : ∀ x v, (Frame.mk (borrowed input k) (borrowed output n) (holdAll body.own m).1
          (holdAll body.own m).2).get x = some v → v.variant ≠ some c := by
        intro x v hx he
        obtain ⟨i, hi, _, rfl⟩ | ⟨j, hj, _, rfl⟩ | ⟨i, o, _, _, rfl⟩ := opened_cases body.own hx
        · exact hc.inputs i hi (Option.some.inj he).symm
        · exact hc.outputs j hj (Option.some.inj he).symm
        · have := hc.old _ (Option.some.inj he).symm
          omega
      obtain ⟨hsame, hkept, helse⟩ := run_apart hf hpoints
      refine ⟨(congrFun hcontent' c).trans (hsame.trans (hcontent c hc.old)), ?_⟩
      rw [hdeleted', hkept, hdeleted]
      exact or_iff_right fun ⟨x, v, hx, hheld⟩ => helse x v hx (Variant.held_eq_some.mp hheld).2
    · rw [hnext', run_next hf, hnext]
      exact Nat.le_add_right ..

end Callback

/-! ### Delivery -/

theorem internalMethodCallback_cases (grows : Nat → Bool) (s : FunctionCall) {input k output n : Nat} {m : Memory}
    (h : Handed m input k output n) :
    ((s (handed m input k)).1.ledger (handed m input k) (handed m output n) = none ∧
      internalMethodCallback grows (some s) input k output n m = none) ∨
    ∃ l m', (s (handed m input k)).1.ledger (handed m input k) (handed m output n) = some l ∧
      internalMethodCallback grows (some s) input k output n m =
        some (if (s (handed m input k)).2 then .good else .badMethodInvalid, m') ∧
      Performed m input k output n l m' := by
  rcases perform_cases h (s (handed m input k)).1 with ⟨hl, hf⟩ | ⟨l, f, m₁, m', hl, hf, hm₁, hm', hperformed⟩
  · refine .inl ⟨hl, ?_⟩
    simp only [internalMethodCallback, wrapAll_eq, List.nil_append, Option.bind_eq_bind, Option.bind_some,
      values_borrowed, hf, Option.bind_none]
  · refine .inr ⟨l, m', hl, ?_, hperformed⟩
    simp only [internalMethodCallback, wrapAll_eq, List.nil_append, Option.bind_eq_bind, Option.bind_some,
      values_borrowed, hf, hm₁, hm', Option.pure_def]

/-- A single cell to read into. -/
theorem handed_one {m : Memory} (hm : m.Proper) {value : Nat} (hlive : .foreign value ∉ m.deleted) :
    Handed m 0 0 value 1 where
  proper := hm
  inputs i hi := absurd hi (Nat.not_lt_zero i)
  outputs j hj := by
    obtain rfl : j = 0 := by omega
    exact hlive
  apart i hi := absurd hi (Nat.not_lt_zero i)

theorem internalRead_cases {σ : Type} (ds : DataSource σ) (code : σ) (nodeId : Ua.NodeId) {value : Nat} {m : Memory}
    (hm : m.Proper) (hlive : .foreign value ∉ m.deleted) :
    ((ds.read code (fromUaNodeId nodeId)).2.1.ledger [] [m.content (.foreign value)] = none ∧
      internalRead (some ds) code nodeId value m = none) ∨
    ∃ l m', (ds.read code (fromUaNodeId nodeId)).2.1.ledger [] [m.content (.foreign value)] = some l ∧
      internalRead (some ds) code nodeId value m =
        some (.good, (ds.read code (fromUaNodeId nodeId)).1, m') ∧
      Performed m 0 0 value 1 l m' := by
  rcases perform_cases (handed_one hm hlive) (ds.read code (fromUaNodeId nodeId)).2.1 with
    ⟨hl, hf⟩ | ⟨l, f, m₁, m', hl, hf, hm₁, hm', hperformed⟩
  · exact .inl ⟨hl, congrArg (Option.bind · _) hf⟩
  · cases hm'
    refine .inr ⟨l, m₁, hl, ?_, hperformed⟩
    have hread : (ds.read code (fromUaNodeId nodeId)).2.1.perform [] [Variant.wrap (.foreign value) false] m =
        some f := hf
    simp only [internalRead, hread, hm₁, Option.bind_eq_bind, Option.bind_some, Option.pure_def]

/-- On the outputs of a method and the value of a read alike: where the callback comes to an
end, a slot holds the last value stored, and is not deleted, exactly if no copy assignment
was made to the Variant that had it, and the last value written through by `operator()` is
that one. -/
theorem delivery_iff (m : Memory) :
    (∀ (grows : Nat → Bool) (s : FunctionCall) (input inputSize output outputSize : Nat),
      Handed m input inputSize output outputSize →
      let body := (s (handed m input inputSize)).1
      let ledger := body.ledger (handed m input inputSize) (handed m output outputSize)
      (ledger = none → internalMethodCallback grows (some s) input inputSize output outputSize m = none) ∧
      ∀ l, ledger = some l → ∃ m', internalMethodCallback grows (some s) input inputSize output outputSize m =
          some (if (s (handed m input inputSize)).2 then .good else .badMethodInvalid, m') ∧
        ∀ j < outputSize, Delivered l m' output j ↔ l.Intact j) ∧
    (∀ (σ : Type) (ds : DataSource σ) (code : σ) (nodeId : Ua.NodeId) (value : Nat),
      m.Proper → .foreign value ∉ m.deleted →
      let body := (ds.read code (fromUaNodeId nodeId)).2.1
      let ledger := body.ledger [] [m.content (.foreign value)]
      (ledger = none → internalRead (some ds) code nodeId value m = none) ∧
      ∀ l, ledger = some l → ∃ m', internalRead (some ds) code nodeId value m =
          some (.good, (ds.read code (fromUaNodeId nodeId)).1, m') ∧
        (Delivered l m' value 0 ↔ l.Intact 0)) := by
  refine ⟨fun grows s input k output n h => ?_, fun σ ds code nodeId value hm hlive => ?_⟩
  · rcases internalMethodCallback_cases grows s h with ⟨hl, hnone⟩ | ⟨l, m', hl, hreturns, hperformed⟩
    · exact ⟨fun _ => hnone, fun l' hl' => by cases hl.symm.trans hl'⟩
    · refine ⟨fun hl' => (by cases hl.symm.trans hl'), fun l' hl' => ?_⟩
      cases hl.symm.trans hl'
      exact ⟨m', hreturns, hperformed.delivered⟩
  · rcases internalRead_cases ds code nodeId hm hlive with ⟨hl, hnone⟩ | ⟨l, m', hl, hreturns, hperformed⟩
    · exact ⟨fun _ => hnone, fun l' hl' => by cases hl.symm.trans hl'⟩
    · refine ⟨fun hl' => (by cases hl.symm.trans hl'), fun l' hl' => ?_⟩
      cases hl.symm.trans hl'
      exact ⟨m', hreturns, hperformed.delivered 0 Nat.one_pos⟩

/-- Memory with empty `UA_Variant`s, before anything is allocated. -/
def Memory.blank : Memory := ⟨fun _ => .init, 0, []⟩

theorem Memory.blank_proper : Memory.blank.Proper := fun n hn => by cases hn

def one : Ua.Variant := .setScalarCopy (.int32 1) Scalar.int32.dataType

/-- `out[0](1)`. -/
def writesOne : FunctionCall := fun _ => (⟨[], [.call (.output 0) one]⟩, true)

/-- `var(1)` on every read; writes are refused. -/
def readsOne : DataSource Unit where
  key := []
  m_read _ _ := ((), ⟨[], [.call (.output 0) one]⟩, .good)
  m_write _ _ _ := ((), .badNoData)

theorem handed_blank (input k output n : Nat) (h : ∀ i < k, ∀ j < n, input + i ≠ output + j) :
    Handed .blank input k output n :=
  ⟨Memory.blank_proper, fun _ _ hn => (by cases hn), fun _ _ hn => (by cases hn), h⟩

theorem delivery_of_call :
    (∃ m', internalMethodCallback (· == 0) (some writesOne) 0 0 0 1 .blank = some (.good, m') ∧
      m'.content (.foreign 0) = one ∧ .foreign 0 ∉ m'.deleted) ∧
    (∃ m', internalRead (some readsOne) () ⟨1, .numeric 1⟩ 0 .blank = some (.good, (), m') ∧
      m'.content (.foreign 0) = one ∧ .foreign 0 ∉ m'.deleted) := by
  constructor
  · obtain ⟨m', hm', hdel⟩ := ((delivery_iff .blank).1 (· == 0) writesOne 0 0 0 1
      (handed_blank 0 0 0 1 fun i hi => absurd hi (Nat.not_lt_zero i))).2 _ rfl
    obtain ⟨hstored, hlive⟩ := (hdel 0 Nat.one_pos).mpr ⟨rfl, rfl⟩
    exact ⟨m', hm', (Option.some.inj hstored).symm, hlive⟩
  · obtain ⟨m', hm', hdel⟩ := ((delivery_iff .blank).2 Unit readsOne () ⟨1, .numeric 1⟩ 0 Memory.blank_proper
      (fun hn => by cases hn)).2 _ rfl
    obtain ⟨hstored, hlive⟩ := hdel.mpr ⟨rfl, rfl⟩
    exact ⟨m', hm', (Option.some.inj hstored).symm, hlive⟩

/-- `out[0](1); out[1](v); out[0] = std::move(out[1]); out[0](1);` writes 1 over `v`. -/
example : (Body.ledger ⟨[], [.call (.output 0) one, .call (.output 1) .init, .moveAssign (.output 0) (.output 1),
    .call (.output 0) one]⟩ [] [.init, .init]).map (fun l => (l.written 1, l.stored 1)) =
      some (one, some .init) := rfl

/-- `Variant v(1); out[0] = v;`. -/
def assignsOne : FunctionCall := fun _ => (⟨[(one, true)], [.copyAssign (.output 0) (.own 0)]⟩, true)

/-- A method that assigns its result returns good, and its output is deleted. -/
theorem assigned_output_not_delivered :
    ¬ ∀ (s : FunctionCall) (l : Ledger), (s []).1.ledger [] [.init] = some l →
      ∀ m', internalMethodCallback (· == 0) (some s) 0 0 0 1 .blank = some (.good, m') → Delivered l m' 0 0 := by
  intro h
  obtain ⟨m', hm', hdel⟩ := ((delivery_iff .blank).1 (· == 0) assignsOne 0 0 0 1
    (handed_blank 0 0 0 1 fun i hi => absurd hi (Nat.not_lt_zero i))).2 _ rfl
  exact absurd ((hdel 0 Nat.one_pos).mp (h assignsOne _ rfl m' hm')).1 (by decide)

end ModernOpc
