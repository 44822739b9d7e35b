import Mathlib.Data.List.Basic

/-! Heterogeneous tuples and the loop over their components.

`forEach` visits the components in order, may replace each, carries a state along
and may fail. Two of its uses have rules of their own: `forEach_read` for a loop
that fills the tuple from a list with a running index, and `forEach_write` for one
that stores the tuple into a list with a running index. -/
namespace ModernOpc.Library

/-- A tuple whose component types are listed in `ts`, under the reading `El` of type codes. -/
inductive Tuple {τ : Type} (El : τ → Type) : List τ → Type where
  | nil : Tuple El []
  | cons {t : τ} {ts : List τ} (x : El t) (xs : Tuple El ts) : Tuple El (t :: ts)

namespace Tuple
variable {τ σ β : Type} {El : τ → Type}

/-- The loop over the components. -/
def forEach (f : (t : τ) → El t → σ → Option (El t × σ)) :
    {ts : List τ} → Tuple El ts → σ → Option (Tuple El ts × σ)
  | [], .nil, s => some (.nil, s)
  | t :: _, .cons x xs, s => do
    let (y, s) ← f t x s
    let (ys, s) ← forEach f xs s
    return (.cons y ys, s)

def map (f : (t : τ) → El t → El t) : {ts : List τ} → Tuple El ts → Tuple El ts
  | [], .nil => .nil
  | t :: _, .cons x xs => .cons (f t x) (map f xs)

/-- The components' images, if all of them have one. -/
def traverse (f : (t : τ) → El t → Option β) : {ts : List τ} → Tuple El ts → Option (List β)
  | [], .nil => some []
  | t :: _, .cons x xs => do
    let b ← f t x
    let bs ← traverse f xs
    return b :: bs

/-- The tuple of the components that `d` gives, if it gives all of them. -/
def fill (d : (t : τ) → Option (El t)) : (ts : List τ) → Option (Tuple El ts)
  | [] => some .nil
  | t :: ts => do
    let x ← d t
    let xs ← fill d ts
    return .cons x xs

theorem fill_isSome (d : (t : τ) → Option (El t)) (ts : List τ) :
    (fill d ts).isSome = ts.all fun t => (d t).isSome := by
  induction ts with
  | nil => rfl
  | cons t ts ih =>
    rw [List.all_cons, ← ih, fill]
    cases d t <;> cases fill d ts <;> rfl

/-- The components as a list of tagged values. -/
def components : {ts : List τ} → Tuple El ts → List (Sigma El)
  | [], .nil => []
  | t :: _, .cons x xs => ⟨t, x⟩ :: components xs

/-- A property of every component. -/
def All (P : (t : τ) → El t → Prop) : {ts : List τ} → Tuple El ts → Prop
  | [], .nil => True
  | t :: _, .cons x xs => P t x ∧ All P xs

theorem all_iff_components {P : (t : τ) → El t → Prop} {ts : List τ} (xs : Tuple El ts) :
    xs.All P ↔ ∀ c ∈ xs.components, P c.1 c.2 := by
  induction xs with
  | nil => simp [All, components]
  | cons x xs ih => simp [All, components, ih]

theorem mem_of_mem_components {ts : List τ} {xs : Tuple El ts} {c : Sigma El}
    (h : c ∈ xs.components) : c.1 ∈ ts := by
  induction xs with
  | nil => cases h
  | cons x xs ih =>
    rcases List.mem_cons.mp h with rfl | h
    · exact List.mem_cons_self ..
    · exact List.mem_cons_of_mem _ (ih h)

theorem map_eq_self {f : (t : τ) → El t → El t} {ts : List τ} (xs : Tuple El ts) :
    xs.map f = xs ↔ xs.All fun t x => f t x = x := by
  induction xs with
  | nil => simp [map, All]
  | cons x xs ih => simp [map, All, ih]

theorem all_of_traverse {f : (t : τ) → El t → Option β} {ts : List τ} {xs : Tuple El ts}
    {bs : List β} (h : xs.traverse f = some bs) : xs.All fun t x => ∃ b, f t x = some b := by
  induction xs generalizing bs with
  | nil => trivial
  | cons x xs ih =>
    simp only [traverse, Option.bind_eq_bind, Option.bind_eq_some_iff] at h
    obtain ⟨b, hb, bs', hbs, _⟩ := h
    exact ⟨⟨b, hb⟩, ih hbs⟩

theorem traverse_of_all {f : (t : τ) → El t → Option β} {ts : List τ} {xs : Tuple El ts}
    (h : xs.All fun t x => ∃ b, f t x = some b) : ∃ bs, xs.traverse f = some bs := by
  induction xs with
  | nil => exact ⟨[], rfl⟩
  | cons x xs ih =>
    obtain ⟨b, hb⟩ := h.1
    obtain ⟨bs, hbs⟩ := ih h.2
    exact ⟨b :: bs, by simp [traverse, hb, hbs]⟩

theorem traverse_length {f : (t : τ) → El t → Option β} {ts : List τ} {xs : Tuple El ts}
    {bs : List β} (h : xs.traverse f = some bs) : bs.length = ts.length := by
  induction xs generalizing bs with
  | nil =>
    cases h
    rfl
  | cons x xs ih =>
    simp only [traverse, Option.bind_eq_bind, Option.bind_eq_some_iff, Option.pure_def,
      Option.some.injEq] at h
    obtain ⟨b, _, bs', hbs, rfl⟩ := h
    simp [ih hbs]

/-- Each component's image stands at the component's place. -/
theorem traverse_getElem {f : (t : τ) → El t → Option β} {ts : List τ} {xs : Tuple El ts}
    {bs : List β} (h : xs.traverse f = some bs) :
    ∀ (j : Nat) (c : Sigma El), xs.components[j]? = some c →
      ∃ b, bs[j]? = some b ∧ f c.1 c.2 = some b := by
  induction xs generalizing bs with
  | nil => intro j c hc; simp [components] at hc
  | cons x xs ih =>
    simp only [traverse, Option.bind_eq_bind, Option.bind_eq_some_iff, Option.pure_def,
      Option.some.injEq] at h
    obtain ⟨b, hb, bs', hbs, rfl⟩ := h
    intro j c hc
    cases j with
    | zero =>
      simp only [components, List.getElem?_cons_zero, Option.some.injEq] at hc
      subst hc
      exact ⟨b, rfl, hb⟩
    | succ j => exact ih hbs j c (by simpa [components] using hc)

/-! ### Loops with a running index -/

/-- Decode the tuple from a list, one element for each component. -/
def ofList (g : (t : τ) → β → Option (El t)) : (ts : List τ) → List β → Option (Tuple El ts)
  | [], _ => some .nil
  | _ :: _, [] => none
  | t :: ts, b :: bs => do
    let x ← g t b
    let xs ← ofList g ts bs
    return .cons x xs

/-- A list whose elements can all be decoded where they stand decodes to a tuple. -/
theorem ofList_complete {g : (t : τ) → β → Option (El t)} {P : (t : τ) → β → El t → Prop}
    {ts : List τ} {bs : List β} (hlen : ts.length ≤ bs.length)
    (h : ∀ (i : Nat) t b, ts[i]? = some t → bs[i]? = some b → ∃ x, g t b = some x ∧ P t b x) :
    ∃ xs, ofList g ts bs = some xs ∧
      ∀ (j : Nat) (c : Sigma El), xs.components[j]? = some c → ∃ b, bs[j]? = some b ∧ P c.1 b c.2 := by
  induction ts generalizing bs with
  | nil => exact ⟨.nil, rfl, fun j c hc => by simp [components] at hc⟩
  | cons t ts ih =>
    cases bs with
    | nil => cases hlen
    | cons b bs =>
      obtain ⟨x, hx, hP⟩ := h 0 t b rfl rfl
      obtain ⟨xs, hxs, hPs⟩ := ih (Nat.le_of_succ_le_succ hlen) fun i => h (i + 1)
      refine ⟨.cons x xs, by simp [ofList, hx, hxs], fun j c hc => ?_⟩
      cases j with
      | zero =>
        simp only [components, List.getElem?_cons_zero, Option.some.injEq] at hc
        subst hc
        exact ⟨b, rfl, hP⟩
      | succ j => exact hPs j c (by simpa [components] using hc)

/-- The body of a loop that reads `bs[i]` into the component and counts up. -/
def readBody (g : (t : τ) → β → Option (El t)) (bs : List β) (t : τ) (_ : El t) (i : Nat) :
    Option (El t × Nat) := do
  let b ← bs[i]?
  let x ← g t b
  return (x, i + 1)

/-- The read loop is the decoding of the list from the starting index on. -/
theorem forEach_read (g : (t : τ) → β → Option (El t)) (bs : List β) {ts : List τ}
    (xs : Tuple El ts) (i : Nat) :
    xs.forEach (readBody g bs) i = (ofList g ts (bs.drop i)).map (·, i + ts.length) := by
  induction xs generalizing i with
  | nil => simp [forEach, ofList]
  | @cons t ts x xs ih =>
    cases hd : bs.drop i with
    | nil =>
      have hi : bs[i]? = none := by
        rw [← List.head?_drop, hd]
        rfl
      simp [forEach, readBody, hi, ofList]
    | cons b rest =>
      have hi : bs[i]? = some b := by
        rw [← List.head?_drop, hd]
        rfl
      have hrest : bs.drop (i + 1) = rest := by rw [← List.tail_drop, hd, List.tail_cons]
      cases hg : g t b with
      | none => simp [forEach, readBody, hi, hg, ofList]
      | some y =>
        have hbody : readBody g bs t x i = some (y, i + 1) := by simp [readBody, hi, hg]
        rw [forEach, hbody, ofList, hg]
        simp only [Option.bind_eq_bind, Option.bind_some, ih, hrest]
        cases ofList g ts rest with
        | none => rfl
        | some ys =>
          have : i + 1 + ts.length = i + (t :: ts).length := by
            rw [List.length_cons]
            omega
          simp [this]

/-- Decoding what was encoded, plus anything after it. -/
theorem ofList_traverse {e : (t : τ) → El t → Option β} {g : (t : τ) → β → Option (El t)}
    {r : (t : τ) → El t → El t} (h : ∀ t x b, e t x = some b → g t b = some (r t x))
    {ts : List τ} {xs : Tuple El ts} {bs : List β} (hb : xs.traverse e = some bs) (rest : List β) :
    ofList g ts (bs ++ rest) = some (xs.map r) := by
  induction xs generalizing bs with
  | nil => rfl
  | cons x xs ih =>
    simp only [traverse, Option.bind_eq_bind, Option.bind_eq_some_iff, Option.pure_def,
      Option.some.injEq] at hb
    obtain ⟨b, hx, bs', hbs, rfl⟩ := hb
    simp [ofList, map, h _ x b hx, ih hbs]

/-- `bs` with the elements from place `i` on replaced by `vs`. -/
def overwrite (bs : List β) (i : Nat) (vs : List β) : List β :=
  bs.take i ++ vs ++ bs.drop (i + vs.length)

@[simp] theorem overwrite_nil (bs : List β) (i : Nat) : overwrite bs i [] = bs := by
  simp [overwrite]

theorem overwrite_set (bs : List β) (i : Nat) (b : β) (vs : List β) (hi : i < bs.length) :
    overwrite (bs.set i b) (i + 1) vs = overwrite bs i (b :: vs) := by
  have hdrop : (bs.set i b).drop (i + 1 + vs.length) = bs.drop (i + (b :: vs).length) := by
    rw [List.drop_set_of_lt (by omega), List.length_cons]
    congr 1
    omega
  have htake : (bs.set i b).take (i + 1) = bs.take i ++ [b] := by
    rw [List.take_add_one, List.take_set_of_le (Nat.le_refl i)]
    simp [hi]
  simp [overwrite, hdrop, htake]

theorem overwrite_getElem?_inside (bs : List β) (vs : List β) {j : Nat} (hj : j < vs.length) :
    (overwrite bs 0 vs)[j]? = vs[j]? := by
  simp [overwrite, List.getElem?_append_left hj]

theorem overwrite_getElem?_outside (bs : List β) (vs : List β) {j : Nat} (hj : vs.length ≤ j) :
    (overwrite bs 0 vs)[j]? = bs[j]? := by
  simp only [overwrite, List.take_zero, List.nil_append, Nat.zero_add]
  rw [List.getElem?_append_right hj, List.getElem?_drop]
  congr 1
  omega

/-- As many values as places replace them all. -/
theorem overwrite_all {bs vs : List β} (h : bs.length = vs.length) : overwrite bs 0 vs = vs := by
  simp [overwrite, ← h]

/-- The body of a loop that stores the component into place `i`, which must exist, and
counts up. -/
def writeBody (e : (t : τ) → El t → Option β) (t : τ) (x : El t) (p : List β × Nat) :
    Option (El t × (List β × Nat)) := do
  let _ ← p.1[p.2]?
  let b ← e t x
  return (x, (p.1.set p.2 b, p.2 + 1))

/-- The write loop overwrites as many places as the tuple has components. -/
theorem forEach_write (e : (t : τ) → El t → Option β) {ts : List τ} (xs : Tuple El ts)
    (bs : List β) (i : Nat) (h : i + ts.length ≤ bs.length) :
    xs.forEach (writeBody e) (bs, i) =
      (xs.traverse e).map fun vs => (xs, (overwrite bs i vs, i + ts.length)) := by
  induction xs generalizing bs i with
  | nil => simp [forEach, traverse]
  | @cons t ts x xs ih =>
    have hlen : i + (ts.length + 1) ≤ bs.length := h
    have hi : i < bs.length := by omega
    cases he : e t x with
    | none => simp [forEach, writeBody, hi, he, traverse]
    | some b =>
      have hbody : writeBody e t x (bs, i) = some (x, (bs.set i b, i + 1)) := by
        simp [writeBody, hi, he]
      have hset : i + 1 + ts.length ≤ (bs.set i b).length := by
        rw [List.length_set]
        omega
      rw [forEach, hbody, traverse, he]
      simp only [Option.bind_eq_bind, Option.bind_some, ih (bs.set i b) (i + 1) hset]
      cases xs.traverse e with
      | none => rfl
      | some vs =>
        have : i + 1 + ts.length = i + (t :: ts).length := by
          rw [List.length_cons]
          omega
        simp [this, overwrite_set bs i b vs hi]

end Tuple

end ModernOpc.Library
