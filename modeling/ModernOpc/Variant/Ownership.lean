import ModernOpc.Library.Custody
import ModernOpc.Library.Run
import ModernOpc.Variant.Memory
import Mathlib.Data.Option.Basic

/-! Who deletes a `UA_Variant`.

Any number of Variants live beside each other and share cells (`State`). The flag
`owned` should mean that the Variant is the only one to delete the cell it points to
(`Sound`). Every operation keeps the custody of cells in order but one: a copy
assignment to a Variant that does not own its cell copies into that cell and claims
it (`copyAssign_grabs`).

`ownership_iff`: a run keeps every state sound exactly if no copy assignment in it has
such a target, and no construction from a value throws halfway. -/
namespace ModernOpc.Ownership
open Library Library.Custody

/-- The live Variants by name. `taken` lists the cells from outside wrapped as owned. -/
structure State where
  memory : Memory
  objects : Nat → Option Variant
  taken : List Nat

/-- Memory as it is handed over, and no Variant. -/
def start (content : Cell → Ua.Variant) : State := ⟨⟨content, 0, []⟩, fun _ => none, []⟩

inductive Op where
  | default (x : Nat)
  | ofValue (x : Nat) (encoding : Option Ua.Variant)
  | wrap (x : Nat) (var : Cell) (owner : Bool)
  | copyCtor (x y : Nat)
  | moveCtor (x y : Nat)
  | copyAssign (x y : Nat)
  | moveAssign (x y : Nat)
  | call (x : Nat) (encoding : Option Ua.Variant)
  | destroy (x : Nat)

def State.set (s : State) (x : Nat) (o : Option Variant) : State :=
  {s with objects := Function.update s.objects x o}

def State.withMemory (s : State) (m : Memory) : State := {s with memory := m}

/-- A Variant is wrapped around an existing cell, and around one as its owner only if the
cell comes from outside and was not wrapped so before. -/
def State.wrappable (s : State) (var : Cell) (owner : Bool) : Bool :=
  s.memory.exists? var &&
    (!owner || match var with
      | .foreign n => !s.taken.contains n
      | .allocated _ => false)

/-- The cells from outside handed over for good by this wrapping. -/
def taking (var : Cell) (owner : Bool) : List Nat :=
  match var with
  | .foreign n => if owner then [n] else []
  | .allocated _ => []

/-- One operation. Constructors need an unused name, the others live objects. -/
def step (s : State) : Op → Option State
  | .default x => do
    guard (s.objects x).isNone
    let (v, m) := Variant.default s.memory
    return (s.withMemory m).set x v
  | .ofValue x encoding => do
    guard (s.objects x).isNone
    let (v, m) := Variant.ofValue encoding s.memory
    return (s.withMemory m).set x v
  | .wrap x var owner => do
    guard (s.objects x).isNone
    guard (s.wrappable var owner)
    return {s with taken := taking var owner ++ s.taken}.set x (some (Variant.wrap var owner))
  | .copyCtor x y => do
    guard (s.objects x).isNone
    let other ← s.objects y
    let (v, m) ← other.copy s.memory
    return (s.withMemory m).set x v
  | .moveCtor x y => do
    guard (s.objects x).isNone
    let other ← s.objects y
    let (v, rest) := other.move
    return (s.set x v).set y rest
  | .copyAssign x y => do
    let self ← s.objects x
    let other ← s.objects y
    let (v, m) ← self.copyAssign other s.memory
    return (s.withMemory m).set x v
  | .moveAssign x y => do
    let self ← s.objects x
    let other ← s.objects y
    let ((v, rest), m) ← self.moveAssign other s.memory
    return ((s.withMemory m).set x v).set y rest
  | .call x encoding => do
    let self ← s.objects x
    let m ← self.call encoding s.memory
    return s.withMemory m
  | .destroy x => do
    let self ← s.objects x
    let m ← self.destroy s.memory
    return (s.withMemory m).set x none

/-! ### The invariant -/

def State.Owns (s : State) (x : Nat) (c : Cell) : Prop :=
  ∃ v, s.objects x = some v ∧ v.owned = true ∧ v.variant = some c

structure State.Sound (s : State) : Prop where
  /-- No cell has two owners. -/
  unique : ∀ x y c, s.Owns x c → s.Owns y c → x = y
  /-- A cell only ever wrapped as borrowed has no owner. -/
  borrowed : ∀ n, n ∉ s.taken → ∀ x, ¬ s.Owns x (.foreign n)
  /-- A cell of the class has exactly one owner, or was deleted exactly once. -/
  allocated : ∀ n, n < s.memory.next →
    ((∃ x, s.Owns x (.allocated n) ∧ ∀ y, s.Owns y (.allocated n) → y = x) ∧
      .allocated n ∉ s.memory.deleted) ∨
    ((∀ x, ¬ s.Owns x (.allocated n)) ∧ s.memory.deleted.count (.allocated n) = 1)
  /-- No cell was deleted twice, and no borrowed one at all. -/
  spared : s.memory.deleted.Nodup ∧ ∀ n, .foreign n ∈ s.memory.deleted → n ∈ s.taken

/-! ### Custody of the cells -/

/-- The cells the class has to see to: its own, and those handed over. -/
def State.Entrusted (s : State) : Cell → Prop
  | .foreign n => n ∈ s.taken
  | .allocated n => n < s.memory.next

def State.custody (s : State) : Book Nat Cell where
  holds := (·.bind Variant.held) ∘ s.objects
  entrusted := s.Entrusted
  released := s.memory.deleted

theorem owns_iff {s : State} {x : Nat} {c : Cell} : s.Owns x c ↔ s.custody.holds x = some c := by
  simp [State.Owns, State.custody, Variant.held_eq_some, Option.bind_eq_some_iff]

theorem holds_of {s : State} {x : Nat} {v : Variant} (h : s.objects x = some v) :
    s.custody.holds x = v.held := by
  simp [State.custody, h]

theorem holds_fresh {s : State} {x : Nat} (h : s.objects x = none) : s.custody.holds x = none := by
  simp [State.custody, h]

theorem not_entrusted_next (s : State) : ¬ s.Entrusted (.allocated s.memory.next) := Nat.lt_irrefl _

theorem holds_set (s : State) (x : Nat) (o : Option Variant) :
    (s.set x o).custody.holds = Function.update s.custody.holds x (o.bind Variant.held) :=
  Function.comp_update (fun o : Option Variant => o.bind Variant.held) s.objects x o

/-- One more cell is allocated. -/
theorem entrusted_new {s t : State} (hn : t.memory.next = s.memory.next + 1) (ht : t.taken = s.taken) :
    t.Entrusted = fun c => s.Entrusted c ∨ c = .allocated s.memory.next := by
  funext c
  cases c with
  | foreign n => simp [State.Entrusted, ht]
  | allocated n =>
    simp only [State.Entrusted, hn, Cell.allocated.injEq, eq_iff_iff]
    omega

theorem sound_of_custody {s : State} (h : s.custody.Sound) : s.Sound where
  unique x y c hx hy := h.unique x y c (owns_iff.mp hx) (owns_iff.mp hy)
  borrowed n hn x hx := hn (h.held x _ (owns_iff.mp hx))
  allocated n hn := by
    by_cases ho : ∃ x, s.Owns x (.allocated n)
    · obtain ⟨x, hx⟩ := ho
      refine .inl ⟨⟨x, hx, fun y hy => ?_⟩, h.live x _ (owns_iff.mp hx)⟩
      exact h.unique y x _ (owns_iff.mp hy) (owns_iff.mp hx)
    · have hnone : ∀ x, ¬ s.Owns x (.allocated n) := fun x hx => ho ⟨x, hx⟩
      refine .inr ⟨hnone, ?_⟩
      rcases h.settled (.allocated n) hn with ⟨x, hx⟩ | hr
      · exact absurd (owns_iff.mpr hx) (hnone x)
      · exact List.count_eq_one_of_mem h.once hr
  spared := ⟨h.once, fun _ hn => h.accounted _ hn⟩

theorem custody_start (content : Cell → Ua.Variant) : (start content).custody.Sound := by
  refine Book.Sound.empty fun c => ?_
  cases c with
  | foreign n => exact List.not_mem_nil
  | allocated n => exact Nat.not_lt_zero n

/-! ### One step -/

/-- An object is made around the next cell. -/
theorem custody_new {s : State} {x : Nat} {m : Memory} (hn : m.next = s.memory.next + 1)
    (hd : m.deleted = s.memory.deleted) :
    ((s.withMemory m).set x (some ⟨some (.allocated s.memory.next), true⟩)).custody =
      s.custody.acquire x (.allocated s.memory.next) := by
  refine Book.ext (holds_set _ x _) ?_ hd
  exact entrusted_new hn rfl

/-- An object changes, but not what it would delete. -/
theorem custody_kept {s : State} {x : Nat} {m : Memory} {o : Option Variant}
    (hn : m.next = s.memory.next) (hd : m.deleted = s.memory.deleted)
    (ho : o.bind Variant.held = s.custody.holds x) : ((s.withMemory m).set x o).custody = s.custody := by
  refine Book.ext ?_ ?_ hd
  · rw [holds_set, ho]
    exact Function.update_eq_self ..
  · funext c
    cases c with
    | foreign n => rfl
    | allocated n => exact congrArg (n < ·) hn

/-- The destructor and the beginning of the move assignment: whatever stands under the
name afterwards has nothing to delete. -/
theorem custody_destroy {s : State} {x : Nat} {v : Variant} {m : Memory} (hx : s.objects x = some v)
    (h : v.destroy s.memory = some m) {o : Option Variant} (ho : o.bind Variant.held = none) :
    ((s.withMemory m).set x o).custody = s.custody.release x := by
  have hholds : ((s.withMemory m).set x o).custody.holds = (s.custody.release x).holds := by
    rw [holds_set, ho]
    rfl
  obtain rfl := Variant.destroy_eq_some h
  refine Book.ext hholds (funext fun k => by cases k <;> rfl) ?_
  show v.held.toList ++ s.memory.deleted = (s.custody.holds x).toList ++ s.memory.deleted
  rw [holds_of hx]

/-- Pointer and flag go to one name, null and false to the other. -/
theorem custody_move (s : State) {x y : Nat} {other : Variant} (hy : s.custody.holds y = other.held) :
    ((s.set x (some other.move.1)).set y (some other.move.2)).custody = s.custody.transfer x y := by
  refine Book.ext ?_ rfl rfl
  rw [holds_set, holds_set]
  show Function.update (Function.update s.custody.holds x other.held) y none = _
  rw [← hy]
  rfl

/-- What an operation must respect: no construction throws halfway, and a copy
assignment only has targets that own their cell. -/
def Respects (s : State) : Op → Prop
  | .ofValue _ encoding => encoding ≠ none
  | .copyAssign x _ => ∀ v, s.objects x = some v → v.owned = true
  | _ => True

/-- A constructor's name is unused. -/
theorem unused {x : Nat} {s t : State} {f : Option State}
    (h : (do guard (s.objects x).isNone; f : Option State) = some t) : s.objects x = none ∧ f = some t := by
  obtain ⟨_, hx, hf⟩ := Option.bind_eq_some_iff.mp h
  exact ⟨Option.isNone_iff_eq_none.mp ((Option.guard_eq_some' _).mp hx), hf⟩

/-- A copy has a cell of its own. -/
theorem copy_eq_some {other v : Variant} {m m' : Memory} (h : other.copy m = some (v, m')) :
    v = ⟨some (.allocated m.next), true⟩ ∧ m'.next = m.next + 1 ∧ m'.deleted = m.deleted := by
  obtain ⟨_, _, h⟩ := Option.bind_eq_some_iff.mp h
  cases h
  exact ⟨rfl, rfl, rfl⟩

/-- A copy assignment claims the cell it copies into, whoever it belongs to. -/
theorem copyAssign_eq_some {self other v : Variant} {m m' : Memory}
    (h : self.copyAssign other m = some (v, m')) :
    v = {self with owned := true} ∧ m'.next = m.next ∧ m'.deleted = m.deleted ∧
      ∃ c, self.variant = some c ∧ m.exists? c = true := by
  obtain ⟨c, hc, h⟩ := Option.bind_eq_some_iff.mp h
  obtain ⟨_, _, h⟩ := Option.bind_eq_some_iff.mp h
  cases h
  refine ⟨rfl, ?_, ?_, c, Memory.deref_eq_some.mp hc⟩
  · show (if self.owned then m.store c .init else m).next = m.next
    split <;> rfl
  · show (if self.owned then m.store c .init else m).deleted = m.deleted
    split <;> rfl

theorem call_eq_some {self : Variant} {encoding : Option Ua.Variant} {m m' : Memory}
    (h : self.call encoding m = some m') : m'.next = m.next ∧ m'.deleted = m.deleted := by
  obtain ⟨_, _, h⟩ := Option.bind_eq_some_iff.mp h
  cases encoding <;> cases h <;> exact ⟨rfl, rfl⟩

/-- Wrapping a cell hands it over, or changes nothing. -/
theorem wrap_orderly {s : State} {x : Nat} {var : Cell} {owner : Bool} (hx : s.objects x = none)
    (hw : s.wrappable var owner = true) :
    s.custody.Orderly
      ({s with taken := taking var owner ++ s.taken}.set x (some (Variant.wrap var owner))).custody := by
  have hfree := holds_fresh hx
  cases owner with
  | false =>
    have htaken : taking var false = [] := by cases var <;> rfl
    rw [htaken]
    have hc := custody_kept (s := s) (x := x) (m := s.memory) (o := some (Variant.wrap var false)) rfl rfl
      hfree.symm
    exact hc ▸ .refl _
  | true =>
    cases var with
    | allocated n => simp [State.wrappable] at hw
    | foreign n =>
      have hn : n ∉ s.taken := by
        simp only [State.wrappable, Bool.and_eq_true, Bool.not_true, Bool.false_or, Bool.not_eq_true',
          List.contains_eq_mem, decide_eq_false_iff_not] at hw
        exact hw.2
      have hc : ({s with taken := taking (.foreign n) true ++ s.taken}.set x
          (some (Variant.wrap (.foreign n) true))).custody = s.custody.acquire x (.foreign n) := by
        refine Book.ext (holds_set _ x _) (funext fun c => ?_) rfl
        cases c with
        | foreign k => simp [State.custody, State.Entrusted, State.set, taking, Book.acquire, or_comm]
        | allocated k => simp [State.custody, State.Entrusted, State.set, Book.acquire]
      exact hc ▸ .acquire _ hfree hn

/-- A move assignment releases what its target held, and then moves. -/
theorem moveAssign_orderly {s : State} {x y : Nat} {self other : Variant} {m : Memory}
    (hx : s.objects x = some self) (hy : s.objects y = some other) (hdestroy : self.destroy s.memory = some m) :
    s.custody.Orderly (((s.withMemory m).set x (some other.move.1)).set y (some other.move.2)).custody := by
  by_cases hxy : y = x
  · subst hxy
    have ht : ((s.withMemory m).set y (some other.move.1)).set y (some other.move.2) =
        (s.withMemory m).set y (some other.move.2) := by
      simp only [State.set, Function.update_idem]
    rw [ht, custody_destroy hx hdestroy (o := some other.move.2) rfl]
    exact .release _ y
  · -- the object in between, which holds nothing
    have hmid := custody_destroy hx hdestroy (o := none) rfl
    have ht : ((s.withMemory m).set x (some other.move.1)).set y (some other.move.2) =
        ((((s.withMemory m).set x none).set x (some other.move.1)).set y (some other.move.2)) := by
      simp only [State.set, Function.update_idem]
    have hy' : ((s.withMemory m).set x none).custody.holds y = other.held := by
      rw [hmid]
      exact (Function.update_of_ne hxy ..).trans (holds_of hy)
    rw [ht, custody_move _ hy', hmid]
    exact .replace _ x y

/-- What a copy assignment does to the state. -/
theorem step_copyAssign {s t : State} {x y : Nat} (h : step s (.copyAssign x y) = some t) :
    ∃ self c m, s.objects x = some self ∧ self.variant = some c ∧ s.memory.exists? c = true ∧
      m.next = s.memory.next ∧ m.deleted = s.memory.deleted ∧
      t = (s.withMemory m).set x (some {self with owned := true}) := by
  obtain ⟨self, hx, h⟩ := Option.bind_eq_some_iff.mp h
  obtain ⟨other, _, h⟩ := Option.bind_eq_some_iff.mp h
  obtain ⟨⟨v, m⟩, hassign, h⟩ := Option.bind_eq_some_iff.mp h
  obtain ⟨rfl, hn, hd, c, hc, hexists⟩ := copyAssign_eq_some hassign
  cases h
  exact ⟨self, c, m, hx, hc, hexists, hn, hd, rfl⟩

/-- What an operation does to the state. -/
inductive Stepped (s : State) : Op → State → Prop where
  /-- A constructor makes an object around a new cell. -/
  | made (op : Op) (x : Nat) (m : Memory) (hx : s.objects x = none) (hn : m.next = s.memory.next + 1)
    (hd : m.deleted = s.memory.deleted) :
    Stepped s op ((s.withMemory m).set x (some ⟨some (.allocated s.memory.next), true⟩))
  /-- A constructor throws and leaves its cell. -/
  | thrown (x : Nat) (hx : s.objects x = none) :
    Stepped s (.ofValue x none) ((s.withMemory s.memory.new.2).set x none)
  | wrapped (x : Nat) (var : Cell) (owner : Bool) (hx : s.objects x = none) (hw : s.wrappable var owner = true) :
    Stepped s (.wrap x var owner)
      ({s with taken := taking var owner ++ s.taken}.set x (some (Variant.wrap var owner)))
  | moveCtor (x y : Nat) (other : Variant) (hx : s.objects x = none) (hy : s.objects y = some other) :
    Stepped s (.moveCtor x y) ((s.set x (some other.move.1)).set y (some other.move.2))
  | copyAssign (x y : Nat) (self : Variant) (c : Cell) (m : Memory) (hx : s.objects x = some self)
    (hc : self.variant = some c) (hn : m.next = s.memory.next) (hd : m.deleted = s.memory.deleted) :
    Stepped s (.copyAssign x y) ((s.withMemory m).set x (some {self with owned := true}))
  | moveAssign (x y : Nat) (self other : Variant) (m : Memory) (hx : s.objects x = some self)
    (hy : s.objects y = some other) (hdestroy : self.destroy s.memory = some m) :
    Stepped s (.moveAssign x y) (((s.withMemory m).set x (some other.move.1)).set y (some other.move.2))
  | call (x : Nat) (encoding : Option Ua.Variant) (m : Memory) (hn : m.next = s.memory.next)
    (hd : m.deleted = s.memory.deleted) : Stepped s (.call x encoding) (s.withMemory m)
  | destroy (x : Nat) (self : Variant) (m : Memory) (hx : s.objects x = some self)
    (hdestroy : self.destroy s.memory = some m) : Stepped s (.destroy x) ((s.withMemory m).set x none)

theorem step_stepped {s t : State} {op : Op} (h : step s op = some t) : Stepped s op t := by
  cases op with
  | default x =>
    obtain ⟨hx, h⟩ := unused h
    cases h
    exact .made _ x s.memory.new.2 hx rfl rfl
  | ofValue x encoding =>
    obtain ⟨hx, h⟩ := unused h
    cases encoding with
    | none =>
      cases h
      exact .thrown x hx
    | some u =>
      cases h
      exact .made _ x (Variant.ofValue (some u) s.memory).2 hx rfl rfl
  | wrap x var owner =>
    obtain ⟨hx, h⟩ := unused h
    obtain ⟨_, hw, h⟩ := Option.bind_eq_some_iff.mp h
    cases h
    exact .wrapped x var owner hx ((Option.guard_eq_some' _).mp hw)
  | copyCtor x y =>
    obtain ⟨hx, h⟩ := unused h
    obtain ⟨other, _, h⟩ := Option.bind_eq_some_iff.mp h
    obtain ⟨⟨v, m⟩, hcopy, h⟩ := Option.bind_eq_some_iff.mp h
    obtain ⟨rfl, hn, hd⟩ := copy_eq_some hcopy
    cases h
    exact .made _ x m hx hn hd
  | moveCtor x y =>
    obtain ⟨hx, h⟩ := unused h
    obtain ⟨other, hy, h⟩ := Option.bind_eq_some_iff.mp h
    cases h
    exact .moveCtor x y other hx hy
  | copyAssign x y =>
    obtain ⟨self, c, m, hx, hc, _, hn, hd, rfl⟩ := step_copyAssign h
    exact .copyAssign x y self c m hx hc hn hd
  | moveAssign x y =>
    obtain ⟨self, hx, h⟩ := Option.bind_eq_some_iff.mp h
    obtain ⟨other, hy, h⟩ := Option.bind_eq_some_iff.mp h
    obtain ⟨_, hassign, h⟩ := Option.bind_eq_some_iff.mp h
    obtain ⟨m, hdestroy, hmove⟩ := Option.bind_eq_some_iff.mp hassign
    cases hmove
    cases h
    exact .moveAssign x y self other m hx hy hdestroy
  | call x encoding =>
    obtain ⟨_, _, h⟩ := Option.bind_eq_some_iff.mp h
    obtain ⟨m, hcall, h⟩ := Option.bind_eq_some_iff.mp h
    obtain ⟨hn, hd⟩ := call_eq_some hcall
    cases h
    exact .call x encoding m hn hd
  | destroy x =>
    obtain ⟨self, hx, h⟩ := Option.bind_eq_some_iff.mp h
    obtain ⟨m, hdestroy, h⟩ := Option.bind_eq_some_iff.mp h
    cases h
    exact .destroy x self m hx hdestroy

/-- Such an operation keeps custody in order. -/
theorem step_orderly {s t : State} {op : Op} (hg : Respects s op) (h : step s op = some t) :
    s.custody.Orderly t.custody := by
  cases step_stepped h with
  | made _ x m hx hn hd => exact custody_new hn hd ▸ .acquire _ (holds_fresh hx) (not_entrusted_next s)
  | thrown x hx => exact absurd rfl hg
  | wrapped x var owner hx hw => exact wrap_orderly hx hw
  | moveCtor x y other hx hy => exact custody_move s (x := x) (holds_of hy) ▸ .transfer _ (holds_fresh hx)
  | copyAssign x y self c m hx hc hn hd =>
    have howned : ({self with owned := true} : Variant) = self := by
      rw [← hg self hx]
    have hkept := custody_kept (x := x) (o := some {self with owned := true}) hn hd
      (by rw [howned, holds_of hx]; rfl)
    exact hkept ▸ .refl _
  | moveAssign x y self other m hx hy hdestroy => exact moveAssign_orderly hx hy hdestroy
  | call x encoding m hn hd =>
    have hkept : (s.withMemory m).custody = s.custody := by
      refine Book.ext rfl (funext fun c => ?_) hd
      cases c with
      | foreign n => rfl
      | allocated n => exact congrArg (n < ·) hn
    exact hkept ▸ .refl _
  | destroy x self m hx hdestroy => exact custody_destroy hx hdestroy (o := none) rfl ▸ .release _ x

/-- Where an object of the state after an operation comes from. -/
inductive Origin (s t : State) (op : Op) (z : Nat) (w : Variant) : Prop where
  /-- It was there before. -/
  | kept (h : s.objects z = some w)
  /-- It was made around a new cell. -/
  | made (hw : w = ⟨some (.allocated s.memory.next), true⟩) (hn : t.memory.next = s.memory.next + 1)
  /-- It wraps an existing cell. -/
  | wrapped (var : Cell) (owner : Bool) (hop : op = .wrap z var owner) (hw : w = Variant.wrap var owner)
    (hexists : s.memory.exists? var = true)
  /-- It has what was moved out of another one. -/
  | moved (y : Nat) (hop : op = .moveCtor z y ∨ op = .moveAssign z y) (h : s.objects y = some w)
  /-- It is what a move leaves. -/
  | left (hw : w = ⟨none, false⟩)
  /-- It was copy-assigned. -/
  | assigned (y : Nat) (v : Variant) (c : Cell) (hop : op = .copyAssign z y) (h : s.objects z = some v)
    (hv : v.variant = some c) (hw : w = {v with owned := true})

section
variable {s t : State} {op : Op}

/-- Where one object is set, only its new value has another origin. -/
theorem origin_set {x z : Nat} {m : Memory} {o : Option Variant} {w : Variant}
    (hz : ((s.withMemory m).set x o).objects z = some w) (hx : ∀ v, o = some v → Origin s t op x v) :
    Origin s t op z w := by
  rcases Book.holds_update hz with ⟨rfl, ho⟩ | ⟨_, hk⟩
  · exact hx w ho
  · exact .kept hk

theorem origin_move {x y z : Nat} {m : Memory} {other w : Variant} (hy : s.objects y = some other)
    (hop : op = .moveCtor x y ∨ op = .moveAssign x y)
    (hz : (((s.withMemory m).set x (some other.move.1)).set y (some other.move.2)).objects z = some w) :
    Origin s t op z w := by
  rcases Book.holds_update hz with ⟨_, ho⟩ | ⟨_, hk⟩
  · cases ho
    exact .left rfl
  · refine origin_set hk fun v hv => ?_
    cases hv
    exact .moved y hop hy

/-- What one operation can do to an object; cells are only ever added. -/
theorem step_origin (h : step s op = some t) :
    s.memory.next ≤ t.memory.next ∧ ∀ z w, t.objects z = some w → Origin s t op z w := by
  cases step_stepped h with
  | made _ x m hx hn hd =>
    refine ⟨hn ▸ Nat.le_succ _, fun z w hz => origin_set hz fun v hv => ?_⟩
    cases hv
    exact .made rfl hn
  | thrown x hx => exact ⟨Nat.le_succ _, fun z w hz => origin_set (m := s.memory.new.2) hz nofun⟩
  | wrapped x var owner hx hw =>
    refine ⟨Nat.le_refl _, fun z w hz => origin_set (m := s.memory) hz fun v hv => ?_⟩
    cases hv
    simp only [State.wrappable, Bool.and_eq_true] at hw
    exact .wrapped var owner rfl rfl hw.1
  | moveCtor x y other hx hy =>
    exact ⟨Nat.le_refl _, fun z w hz => origin_move (m := s.memory) hy (.inl rfl) hz⟩
  | copyAssign x y self c m hx hc hn hd =>
    refine ⟨Nat.le_of_eq hn.symm, fun z w hz => origin_set hz fun v hv => ?_⟩
    cases hv
    exact .assigned y self c rfl hx hc rfl
  | moveAssign x y self other m hx hy hdestroy =>
    refine ⟨?_, fun z w hz => origin_move hy (.inr rfl) hz⟩
    obtain rfl := Variant.destroy_eq_some hdestroy
    exact Nat.le_refl _
  | call x encoding m hn hd => exact ⟨Nat.le_of_eq hn.symm, fun z w hz => .kept hz⟩
  | destroy x self m hx hdestroy =>
    refine ⟨?_, fun z w hz => origin_set hz nofun⟩
    obtain rfl := Variant.destroy_eq_some hdestroy
    exact Nat.le_refl _

end

/-- A constructor that throws halfway leaves a cell that nobody owns or deletes. -/
theorem ofValue_unsound {s t : State} {x : Nat} (hi : s.custody.Sound) (h : step s (.ofValue x none) = some t) :
    ¬ t.Sound := by
  intro ht
  obtain ⟨hx, h⟩ := unused h
  cases h
  have hnext : ¬ s.custody.entrusted (.allocated s.memory.next) := not_entrusted_next s
  have hfree := hi.lose_unsettled hnext
  have hnone : ∀ y, ¬ (((s.withMemory s.memory.new.2).set x none).Owns y (.allocated s.memory.next)) := by
    intro y hy
    rw [owns_iff, holds_set] at hy
    rcases Book.holds_update hy with ⟨_, hy⟩ | ⟨_, hy⟩
    · cases hy
    · exact hfree.1 y hy
  rcases ht.allocated s.memory.next (Nat.lt_succ_self _) with ⟨⟨y, hy, _⟩, _⟩ | ⟨_, hcount⟩
  · exact hnone y hy
  · exact hfree.2 (List.count_pos_iff.mp (hcount ▸ Nat.one_pos))

/-- A copy assignment to a Variant that does not own its cell gives the cell a second owner, or
a foreign one its first. -/
theorem copyAssign_unsound {s t : State} {x y : Nat} (hi : s.custody.Sound)
    (hg : ¬ Respects s (.copyAssign x y)) (h : step s (.copyAssign x y) = some t) : ¬ t.Sound := by
  intro ht
  obtain ⟨self, c, m, hx, hc, hexists, hn, hd, rfl⟩ := step_copyAssign h
  have hborrowed : self.owned = false := by
    refine Bool.eq_false_iff.mpr fun howned => hg fun v hv => ?_
    rw [hx] at hv
    cases hv
    exact howned
  have hnone : s.custody.holds x = none := by rw [holds_of hx, Variant.held, hborrowed]; rfl
  have hgrab : ((s.withMemory m).set x (some {self with owned := true})).custody.holds =
      (s.custody.grab x c).holds := by
    rw [holds_set]
    show Function.update s.custody.holds x self.variant = _
    rw [hc]
    rfl
  have hxc : ((s.withMemory m).set x (some {self with owned := true})).Owns x c := by
    rw [owns_iff, hgrab]
    exact Function.update_self ..
  obtain ⟨hlive, hmade⟩ := Memory.exists?_iff.mp hexists
  by_cases hc' : s.Entrusted c
  · obtain ⟨p, hp, hpc⟩ := hi.grab_shared hnone hc' hlive
    exact hp (ht.unique p x c (owns_iff.mpr (hgrab ▸ hpc)) hxc)
  · cases c with
    | foreign n => exact ht.borrowed n hc' x hxc
    | allocated n => exact hc' (hmade n rfl)

/-- Any other operation breaks it at once. -/
theorem step_unsound {s t : State} {op : Op} (hi : s.custody.Sound) (hg : ¬ Respects s op)
    (h : step s op = some t) : ¬ t.Sound := by
  cases op with
  | ofValue x encoding =>
    cases encoding with
    | some v => exact absurd (Option.some_ne_none v) hg
    | none => exact ofValue_unsound hi h
  | copyAssign x y => exact copyAssign_unsound hi hg h
  | _ => exact absurd trivial hg

/-- Every state of a run is sound exactly if the run never copy-assigns to a Variant that
does not own its cell, and no construction from a value throws halfway. -/
theorem ownership_iff (content : Cell → Ua.Variant) (ops : List Op) :
    (∀ t ∈ Run.visited step (start content) ops, t.Sound) ↔
      ∀ e ∈ Run.edges step (start content) ops, Respects e.1 e.2 :=
  Run.holds_iff_guarded (I := fun s => s.custody.Sound) (P := State.Sound) (G := Respects)
    (fun _ => sound_of_custody) (fun _ _ _ hi hg h => hi.of_orderly (step_orderly hg h))
    (fun _ _ _ => step_unsound) (custody_start content) ops

/-- A Variant that borrows a cell is copy-assigned: it owns the cell now. -/
theorem copyAssign_claims_borrowed : ¬ ∀ (content : Cell → Ua.Variant) (ops : List Op),
    ∀ t ∈ Run.visited step (start content) ops, t.Sound := by
  intro h
  let ops : List Op := [.wrap 0 (.foreign 0) false, .default 1, .copyAssign 0 1]
  have hrun : ∃ t, Run.final step (start fun _ => .init) ops = some t ∧ t.taken = [] ∧
      t.objects 0 = some ⟨some (.foreign 0), true⟩ := ⟨_, rfl, rfl, rfl⟩
  obtain ⟨t, ht, htaken, hobj⟩ := hrun
  have hsound := h (fun _ => .init) ops t (Run.final_mem_visited ht)
  exact hsound.borrowed 0 (by simp [htaken]) 0 ⟨_, hobj, rfl, rfl⟩

end ModernOpc.Ownership
