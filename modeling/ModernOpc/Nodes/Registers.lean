import ModernOpc.Client.Access
import ModernOpc.Library.Simulation
import ModernOpc.Nodes.Attributes
import ModernOpc.Server.Nodes
import Mathlib.Data.Option.Basic

/-! Variables with a value of their own.

`addVariable` makes a variable from an initial value, and from then on open62541 keeps the
value. Clients and wrappers write Variants made of values and read Variants back.

`variables_are_registers`: on any number of variables, each used at one type, whatever is
created, written and read, by clients and wrappers in any order, is what typed registers
would do, refusals included, and no cell of memory is left behind, exactly if no wrapper's
write is refused and no value that is stored is cut. -/
namespace ModernOpc.Variables
open Library

/-! ### The server's variables -/

/-- An id that `fromNodeId` converts. -/
structure Name where
  id : NodeId
  ua : Ua.NodeId
  names : fromNodeId id = some ua

/-- What user code sees of a call. -/
inductive Outcome where
  /-- `addVariable`: a wrapper, or a null pointer. -/
  | added (created : Bool)
  /-- A write from a client. -/
  | done
  | thrown (e : Client.OpcException)
  /-- The boolean of a wrapper, where there is no value to go with it. -/
  | returned (b : Bool)
  | value (t : CppType) (x : t.El)

/-- The variables by id, memory, and what user code has seen so far, latest first. -/
structure State where
  attributes : Ua.NodeId → Option VariableAttributes
  memory : Memory
  seen : List Outcome

def start : State := ⟨fun _ => none, .blank, []⟩

/-- A node asked for under `requested` can be added under `id`. -/
def Adds (requested id : Ua.NodeId) (present : Bool) : Prop :=
  present = false ∧ ¬ Server.AsksForId id ∧ (¬ Server.AsksForId requested → id = requested)

instance (requested id : Ua.NodeId) (present : Bool) : Decidable (Adds requested id present) :=
  inferInstanceAs (Decidable (_ ∧ _))

/-- A call, on a variable used at the type that goes with its id. The status that comes with
it is open62541's own, the checks of value and id aside. -/
inductive Op (type : Ua.NodeId → CppType) where
  /-- `addVariable`, and the id that open62541 adds it under. -/
  | addVariable (requestedId : Name) (assigned : Ua.NodeId) (initialValue : (type assigned).El) (a : Access Unit)
  /-- `client.write(id, Variant(y))`. -/
  | clientWrite (n : Name) (y : (type n.ua).El) (a : Access Unit)
  /-- `variable->write(Variant(y))`. -/
  | nodeWrite (n : Name) (y : (type n.ua).El) (a : Access Unit)
  /-- `client.read(id).get<T>()`. -/
  | clientRead (n : Name) (a : Access Unit)
  /-- `Variant var; if (variable->read(var)) var.get<T>();`. -/
  | nodeRead (n : Name) (a : Access Unit)

namespace State
variable (admits : VariableAttributes → Ua.Variant → Bool) (s : State)

/-- The access as open62541 lets it through: to a node that is there, with a value that its attributes
admit. -/
def checked (u : Ua.NodeId) (written : Option Ua.Variant) (a : Access Unit) : Access Unit :=
  {a with own :=
    match s.attributes u with
    | none => .badNodeIdUnknown
    | some attr => if written.all (admits attr) then a.own else .badTypeMismatch}

/-- A variable's node, in the memory given. -/
def node (u : Ua.NodeId) (m : Memory) : VariableState Unit :=
  ⟨.data ((s.attributes u).elim .init (·.value)), (), m⟩

/-- After an access to the variable. -/
def accessed (u : Ua.NodeId) (t : VariableState Unit) (m : Memory) (outcome : Outcome) : State where
  attributes :=
    match t.source with
    | .data v => Function.update s.attributes u ((s.attributes u).map fun attr => {attr with value := v})
    | .dataSource _ => s.attributes
  memory := m
  seen := outcome :: s.seen

/-- `ObjectNode::addVariable`, with `createVariable` in it. -/
def addVariable {t : CppType} (requestedId : Name) (assigned : Ua.NodeId) (initialValue : t.El) (a : Access Unit) :
    Option State := do
  let (attr, m) ← getVariableAttributes t initialValue s.memory
  if admits attr attr.value ∧ a.own = .good then
    guard (Adds requestedId.ua assigned (s.attributes assigned).isSome)
    return ⟨Function.update s.attributes assigned (some attr), m, .added true :: s.seen⟩
  else return {s with memory := m, seen := .added false :: s.seen}

def clientWrite {t : CppType} (n : Name) (y : t.El) (a : Access Unit) : Option State :=
  match Variant.ofValue (toUAVariant t y) s.memory with
  | (none, _) => none
  | (some var, m) => do
    let c ← m.deref var.variant
    let (thrown, t) ← Client.write n.id var (s.checked admits n.ua (m.content c) a) (s.node n.ua m)
    let m ← var.destroy t.memory
    return s.accessed n.ua t m (thrown.elim .done .thrown)

def nodeWrite {t : CppType} (n : Name) (y : t.El) (a : Access Unit) : Option State :=
  match Variant.ofValue (toUAVariant t y) s.memory with
  | (none, _) => none
  | (some var, m) => do
    let c ← m.deref var.variant
    let (returned, t) ← VariableNode.write ⟨n.id⟩ var (s.checked admits n.ua (m.content c) a) (s.node n.ua m)
    let m ← var.destroy t.memory
    return s.accessed n.ua t m (.returned returned)

def clientRead (t : CppType) (n : Name) (a : Access Unit) : Option State := do
  let (result, v) ← Client.read n.id (s.checked admits n.ua none a) (s.node n.ua s.memory)
  match result with
  | .error e => return s.accessed n.ua v v.memory (.thrown e)
  | .ok var =>
    let c ← v.memory.deref var.variant
    let x ← get t (v.memory.content c)
    let m ← var.destroy v.memory
    return s.accessed n.ua v m (.value t x)

def nodeRead (t : CppType) (n : Name) (a : Access Unit) : Option State := do
  let (var, m) := Variant.default s.memory
  let (returned, v) ← VariableNode.read ⟨n.id⟩ var (s.checked admits n.ua none a) (s.node n.ua m)
  if returned then
    let c ← v.memory.deref var.variant
    let x ← get t (v.memory.content c)
    let m ← var.destroy v.memory
    return s.accessed n.ua v m (.value t x)
  else
    let m ← var.destroy v.memory
    return s.accessed n.ua v m (.returned false)

end State

def step (admits : VariableAttributes → Ua.Variant → Bool) {type : Ua.NodeId → CppType} (s : State) :
    Op type → Option State
  | .addVariable requestedId assigned initialValue a => s.addVariable admits requestedId assigned initialValue a
  | .clientWrite n y a => s.clientWrite admits n y a
  | .nodeWrite n y a => s.nodeWrite admits n y a
  | .clientRead n a => s.clientRead admits (type n.ua) n a
  | .nodeRead n a => s.nodeRead admits (type n.ua) n a

/-! ### Registers -/

/-- A register for each id, of the type that goes with it, and what user code has seen. -/
structure Registers (type : Ua.NodeId → CppType) where
  value : (u : Ua.NodeId) → Option (type u).El
  seen : List Outcome

namespace Registers
variable {type : Ua.NodeId → CppType}

def start : Registers type := ⟨fun _ => none, []⟩

def set (r : Registers type) (u : Ua.NodeId) (x : (type u).El) : Registers type :=
  {r with value := Function.update r.value u (some x)}

def see (r : Registers type) (outcome : Outcome) : Registers type := {r with seen := outcome :: r.seen}

/-- There is a register, and nobody refuses. -/
def Takes (r : Registers type) (u : Ua.NodeId) (a : Access Unit) : Prop := (r.value u).isSome = true ∧ a.own = .good

instance (r : Registers type) (u : Ua.NodeId) (a : Access Unit) : Decidable (r.Takes u a) :=
  inferInstanceAs (Decidable (_ ∧ _))

def write (r : Registers type) (u : Ua.NodeId) (y : (type u).El) (a : Access Unit) : Registers type :=
  if r.Takes u a then r.set u y else r

/-- What a read finds. -/
def read (r : Registers type) (u : Ua.NodeId) (a : Access Unit) : Option (type u).El :=
  if a.own = .good then r.value u else none

def step (r : Registers type) : Op type → Option (Registers type)
  | .addVariable requestedId assigned initialValue a =>
    if a.own = .good then do
      guard (Adds requestedId.ua assigned (r.value assigned).isSome)
      return (r.set assigned initialValue).see (.added true)
    else some (r.see (.added false))
  | .clientWrite n y a =>
    some ((r.write n.ua y a).see
      (if r.Takes n.ua a then .done else .thrown ⟨"Error on writeValueAttribute"⟩))
  | .nodeWrite n y a => some ((r.write n.ua y a).see (.returned (decide (r.Takes n.ua a))))
  | .clientRead n a => some (r.see ((r.read n.ua a).elim (.thrown ⟨"Error on readValueAttribute"⟩) (.value _)))
  | .nodeRead n a => some (r.see ((r.read n.ua a).elim (.returned false) (.value _)))

/-- No wrapper writes where there is no variable or open62541 refuses, and a value that is
stored is one that can be had back. -/
def Kept (r : Registers type) : Op type → Prop
  | .addVariable _ assigned initialValue a => a.own = .good → (type assigned).Faithful initialValue
  | .clientWrite n y a => r.Takes n.ua a → (type n.ua).Faithful y
  | .nodeWrite n y a => r.Takes n.ua a ∧ (type n.ua).Faithful y
  | .clientRead _ _ | .nodeRead _ _ => True

end Registers

/-! ### Accesses -/

section Accesses
variable (n : Name) (a : Access Unit) (v : Ua.Variant)

theorem writeValue_data (m : Memory) (nodeId : Ua.NodeId) (c : Cell) :
    writeValue ⟨.data v, (), m⟩ nodeId c a =
      some (a.own, ⟨.data (if a.own = .good then m.content c else v), (), m⟩) := by
  unfold writeValue
  by_cases h : a.own = .good <;> simp [h]

theorem readValue_data (m : Memory) (nodeId : Ua.NodeId) (c : Cell) :
    readValue ⟨.data v, (), m⟩ nodeId c a =
      some (a.own, ⟨.data v, (), if a.own = .good then m.store c v else m⟩) := by
  unfold readValue
  by_cases h : a.own = .good <;> simp [h]

theorem client_write_data {var : Variant} {m : Memory} {c : Cell} (hc : m.deref var.variant = some c) :
    Client.write n.id var a ⟨.data v, (), m⟩ =
      some (if a.own = .good then none else some ⟨"Error on writeValueAttribute"⟩,
        ⟨.data (if a.own = .good then m.content c else v), (), m⟩) := by
  simp only [Client.write, hc, n.names, writeValue_data, Option.bind_eq_bind, Option.bind_some]
  by_cases h : a.own = .good <;> simp [h]

theorem node_write_data {var : Variant} {m : Memory} {c : Cell} (hc : m.deref var.variant = some c) :
    VariableNode.write ⟨n.id⟩ var a ⟨.data v, (), m⟩ =
      some (true, ⟨.data (if a.own = .good then m.content c else v), (), m⟩) := by
  simp only [VariableNode.write, hc, n.names, writeValue_data, Option.bind_eq_bind, Option.bind_some,
    Option.pure_def]

/-- A client's read returns a Variant that holds the value, or throws and has deleted it. -/
theorem client_read_data {m : Memory} (hm : Clean m) :
    (a.own = .good → ∃ var m', Client.read n.id a ⟨.data v, (), m⟩ = some (.ok var, ⟨.data v, (), m'⟩) ∧
      m'.deref var.variant = some (.allocated m.next) ∧ m'.content (.allocated m.next) = v ∧
      ∃ m'', var.destroy m' = some m'' ∧ Clean m'') ∧
    (a.own ≠ .good → ∃ m', Client.read n.id a ⟨.data v, (), m⟩ =
      some (.error ⟨"Error on readValueAttribute"⟩, ⟨.data v, (), m'⟩) ∧ Clean m') := by
  constructor
  · intro h
    refine ⟨⟨some (.allocated m.next), true⟩, m.new.2.store (.allocated m.next) v, ?_, ?_, Function.update_self ..,
      _, rfl, hm.temporary rfl rfl⟩
    · simp [Client.read, Memory.new, n.names, readValue_data, h, Variant.wrap]
    · refine Memory.deref_eq_some.mpr ⟨rfl, Memory.exists?_iff.mpr ⟨hm.proper.next_not_deleted, fun k he => ?_⟩⟩
      cases he
      exact Nat.lt_succ_self _
  · intro h
    refine ⟨m.new.2.delete (.allocated m.next), ?_, hm.temporary rfl rfl⟩
    simp [Client.read, Memory.new, n.names, readValue_data, h, Variant.wrap, Variant.destroy]

theorem node_read_of_deref {var : Variant} {m : Memory} {c : Cell} (hc : m.deref var.variant = some c) :
    VariableNode.read ⟨n.id⟩ var a ⟨.data v, (), m⟩ = some (decide (a.own = .good),
      ⟨.data v, (), if a.own = .good then (m.store c .init).store c v else m.store c .init⟩) := by
  simp only [VariableNode.read, hc, n.names, readValue_data, Option.bind_eq_bind, Option.bind_some]
  by_cases h : a.own = .good <;> simp [h]

/-- A wrapper's read, into an empty Variant. -/
theorem node_read_data {m : Memory} (hm : Clean m) :
    ∃ m', VariableNode.read ⟨n.id⟩ (Variant.default m).1 a ⟨.data v, (), (Variant.default m).2⟩ =
        some (decide (a.own = .good), ⟨.data v, (), m'⟩) ∧
      m'.deref (Variant.default m).1.variant = some (.allocated m.next) ∧
      (a.own = .good → m'.content (.allocated m.next) = v) ∧
      ∃ m'', (Variant.default m).1.destroy m' = some m'' ∧ Clean m'' := by
  have hderef : (Variant.default m).2.deref (Variant.default m).1.variant = some (.allocated m.next) := by
    refine Memory.deref_eq_some.mpr ⟨rfl, Memory.exists?_iff.mpr ⟨hm.proper.next_not_deleted, fun k he => ?_⟩⟩
    cases he
    exact Nat.lt_succ_self _
  refine ⟨_, node_read_of_deref n a v hderef, ?_⟩
  by_cases h : a.own = .good
  · rw [if_pos h]
    exact ⟨hderef, fun _ => Function.update_self .., _, rfl, hm.temporary rfl rfl⟩
  · rw [if_neg h]
    exact ⟨hderef, fun hg => absurd hg h, _, rfl, hm.temporary rfl rfl⟩

end Accesses

/-! ### Variables stand for registers -/

theorem badNodeIdUnknown_ne_good : Ua.StatusCode.badNodeIdUnknown ≠ .good := by decide

/-- A variable is there exactly if its register has a value, declares its type and length, and is
decoded to that value. -/
def Holds (t : CppType) (n : Nat) : Option VariableAttributes → Option t.El → Prop
  | none, none => True
  | some attr, some x => Declares t n attr ∧ get t attr.value = some x
  | _, _ => False

section Registers
variable {type : Ua.NodeId → CppType} {size : Ua.NodeId → Nat}
  {admits : VariableAttributes → Ua.Variant → Bool}

/-- The server's variables and the registers. -/
structure Stands (size : Ua.NodeId → Nat) (s : State) (r : Registers type) : Prop where
  seen : s.seen = r.seen
  holds : ∀ u, Holds (type u) (size u) (s.attributes u) (r.value u)
  clean : Clean s.memory

/-- The values of an operation can be encoded, and a vector is as long as those of its variable are, or
that was made from an empty one. -/
def Fits (size : Ua.NodeId → Nat) : Op type → Prop
  | .addVariable _ assigned x _ =>
    (∃ v, toUAVariant (type assigned) x = some v) ∧ length (type assigned) x = size assigned
  | .clientWrite n y _ | .nodeWrite n y _ =>
    (∃ v, toUAVariant (type n.ua) y = some v) ∧ (size n.ua = 0 ∨ length (type n.ua) y = size n.ua)
  | .clientRead _ _ | .nodeRead _ _ => True

theorem clean_blank : Clean .blank where
  proper := by intro n hn; cases hn
  deleted := by intro n hn; cases hn

theorem stands_start : Stands size start (.start : Registers type) := ⟨rfl, fun _ => trivial, clean_blank⟩

/-- open62541 lets an access through exactly if there is a register and nothing else refuses. -/
theorem checked_good_iff {s : State} {r : Registers type} (h : Stands size s r) (n : Name)
    (written : Option Ua.Variant) (a : Access Unit)
    (hw : ∀ attr, Declares (type n.ua) (size n.ua) attr → written.all (admits attr) = true) :
    (s.checked admits n.ua written a).own = .good ↔ r.Takes n.ua a := by
  have hholds := h.holds n.ua
  unfold State.checked Registers.Takes
  cases hs : s.attributes n.ua with
  | none =>
    cases hr : r.value n.ua with
    | none => exact ⟨fun he => absurd he badNodeIdUnknown_ne_good, fun he => absurd he.1 Bool.false_ne_true⟩
    | some x =>
      rw [hs, hr] at hholds
      exact hholds.elim
  | some attr =>
    cases hr : r.value n.ua with
    | none =>
      rw [hs, hr] at hholds
      exact hholds.elim
    | some x =>
      rw [hs, hr] at hholds
      simp [hw attr hholds.1]

/-- An access to one variable that leaves its register in step. -/
theorem Stands.accessed {s : State} {r r' : Registers type} (h : Stands size s r) (u : Ua.NodeId) (v : Ua.Variant)
    (m' : Memory) {m : Memory} {outcome : Outcome}
    (hholds : Holds (type u) (size u) ((s.attributes u).map fun attr => {attr with value := v}) (r'.value u))
    (hother : ∀ w, w ≠ u → r'.value w = r.value w) (hseen : r'.seen = outcome :: r.seen) (hm : Clean m) :
    Stands size (s.accessed u ⟨.data v, (), m'⟩ m outcome) r' where
  seen := by rw [hseen, ← h.seen]; rfl
  holds := by
    intro w
    show Holds (type w) (size w)
      (Function.update s.attributes u ((s.attributes u).map fun attr => {attr with value := v}) w) (r'.value w)
    by_cases hw : w = u
    · subst hw
      rw [Function.update_self]
      exact hholds
    · rw [Function.update_of_ne hw, hother w hw]
      exact h.holds w
  clean := hm

/-- What the node holds of a variable is what it holds. -/
theorem holds_same {t : CppType} {n : Nat} {o : Option VariableAttributes} {x : Option t.El} (h : Holds t n o x) :
    Holds t n (o.map fun attr => {attr with value := o.elim .init (·.value)}) x := by
  cases o with
  | none => exact h
  | some attr => exact h

/-- A variable that declares what it should holds what was encoded exactly if that is not cut. -/
theorem holds_encoded_iff {t : CppType} {n : Nat} {attr : VariableAttributes} (h : Declares t n attr) {y : t.El}
    (hv : toUAVariant t y = some attr.value) : Holds t n (some attr) (some y) ↔ t.Faithful y := by
  rw [← CppType.received_eq_iff hv]
  show Declares t n attr ∧ get t attr.value = some y ↔ _
  rw [CppType.get_toUAVariant hv, Option.some.injEq]
  exact and_iff_right h

/-- So does one that is written to. -/
theorem holds_write_iff {t : CppType} {n : Nat} {o : Option VariableAttributes} {x : Option t.El} (h : Holds t n o x)
    {y : t.El} {v : Ua.Variant} (hv : toUAVariant t y = some v) (hx : x.isSome = true) :
    Holds t n (o.map fun attr => {attr with value := v}) (some y) ↔ t.Faithful y := by
  cases x with
  | none => cases hx
  | some x =>
    cases o with
    | none => exact h.elim
    | some attr =>
      have hdeclares : Declares t n {attr with value := v} := h.1
      exact holds_encoded_iff hdeclares hv

/-- A write stays in step with its register, if a value that is stored is not cut; the outcome is what is seen
of it. -/
theorem stands_write_iff {s : State} {r : Registers type} (h : Stands size s r)
    (hadmits : ∀ attr v, Conforms attr v → admits attr v = true) (hsize : ∀ u, size u < 2 ^ 32) (n : Name)
    {y : (type n.ua).El} {v : Ua.Variant} (hv : toUAVariant (type n.ua) y = some v)
    (hlen : size n.ua = 0 ∨ length (type n.ua) y = size n.ua) (a : Access Unit) (m' : Memory) {m : Memory}
    (hm : Clean m) (outcome : Outcome) :
    Stands size (s.accessed n.ua ⟨.data (if (s.checked admits n.ua (some v) a).own = .good then v
      else (s.attributes n.ua).elim .init (·.value)), (), m'⟩ m outcome) ((r.write n.ua y a).see outcome) ↔
      (r.Takes n.ua a → (type n.ua).Faithful y) := by
  have hgood := checked_good_iff h n (some v) a fun attr hd =>
    hadmits attr v (conforms_of_declares hd hv (hsize n.ua) hlen)
  by_cases hok : r.Takes n.ua a
  · have hwrite : r.write n.ua y a = r.set n.ua y := if_pos hok
    have hvalue : (r.set n.ua y).value n.ua = some y := Function.update_self ..
    have hholds := holds_write_iff (h.holds n.ua) hv hok.1
    rw [if_pos (hgood.mpr hok), hwrite, imp_iff_right hok, ← hholds]
    constructor
    · intro hr
      have hnow : Holds (type n.ua) (size n.ua)
          (Function.update s.attributes n.ua ((s.attributes n.ua).map fun attr => {attr with value := v}) n.ua)
          ((r.set n.ua y).value n.ua) := hr.holds n.ua
      rwa [Function.update_self, hvalue] at hnow
    · intro hnow
      exact h.accessed n.ua v m' (hvalue ▸ hnow) (fun w hw => Function.update_of_ne hw ..) rfl hm
  · have hwrite : r.write n.ua y a = r := if_neg hok
    rw [if_neg fun hg => hok (hgood.mp hg), hwrite]
    refine iff_of_true ?_ fun htakes => absurd htakes hok
    exact h.accessed n.ua _ m' (holds_same (h.holds n.ua)) (fun _ _ => rfl) rfl hm

/-- A read leaves everything as it is. -/
theorem stands_read {s : State} {r : Registers type} (h : Stands size s r) (n : Name) (m' : Memory) {m : Memory}
    (hm : Clean m) (outcome : Outcome) :
    Stands size (s.accessed n.ua (s.node n.ua m') m outcome) (r.see outcome) :=
  h.accessed n.ua _ m' (holds_same (h.holds n.ua)) (fun _ _ => rfl) rfl hm

variable (admits) in
/-- What a read finds is what the register holds. -/
theorem read_value {s : State} {r : Registers type} (h : Stands size s r) (n : Name) (a : Access Unit) :
    ((s.checked admits n.ua none a).own = .good → ∃ x, r.read n.ua a = some x ∧
      get (type n.ua) ((s.attributes n.ua).elim .init (·.value)) = some x) ∧
    ((s.checked admits n.ua none a).own ≠ .good → r.read n.ua a = none) := by
  have hgood : (s.checked admits n.ua none a).own = .good ↔ r.Takes n.ua a :=
    checked_good_iff h n none a fun _ _ => rfl
  have hholds := h.holds n.ua
  constructor
  · intro hg
    obtain ⟨hx, hown⟩ := hgood.mp hg
    obtain ⟨x, hx⟩ := Option.isSome_iff_exists.mp hx
    refine ⟨x, (if_pos hown).trans hx, ?_⟩
    rw [hx] at hholds
    cases hs : s.attributes n.ua with
    | none =>
      rw [hs] at hholds
      exact hholds.elim
    | some attr =>
      rw [hs] at hholds
      exact hholds.2
  · intro hg
    by_cases hown : a.own = .good
    · refine (if_pos hown).trans (Option.not_isSome_iff_eq_none.mp fun hx => hg (hgood.mpr ⟨?_, hown⟩))
      exact hx
    · exact if_neg hown

abbrev Step (size : Ua.NodeId → Nat) (admits : VariableAttributes → Ua.Variant → Bool) (s : State)
    (r : Registers type) (op : Op type) : Prop :=
  Simulation.Lockstep (Stands size) Registers.Kept (step admits) Registers.step s r op

theorem lockstep_clientWrite {s : State} {r : Registers type} (h : Stands size s r)
    (hadmits : ∀ attr v, Conforms attr v → admits attr v = true) (hsize : ∀ u, size u < 2 ^ 32) {n : Name}
    {y : (type n.ua).El} {a : Access Unit} (hfits : Fits size (.clientWrite n y a)) :
    Step size admits s r (.clientWrite n y a) := by
  obtain ⟨⟨v, hv⟩, hlen⟩ := hfits
  obtain ⟨var, m, hmade, hderef, hcontent, m', hdestroy, hm'⟩ := ofValue_temporary h.clean v
  have hgood := checked_good_iff h n (some v) a fun attr hd =>
    hadmits attr v (conforms_of_declares hd hv (hsize n.ua) hlen)
  refine .performed _ _ ?_ rfl (stands_write_iff h hadmits hsize n hv hlen a m hm' _)
  show s.clientWrite admits n y a = _
  unfold State.clientWrite
  rw [hv, hmade]
  simp only [hderef, hcontent, State.node, client_write_data n _ _ hderef, hdestroy, Option.bind_eq_bind,
    Option.bind_some, Option.pure_def]
  refine congrArg (fun o => some (s.accessed n.ua _ m' o)) ?_
  by_cases hok : r.Takes n.ua a
  · rw [if_pos hok, if_pos (hgood.mpr hok)]
    rfl
  · rw [if_neg hok, if_neg fun hg => hok (hgood.mp hg)]
    rfl

/-- The wrapper's write returns true, whatever has become of it. -/
theorem lockstep_nodeWrite {s : State} {r : Registers type} (h : Stands size s r)
    (hadmits : ∀ attr v, Conforms attr v → admits attr v = true) (hsize : ∀ u, size u < 2 ^ 32) {n : Name}
    {y : (type n.ua).El} {a : Access Unit} (hfits : Fits size (.nodeWrite n y a)) :
    Step size admits s r (.nodeWrite n y a) := by
  obtain ⟨⟨v, hv⟩, hlen⟩ := hfits
  obtain ⟨var, m, hmade, hderef, hcontent, m', hdestroy, hm'⟩ := ofValue_temporary h.clean v
  have hstands := stands_write_iff h hadmits hsize n hv hlen a m hm' (.returned true)
  refine .performed
    (s.accessed n.ua ⟨.data (if (s.checked admits n.ua (some v) a).own = .good then v
      else (s.attributes n.ua).elim .init (·.value)), (), m⟩ m' (.returned true))
    ((r.write n.ua y a).see (.returned (decide (r.Takes n.ua a)))) ?_ rfl ⟨fun hr => ?_, fun hkept => ?_⟩
  · show s.nodeWrite admits n y a = _
    unfold State.nodeWrite
    rw [hv, hmade]
    simp only [hderef, hcontent, State.node, node_write_data n _ _ hderef, hdestroy, Option.bind_eq_bind,
      Option.bind_some, Option.pure_def]
  · have htakes : r.Takes n.ua a := of_decide_eq_true (Outcome.returned.inj (List.cons.inj hr.seen).1).symm
    rw [decide_eq_true htakes] at hr
    exact ⟨htakes, hstands.mp hr htakes⟩
  · have hkept : r.Takes n.ua a ∧ (type n.ua).Faithful y := hkept
    rw [decide_eq_true hkept.1]
    exact hstands.mpr fun _ => hkept.2

theorem lockstep_clientRead {s : State} {r : Registers type} (h : Stands size s r) (n : Name) (a : Access Unit) :
    Step size admits s r (.clientRead n a) := by
  obtain ⟨hread, hrefused⟩ := client_read_data n (s.checked admits n.ua none a)
    ((s.attributes n.ua).elim .init (·.value)) h.clean
  obtain ⟨hvalue, hnone⟩ := read_value admits h n a
  by_cases hg : (s.checked admits n.ua none a).own = .good
  · obtain ⟨var, m, hcall, hderef, hcontent, m', hdestroy, hm'⟩ := hread hg
    obtain ⟨x, hx, hget⟩ := hvalue hg
    refine .performed _ _ ?_ rfl (iff_true_intro (stands_read h n m hm' _))
    show s.clientRead admits (type n.ua) n a = _
    unfold State.clientRead
    simp only [State.node, hcall, hderef, hcontent, hget, hdestroy, hx, Option.bind_eq_bind, Option.bind_some,
      Option.pure_def, Option.elim_some]
  · obtain ⟨m, hcall, hm⟩ := hrefused hg
    refine .performed _ _ ?_ rfl (iff_true_intro (stands_read h n m hm _))
    show s.clientRead admits (type n.ua) n a = _
    unfold State.clientRead
    simp only [State.node, hcall, hnone hg, Option.bind_eq_bind, Option.bind_some, Option.pure_def, Option.elim_none]

theorem lockstep_nodeRead {s : State} {r : Registers type} (h : Stands size s r) (n : Name) (a : Access Unit) :
    Step size admits s r (.nodeRead n a) := by
  obtain ⟨m, hcall, hderef, hcontent, m', hdestroy, hm'⟩ := node_read_data n (s.checked admits n.ua none a)
    ((s.attributes n.ua).elim .init (·.value)) h.clean
  obtain ⟨hvalue, hnone⟩ := read_value admits h n a
  refine .performed _ _ ?_ rfl (iff_true_intro (stands_read h n m hm' _))
  show s.nodeRead admits (type n.ua) n a = _
  unfold State.nodeRead
  by_cases hg : (s.checked admits n.ua none a).own = .good
  · obtain ⟨x, hx, hget⟩ := hvalue hg
    simp only [State.node, hcall, hg, hderef, hcontent hg, hget, hdestroy, hx, Option.bind_eq_bind, Option.bind_some,
      Option.pure_def, Option.elim_some, decide_true, if_true]
  · simp only [State.node, hcall, hg, hnone hg, hdestroy, Option.bind_eq_bind, Option.bind_some, Option.pure_def,
      Option.elim_none, decide_false, Bool.false_eq_true, if_false]

theorem Stands.present {s : State} {r : Registers type} (h : Stands size s r) (u : Ua.NodeId) :
    (s.attributes u).isSome = (r.value u).isSome := by
  have hholds := h.holds u
  cases hs : s.attributes u <;> cases hr : r.value u <;> rw [hs, hr] at hholds <;>
    first | rfl | exact hholds.elim

/-- A variable more. -/
theorem stands_added_iff {s : State} {r : Registers type} (h : Stands size s r) {u : Ua.NodeId} {x : (type u).El}
    {attr : VariableAttributes} {m : Memory} (hm : Clean m) :
    Stands size ⟨Function.update s.attributes u (some attr), m, .added true :: s.seen⟩
      ((r.set u x).see (.added true)) ↔ Holds (type u) (size u) (some attr) (some x) := by
  constructor
  · intro hr
    have hnow : Holds _ _ (Function.update s.attributes u (some attr) u) (Function.update r.value u (some x) u) :=
      hr.holds u
    rwa [Function.update_self, Function.update_self] at hnow
  · intro hnow
    refine ⟨congrArg (_ :: ·) h.seen, fun w => ?_, hm⟩
    show Holds _ _ (Function.update s.attributes u (some attr) w) (Function.update r.value u (some x) w)
    by_cases hw : w = u
    · subst hw
      rwa [Function.update_self, Function.update_self]
    · rw [Function.update_of_ne hw, Function.update_of_ne hw]
      exact h.holds w

theorem lockstep_addVariable {s : State} {r : Registers type} (h : Stands size s r)
    (hadmits : ∀ attr v, Conforms attr v → admits attr v = true) (hsize : ∀ u, size u < 2 ^ 32) {n : Name}
    {assigned : Ua.NodeId} {x : (type assigned).El} {a : Access Unit}
    (hfits : Fits size (.addVariable n assigned x a)) :
    Step size admits s r (.addVariable n assigned x a) := by
  obtain ⟨⟨v, hv⟩, hlen⟩ := hfits
  obtain ⟨attr, m, hattr, hdeclares, hvalue, hm⟩ := getVariableAttributes_eq h.clean hv
  have hadmitted : admits attr attr.value = true := by
    rw [hvalue]
    exact hadmits attr v (conforms_of_declares hdeclares hv (hlen ▸ hsize assigned) (.inr rfl))
  have hconcrete : step admits s (.addVariable n assigned x a) =
      if a.own = .good then do
        guard (Adds n.ua assigned (r.value assigned).isSome)
        return ⟨Function.update s.attributes assigned (some attr), m, .added true :: s.seen⟩
      else some {s with memory := m, seen := .added false :: s.seen} := by
    show s.addVariable admits n assigned x a = _
    unfold State.addVariable
    simp only [hattr, hadmitted, h.present, Option.bind_eq_bind, Option.bind_some, true_and, Option.pure_def]
  by_cases hown : a.own = .good
  · rw [if_pos hown] at hconcrete
    by_cases hadds : Adds n.ua assigned (r.value assigned).isSome
    · have hkept : Registers.Kept r (.addVariable n assigned x a) ↔ (type assigned).Faithful x :=
        imp_iff_right hown
      refine .performed ⟨Function.update s.attributes assigned (some attr), m, .added true :: s.seen⟩
        ((r.set assigned x).see (.added true)) ?_ ?_ ?_
      · rw [hconcrete]
        simp [hadds]
      · simp [Registers.step, hown, hadds]
      · rw [stands_added_iff h hm, hkept, holds_encoded_iff (hlen ▸ hdeclares) (hvalue ▸ hv)]
    · refine .refused ?_ ?_
      · rw [hconcrete, guard, if_neg hadds]
        rfl
      · simp only [Registers.step, if_pos hown, guard, if_neg hadds]
        rfl
  · rw [if_neg hown] at hconcrete
    refine .performed _ _ hconcrete (if_neg hown) (iff_of_true ⟨congrArg (_ :: ·) h.seen, h.holds, hm⟩ ?_)
    exact fun hgood => absurd hgood hown

end Registers

/-- Whatever variables are created, written and read, each at the type that goes with its id and with
vectors as long as that variable's, the run is that of typed registers exactly if no write of a wrapper is
refused and no value that is stored is cut: user code sees the same, every variable holds its register's value,
and every cell allocated on the way is deleted. What open62541 must do for it is admit the values that conform to
a variable's attributes. -/
theorem variables_are_registers (type : Ua.NodeId → CppType) (size : Ua.NodeId → Nat) (hsize : ∀ u, size u < 2 ^ 32)
    (admits : VariableAttributes → Ua.Variant → Bool) (hadmits : ∀ attr v, Conforms attr v → admits attr v = true)
    (ops : List (Op type)) (hops : ∀ op ∈ ops, Fits size op) :
    Simulation.Related (Stands size) (step admits) Registers.step start .start ops ↔
      ∀ e ∈ Run.edges Registers.step .start ops, Registers.Kept e.1 e.2 := by
  refine Simulation.related_iff_guarded (fun s r op h hfits => ?_) stands_start hops
  cases op with
  | addVariable n assigned x a => exact lockstep_addVariable h hadmits hsize hfits
  | clientWrite n y a => exact lockstep_clientWrite h hadmits hsize hfits
  | nodeWrite n y a => exact lockstep_nodeWrite h hadmits hsize hfits
  | clientRead n a => exact lockstep_clientRead h n a
  | nodeRead n a => exact lockstep_nodeRead h n a

def seven : Name := ⟨.ofInt 1 7, ⟨1, .numeric 7⟩, rfl⟩

/-- A variable made from 1, set to 2 by a client, and read through its wrapper. -/
def sevenOps : List (Op fun _ => .scalar .int32) :=
  [.addVariable seven ⟨1, .numeric 7⟩ (1 : Int32) ⟨.good, readsOne, 0⟩,
    .clientWrite seven (2 : Int32) ⟨.good, readsOne, 0⟩, .nodeRead seven ⟨.good, readsOne, 0⟩]

theorem seven_is_register :
    Simulation.Related (Stands fun _ => 0) (step fun attr v => decide (Conforms attr v)) Registers.step start .start
      sevenOps ∧
    (Library.Run.final Registers.step (.start : Registers fun _ => .scalar .int32) sevenOps).map (·.seen) =
      some [.value (.scalar .int32) (2 : Int32), .done, .added true] := by
  have hfits : ∀ op ∈ sevenOps, Fits (fun _ => 0) op := by
    intro op hop
    simp only [sevenOps, List.mem_cons, List.not_mem_nil, or_false] at hop
    rcases hop with rfl | rfl | rfl
    · exact ⟨⟨_, rfl⟩, rfl⟩
    · exact ⟨⟨_, rfl⟩, .inl rfl⟩
    · trivial
  refine ⟨(variables_are_registers (fun _ => .scalar .int32) (fun _ => 0) (fun _ => by decide)
    (fun attr v => decide (Conforms attr v)) (fun _ _ h => decide_eq_true h) sevenOps hfits).mpr fun e he => ?_, rfl⟩
  have hop := Run.edge_mem he
  obtain ⟨r, op⟩ := e
  simp only [sevenOps, List.mem_cons, List.not_mem_nil, or_false] at hop
  rcases hop with rfl | rfl | rfl
  · exact fun _ => trivial
  · exact fun _ => trivial
  · trivial

end ModernOpc.Variables
