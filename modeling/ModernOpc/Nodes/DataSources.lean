import ModernOpc.Nodes.Registers

/-! Variables behind data sources.

A client, and the wrapper of a variable too, reach a data source by way of the server: the
value read is stored through a Variant that borrows open62541's cell, and what the data
source returns is dropped by the callbacks.

`data_sources_reached_iff`: a run of reads and writes, with callbacks connected on the way,
is what it would be if the data sources were called directly, exactly if none of them
refuses an access that gets to it, the values read are stored through, and no write of a
wrapper fails. -/
namespace ModernOpc.DataSources
open Library Variables

/-! ### The variables -/

/-- What there is under an id: no variable, one with a value of its own, or one that has a data source or
null as its context. -/
inductive Source (ι : Type) where
  | unknown
  | data (value : Ua.Variant)
  | dataSource (ds : Option ι)

/-- What user code sees of an access. -/
inductive Outcome where
  | done
  | thrown (e : Client.OpcException)
  | returned (b : Bool)
  | value (v : Ua.Variant)

/-- An access, with open62541's own status for it and the cell it keeps the value in meanwhile. -/
inductive Op (ι : Type) where
  /-- `variable->connectCallback(ds)`. -/
  | connectCallback (n : Name) (ds : Option ι)
  | clientRead (n : Name) (own : Ua.StatusCode) (value : Nat)
  | clientWrite (n : Name) (v : Ua.Variant) (own : Ua.StatusCode) (value : Nat)
  /-- `Variant var; variable->read(var);`. -/
  | nodeRead (n : Name) (own : Ua.StatusCode) (value : Nat)
  | nodeWrite (n : Name) (v : Ua.Variant) (own : Ua.StatusCode) (value : Nat)

section Machines
variable {ι σ : Type} (callbacks : ι → DataSource σ)

/-- The data source that is asked for a value, or to take one. -/
def asked (source : Source ι) (own : Ua.StatusCode) : Option ι :=
  match source with
  | .dataSource ds => if own = .good then ds else none
  | _ => none

/-! ### Through the server -/

structure State (ι σ : Type) where
  source : Ua.NodeId → Source ι
  code : σ
  memory : Memory
  seen : List Outcome

namespace State
variable (s : State ι σ)

/-- The variable's node, in the memory given. -/
def node (u : Ua.NodeId) (m : Memory) : VariableState σ where
  source :=
    match s.source u with
    | .unknown => .data .init
    | .data v => .data v
    | .dataSource ds => .dataSource ds.isSome
  code := s.code
  memory := m

/-- A data source for an access that asks none. -/
def nobody : DataSource σ := ⟨[], fun code _ => (code, ⟨[], []⟩, .good), fun code _ _ => (code, .good)⟩

/-- The access, refused where there is no node. -/
def access (u : Ua.NodeId) (own : Ua.StatusCode) (value : Nat) : Access σ where
  own :=
    match s.source u with
    | .unknown => .badNodeIdUnknown
    | _ => own
  ds := (asked (s.source u) own).elim nobody callbacks
  value := value

/-- After an access. -/
def accessed (u : Ua.NodeId) (t : VariableState σ) (m : Memory) (outcome : Outcome) : State ι σ where
  source :=
    match s.source u, t.source with
    | .data _, .data v => Function.update s.source u (.data v)
    | _, _ => s.source
  code := t.code
  memory := m
  seen := outcome :: s.seen

/-- open62541 reads into an empty `UA_Variant`. -/
def reading (value : Nat) (m : Memory) : Memory := m.store (.foreign value) .init

def clientRead (n : Name) (own : Ua.StatusCode) (value : Nat) : Option (State ι σ) := do
  let (result, t) ← Client.read n.id (s.access callbacks n.ua own value) (s.node n.ua (reading value s.memory))
  match result with
  | .error e => return s.accessed n.ua t t.memory (.thrown e)
  | .ok var =>
    let c ← t.memory.deref var.variant
    let m ← var.destroy t.memory
    return s.accessed n.ua t m (.value (t.memory.content c))

def clientWrite (n : Name) (v : Ua.Variant) (own : Ua.StatusCode) (value : Nat) : Option (State ι σ) :=
  match Variant.ofValue (some v) s.memory with
  | (none, _) => none
  | (some var, m) => do
    let (thrown, t) ← Client.write n.id var (s.access callbacks n.ua own value) (s.node n.ua m)
    let m ← var.destroy t.memory
    return s.accessed n.ua t m (thrown.elim .done .thrown)

def nodeRead (n : Name) (own : Ua.StatusCode) (value : Nat) : Option (State ι σ) := do
  let (var, m) := Variant.default (reading value s.memory)
  let (returned, t) ← VariableNode.read ⟨n.id⟩ var (s.access callbacks n.ua own value) (s.node n.ua m)
  let c ← t.memory.deref var.variant
  let m ← var.destroy t.memory
  return s.accessed n.ua t m (if returned then .value (t.memory.content c) else .returned false)

def nodeWrite (n : Name) (v : Ua.Variant) (own : Ua.StatusCode) (value : Nat) : Option (State ι σ) :=
  match Variant.ofValue (some v) s.memory with
  | (none, _) => none
  | (some var, m) => do
    let (returned, t) ← VariableNode.write ⟨n.id⟩ var (s.access callbacks n.ua own value) (s.node n.ua m)
    let m ← var.destroy t.memory
    return s.accessed n.ua t m (.returned returned)

end State

def step (s : State ι σ) : Op ι → Option (State ι σ)
  | .connectCallback n ds =>
    match s.source n.ua with
    | .unknown => some s
    | _ => some {s with source := Function.update s.source n.ua (.dataSource ds)}
  | .clientRead n own value => s.clientRead callbacks n own value
  | .clientWrite n v own value => s.clientWrite callbacks n v own value
  | .nodeRead n own value => s.nodeRead callbacks n own value
  | .nodeWrite n v own value => s.nodeWrite callbacks n v own value

/-! ### Directly -/

/-- The variables, with no server between user code and data sources. -/
structure Direct (ι σ : Type) where
  source : Ua.NodeId → Source ι
  code : σ
  seen : List Outcome

namespace Direct
variable (d : Direct ι σ)

/-- What a read finds, and the state it leaves the user code in; nothing if the data source does not
come to an end. -/
def read (u : Ua.NodeId) (own : Ua.StatusCode) : Option (Option Ua.Variant × σ) :=
  match d.source u with
  | .data v => some (if own = .good then some v else none, d.code)
  | .dataSource (some ds) =>
    if own = .good then do
      let (code, body, status) := (callbacks ds).read d.code (fromUaNodeId u)
      let l ← body.ledger [] [.init]
      return (if status = .good then l.stored 0 else none, code)
    else some (none, d.code)
  | _ => some (none, d.code)

/-- Whether a write is accepted, and what it leaves. -/
def write (u : Ua.NodeId) (v : Ua.Variant) (own : Ua.StatusCode) : Bool × Direct ι σ :=
  match d.source u with
  | .data _ => if own = .good then (true, {d with source := Function.update d.source u (.data v)}) else (false, d)
  | .dataSource (some ds) =>
    if own = .good then
      let (code, status) := (callbacks ds).write d.code (fromUaNodeId u) v
      (status = .good, {d with code := code})
    else (false, d)
  | _ => (false, d)

def see (d : Direct ι σ) (outcome : Outcome) : Direct ι σ := {d with seen := outcome :: d.seen}

def step : Op ι → Option (Direct ι σ)
  | .connectCallback n ds =>
    match d.source n.ua with
    | .unknown => some d
    | _ => some {d with source := Function.update d.source n.ua (.dataSource ds)}
  | .clientRead n own _ => do
    let (found, code) ← d.read callbacks n.ua own
    return {d with code := code}.see (found.elim (.thrown ⟨"Error on readValueAttribute"⟩) .value)
  | .nodeRead n own _ => do
    let (found, code) ← d.read callbacks n.ua own
    return {d with code := code}.see (found.elim (.returned false) .value)
  | .clientWrite n v own _ =>
    let (accepted, d) := d.write callbacks n.ua v own
    some (d.see (if accepted then .done else .thrown ⟨"Error on writeValueAttribute"⟩))
  | .nodeWrite n v own _ =>
    let (accepted, d) := d.write callbacks n.ua v own
    some (d.see (.returned accepted))

end Direct

/-! ### When the two agree -/

/-- A data source that is asked for the value answers good and stores it through. -/
def ReadsThrough (d : Direct ι σ) (u : Ua.NodeId) (own : Ua.StatusCode) : Prop :=
  ∀ ds, asked (d.source u) own = some ds →
    ((callbacks ds).read d.code (fromUaNodeId u)).2.2 = .good ∧
      ∀ l, ((callbacks ds).read d.code (fromUaNodeId u)).2.1.ledger [] [.init] = some l → l.Intact 0

/-- A data source that is asked to take the value takes it. -/
def TakesValue (d : Direct ι σ) (u : Ua.NodeId) (v : Ua.Variant) (own : Ua.StatusCode) : Prop :=
  ∀ ds, asked (d.source u) own = some ds → ((callbacks ds).write d.code (fromUaNodeId u) v).2 = .good

def Faithful (d : Direct ι σ) : Op ι → Prop
  | .connectCallback _ _ => True
  | .clientRead n own _ | .nodeRead n own _ => ReadsThrough callbacks d n.ua own
  | .clientWrite n v own _ => TakesValue callbacks d n.ua v own
  | .nodeWrite n v own _ => (d.write callbacks n.ua v own).1 = true

/-- No cell of open62541 has been deleted. -/
structure Sound (m : Memory) : Prop where
  proper : m.Proper
  foreign : ∀ k, .foreign k ∉ m.deleted

/-- The server and the variables without one. -/
structure Stands (s : State ι σ) (d : Direct ι σ) : Prop where
  source : s.source = d.source
  code : s.code = d.code
  seen : s.seen = d.seen
  sound : Sound s.memory

/-! ### One access -/

section Accesses
variable {s : State ι σ} {d : Direct ι σ} (u : Ua.NodeId) (own : Ua.StatusCode)

variable {own} in
theorem asked_eq_some {source : Source ι} {ds : ι} :
    asked source own = some ds ↔ source = .dataSource (some ds) ∧ own = .good := by
  cases source with
  | unknown => simp [asked]
  | data v => simp [asked]
  | dataSource ds' =>
    by_cases h : own = .good <;> simp [asked, h]

/-- Where no data source is asked, a read is good exactly if there is a value. -/
theorem readValue_unasked (h : Stands s d) (hasked : asked (d.source u) own = none) (value : Nat) (m : Memory)
    (c : Cell) :
    ∃ status result, d.read callbacks u own = some (result, d.code) ∧
      readValue (s.node u m) u c (s.access callbacks u own value) =
        some (status, ⟨(s.node u m).source, d.code, result.elim m (m.store c)⟩) ∧
      (status = .good ↔ result.isSome = true) := by
  unfold State.node State.access Direct.read readValue
  rw [h.source, h.code]
  cases hsource : d.source u with
  | unknown =>
    exact ⟨.badNodeIdUnknown, none, rfl, by simp [badNodeIdUnknown_ne_good], by simp [badNodeIdUnknown_ne_good]⟩
  | data v =>
    refine ⟨own, _, rfl, ?_, ?_⟩ <;> by_cases hown : own = .good <;> simp [hown]
  | dataSource ds =>
    by_cases hown : own = .good
    · cases ds with
      | none => exact ⟨.badNoData, none, rfl, by simp [hown, Access.nodeContext, internalRead,
          VariableNode.badNoData_ne_good], by simp [VariableNode.badNoData_ne_good]⟩
      | some ds =>
        rw [hsource] at hasked
        simp [asked, hown] at hasked
    · exact ⟨own, none, by cases ds <;> simp [hown], by cases ds <;> simp [hown], by simp [hown]⟩

/-- A data source that is asked is called on open62541's cell, and the read is good whatever it says. -/
theorem readValue_asked (h : Stands s d) {ds : ι} (hasked : asked (d.source u) own = some ds) (value : Nat)
    (m : Memory) (c : Cell) :
    readValue (s.node u m) u c (s.access callbacks u own value) =
      (internalRead (some (callbacks ds)) d.code u value m).map fun (_, code, m') =>
        (.good, ⟨(s.node u m).source, code, m'.store c (m'.content (.foreign value))⟩) := by
  obtain ⟨hsource, hown⟩ := asked_eq_some.mp hasked
  unfold State.node State.access readValue
  rw [h.source, h.code, hasked, hsource]
  cases hcall : internalRead (some (callbacks ds)) d.code u value m with
  | none => simp [hown, Access.nodeContext, hcall]
  | some r =>
    obtain ⟨status, code, m'⟩ := r
    have hgood : status = .good := VariableNode.internalRead_status hcall
    simp [hown, Access.nodeContext, hcall, hgood]

/-- What a read gives, from the status and the cell read into. -/
def found (status : Ua.StatusCode) (m : Memory) (c : Cell) : Option Ua.Variant :=
  if status = .good then some (m.content c) else none

/-- A read that is good exactly if there is a value gives the value. -/
theorem found_of_good_iff {status : Ua.StatusCode} {value : Option Ua.Variant}
    (hgood : status = .good ↔ value.isSome = true) (m : Memory) (c : Cell) :
    found status (value.elim m (m.store c)) c = value := by
  cases value with
  | none => exact if_neg fun he => absurd (hgood.mp he) Bool.false_ne_true
  | some v => exact (if_pos (hgood.mpr rfl)).trans (congrArg some (Function.update_self ..))

/-- A direct read of a data source that is asked. -/
theorem read_asked {ds : ι} (hasked : asked (d.source u) own = some ds) :
    d.read callbacks u own =
      (((callbacks ds).read d.code (fromUaNodeId u)).2.1.ledger [] [.init]).map fun l =>
        (if ((callbacks ds).read d.code (fromUaNodeId u)).2.2 = .good then l.stored 0 else none,
          ((callbacks ds).read d.code (fromUaNodeId u)).1) := by
  obtain ⟨hsource, hown⟩ := asked_eq_some.mp hasked
  unfold Direct.read
  rw [hsource]
  simp only [hown, if_true, Option.bind_eq_bind, Option.pure_def]
  exact (Option.map_eq_bind ..).symm

theorem readsThrough_asked {ds : ι} (hasked : asked (d.source u) own = some ds) {l : Ledger}
    (hl : ((callbacks ds).read d.code (fromUaNodeId u)).2.1.ledger [] [.init] = some l) :
    ReadsThrough callbacks d u own ↔
      ((callbacks ds).read d.code (fromUaNodeId u)).2.2 = .good ∧ l.Intact 0 := by
  constructor
  · intro h
    obtain ⟨hgood, hintact⟩ := h ds hasked
    exact ⟨hgood, hintact l hl⟩
  · intro ⟨hgood, hintact⟩ ds' hds
    cases hasked.symm.trans hds
    refine ⟨hgood, fun l' hl' => ?_⟩
    cases hl.symm.trans hl'
    exact hintact

/-- A read into a cell of ours and a direct one: they come to an end together. The first leaves the other cells
there, and gives what the second gives, with open62541's cell left alone, exactly if the data source stores
through and answers good. -/
theorem readValue_node (h : Stands s d) {value : Nat} {m : Memory} (hm : Sound m)
    (hinit : m.content (.foreign value) = .init) (c : Cell) :
    (readValue (s.node u m) u c (s.access callbacks u own value) = none ∧ d.read callbacks u own = none) ∨
    ∃ status t result, readValue (s.node u m) u c (s.access callbacks u own value) = some (status, t) ∧
      d.read callbacks u own = some (result, t.code) ∧ t.source = (s.node u m).source ∧ t.memory.Proper ∧
      (∀ e, e ≠ .foreign value → m.exists? e = true → t.memory.exists? e = true) ∧
      ((found status t.memory c = result ∧ .foreign value ∉ t.memory.deleted) ↔ ReadsThrough callbacks d u own) := by
  cases hasked : asked (d.source u) own with
  | none =>
    obtain ⟨status, result, hdirect, hread, hgood⟩ := readValue_unasked callbacks u own h hasked value m c
    have hthrough : ReadsThrough callbacks d u own := fun ds hds => by
      rw [hasked] at hds
      cases hds
    refine .inr ⟨status, _, result, hread, hdirect, rfl, ?_, ?_,
      iff_of_true ⟨found_of_good_iff hgood m c, ?_⟩ hthrough⟩
    · cases result <;> exact hm.proper
    · intro e _ he
      cases result <;> exact he
    · cases result <;> exact hm.foreign value
  | some ds =>
    rw [readValue_asked callbacks u own h hasked, read_asked callbacks u own hasked]
    have hcases := internalRead_cases (callbacks ds) d.code u hm.proper (hm.foreign value)
    rw [hinit] at hcases
    rcases hcases with ⟨hl, hcall⟩ | ⟨l, m', hl, hcall, hperformed⟩
    · exact .inl ⟨by rw [hcall, Option.map_none], by rw [hl, Option.map_none]⟩
    · rw [hcall, hl]
      refine .inr ⟨.good, _, _, rfl, rfl, rfl, hperformed.proper, fun e he hexists => ?_, ?_⟩
      · obtain ⟨hlive, hold⟩ := Memory.exists?_iff.mp hexists
        have hapart : m.Apart 0 0 value 1 e := by
          refine ⟨hold, fun i hi => absurd hi (Nat.not_lt_zero i), fun j hj => ?_⟩
          obtain rfl : j = 0 := by omega
          exact he
        refine exists_of_grown (m := m) hperformed.grown (hperformed.frame e hapart).2.mp hexists
      · rw [readsThrough_asked callbacks u own hasked hl, ← hperformed.delivered 0 Nat.one_pos]
        have hfound : found .good (m'.store c (m'.content (.foreign value))) c =
            some (m'.content (.foreign value)) :=
          congrArg some (Function.update_self ..)
        dsimp only
        rw [hfound]
        unfold Delivered
        by_cases hgood : ((callbacks ds).read d.code (fromUaNodeId u)).2.2 = .good
        · rw [if_pos hgood]
          exact ⟨fun ⟨hstored, hlive⟩ => ⟨hgood, hstored.symm, hlive⟩,
            fun ⟨_, hstored, hlive⟩ => ⟨hstored.symm, hlive⟩⟩
        · rw [if_neg hgood]
          exact iff_of_false (fun hno => by cases hno.1) fun hno => hgood hno.1

theorem accessed_same {t : VariableState σ} {m : Memory} (h : t.source = (s.node u m).source) (m' : Memory)
    (outcome : Outcome) :
    s.accessed u t m' outcome = {s with code := t.code, memory := m', seen := outcome :: s.seen} := by
  have hsource : (s.accessed u t m' outcome).source = s.source := by
    unfold State.accessed State.node at *
    cases hu : s.source u with
    | unknown => rfl
    | dataSource ds => rfl
    | data v =>
      rw [hu] at h
      simp only [h]
      rw [← hu, Function.update_eq_self]
  exact congrArg (fun source => (⟨source, t.code, m', outcome :: s.seen⟩ : State ι σ)) hsource

/-- Memory as a Variant of ours is made in it. -/
theorem Sound.new {m : Memory} (hm : Sound m) : Sound m.new.2 :=
  ⟨fun n hn => Nat.lt_succ_of_lt (hm.proper n hn), hm.foreign⟩

theorem Sound.store {m : Memory} (hm : Sound m) (c : Cell) (v : Ua.Variant) : Sound (m.store c v) :=
  ⟨hm.proper, hm.foreign⟩

theorem Sound.foreign_exists {m : Memory} (hm : Sound m) (k : Nat) : m.exists? (.foreign k) = true :=
  Memory.exists?_iff.mpr ⟨hm.foreign k, fun n he => by cases he⟩

theorem Sound.new_exists {m : Memory} (hm : Sound m) : m.new.2.exists? (.allocated m.next) = true :=
  Memory.exists?_iff.mpr ⟨hm.proper.next_not_deleted, fun n he => by cases he; exact Nat.lt_succ_self _⟩

/-- After an access in which open62541's cell may have been deleted, and the end of a Variant of ours. -/
theorem sound_deleted_iff {m t : Memory} {value k : Nat} (hm : Sound m) (ht : t.Proper)
    (hexists : ∀ e, e ≠ .foreign value → m.exists? e = true → t.exists? e = true)
    (hc : t.exists? (.allocated k) = true) :
    Sound (t.delete (.allocated k)) ↔ .foreign value ∉ t.deleted := by
  constructor
  · exact fun h hv => h.foreign value (List.mem_cons_of_mem _ hv)
  · refine fun hv => ⟨fun n hn => ?_, fun j hj => ?_⟩
    · rcases List.mem_cons.mp hn with hn | hn
      · cases hn
        exact (Memory.exists?_iff.mp hc).2 k rfl
      · exact ht n hn
    · rcases List.mem_cons.mp hj with hj | hj
      · cases hj
      · by_cases he : j = value
        · exact hv (he ▸ hj)
        · exact (Memory.exists?_iff.mp (hexists (.foreign j) (fun h => he (Cell.foreign.inj h))
            (hm.foreign_exists j))).1 hj

/-- What user code sees of a read, where nothing was found included. -/
def sees (refusal : Outcome) (found : Option Ua.Variant) : Outcome := found.elim refusal .value

theorem sees_inj {refusal : Outcome} (hr : ∀ v, refusal ≠ .value v) {a b : Option Ua.Variant} :
    sees refusal a = sees refusal b ↔ a = b := by
  refine ⟨fun h => ?_, congrArg _⟩
  cases a <;> cases b
  · rfl
  · exact absurd h (hr _)
  · exact absurd h.symm (hr _)
  · exact congrArg some (Outcome.value.inj h)

/-- A read leaves the two related exactly if what was found is the same and the cell left alone. -/
theorem stands_read (h : Stands s d) {refusal : Outcome} (hr : ∀ v, refusal ≠ .value v) {value k : Nat} {m : Memory}
    (hm : Sound m) (hc : m.exists? (.allocated k) = true) {status : Ua.StatusCode} {t : VariableState σ}
    {result : Option Ua.Variant} (hsource : t.source = (s.node u m).source) (hproper : t.memory.Proper)
    (hexists : ∀ e, e ≠ .foreign value → m.exists? e = true → t.memory.exists? e = true) :
    Stands (s.accessed u t (t.memory.delete (.allocated k)) (sees refusal (found status t.memory (.allocated k))))
      ({d with code := t.code}.see (sees refusal result)) ↔
    found status t.memory (.allocated k) = result ∧ .foreign value ∉ t.memory.deleted := by
  rw [accessed_same u hsource]
  have hsound := sound_deleted_iff hm hproper hexists (hexists _ (by simp) hc)
  constructor
  · intro hstands
    have hseen := (List.cons.inj hstands.seen).1
    exact ⟨(sees_inj hr).mp hseen, hsound.mp hstands.sound⟩
  · rintro ⟨hfound, hdeleted⟩
    exact ⟨h.source, rfl, by rw [hfound]; exact congrArg _ h.seen, hsound.mpr hdeleted⟩

/-- A write from a cell of ours: it is good unless open62541 refuses or the context is null. -/
theorem writeValue_node (h : Stands s d) (value : Nat) (m : Memory) (c : Cell) :
    ∃ status t, writeValue (s.node u m) u c (s.access callbacks u own value) = some (status, t) ∧
      t.memory.deleted = m.deleted ∧ t.memory.next = m.next ∧
      (∀ m' outcome, s.accessed u t m' outcome =
        ⟨(d.write callbacks u (m.content c) own).2.source, (d.write callbacks u (m.content c) own).2.code, m',
          outcome :: s.seen⟩) ∧
      ((status = .good ↔ (d.write callbacks u (m.content c) own).1 = true) ↔
        TakesValue callbacks d u (m.content c) own) := by
  unfold State.node State.access State.accessed Direct.write TakesValue writeValue
  rw [h.source, h.code]
  cases hsource : d.source u with
  | unknown =>
    refine ⟨.badNodeIdUnknown, ⟨.data .init, d.code, m⟩, by simp [badNodeIdUnknown_ne_good], rfl, rfl,
      fun _ _ => rfl, ?_⟩
    simp [asked, badNodeIdUnknown_ne_good]
  | data v =>
    refine ⟨own, ⟨.data (if own = .good then m.content c else v), d.code, m⟩, ?_, rfl, rfl, fun _ _ => ?_, ?_⟩
    · by_cases hown : own = .good <;> simp [hown]
    · by_cases hown : own = .good
      · simp [hown]
      · simp only [hown, if_false]
        rw [← hsource, Function.update_eq_self]
    · by_cases hown : own = .good <;> simp [hown, asked]
  | dataSource ds =>
    by_cases hown : own = .good
    · have hcontent : (m.store (.foreign value) (m.content c)).content (.foreign value) = m.content c :=
        Function.update_self ..
      refine ⟨if ds.isSome then .good else .badNoData, ⟨.dataSource ds.isSome,
        ds.elim d.code fun ds => ((callbacks ds).write d.code (fromUaNodeId u) (m.content c)).1,
        m.store (.foreign value) (m.content c)⟩, ?_, rfl, rfl, fun _ _ => ?_, ?_⟩
      · cases ds <;> simp [hown, asked, Access.nodeContext, VariableNode.internalWrite_eq, hcontent]
      · cases ds <;> simp [hown]
      · cases ds <;> simp [hown, asked, VariableNode.badNoData_ne_good]
    · refine ⟨own, ⟨.dataSource ds.isSome, d.code, m⟩, ?_, rfl, rfl, fun _ _ => ?_, ?_⟩
      · simp [hown]
      · cases ds <;> simp [hown]
      · cases ds <;> simp [hown, asked]

end Accesses

/-! ### Steps -/

abbrev Step (s : State ι σ) (d : Direct ι σ) (op : Op ι) : Prop :=
  Simulation.Lockstep Stands (Faithful callbacks) (step callbacks) (Direct.step callbacks) s d op

section Steps
variable {callbacks} {s : State ι σ} {d : Direct ι σ}

@[simp] theorem reading_next (value : Nat) (m : Memory) : (State.reading value m).next = m.next := rfl

theorem reading_init (value : Nat) (m : Memory) :
    (State.reading value m).new.2.content (.foreign value) = .init := by
  show Function.update (Function.update m.content (.foreign value) .init) (.allocated m.next) .init
    (.foreign value) = _
  rw [Function.update_of_ne (by simp), Function.update_self]

theorem lockstep_clientRead (h : Stands s d) (n : Name) (own : Ua.StatusCode) (value : Nat) :
    Step callbacks s d (.clientRead n own value) := by
  have hm : Sound (State.reading value s.memory) := h.sound.store ..
  have hcall : Client.read n.id (s.access callbacks n.ua own value) (s.node n.ua (State.reading value s.memory)) =
      (readValue (s.node n.ua (State.reading value s.memory).new.2) n.ua (.allocated s.memory.next)
        (s.access callbacks n.ua own value)).bind fun r =>
      if r.1 ≠ .good then some (.error ⟨"Error on readValueAttribute"⟩,
        {r.2 with memory := r.2.memory.delete (.allocated s.memory.next)})
      else some (.ok ⟨some (.allocated s.memory.next), true⟩, r.2) := by
    unfold Client.read
    rw [n.names]
    rfl
  rcases readValue_node callbacks n.ua own h hm.new (reading_init value s.memory) (.allocated s.memory.next) with
    ⟨hread, hdirect⟩ | ⟨status, t, result, hread, hdirect, hsource, hproper, hexists, hiff⟩
  · refine .refused ?_ (by simp [Direct.step, hdirect])
    show s.clientRead callbacks n own value = _
    simp [State.clientRead, hcall, hread]
  have hex : t.memory.exists? (.allocated s.memory.next) = true := hexists _ (by simp) hm.new_exists
  have hrefusal : ∀ v, Outcome.thrown ⟨"Error on readValueAttribute"⟩ ≠ .value v := fun _ he => by cases he
  refine .performed _ _ ?_ (by simp [Direct.step, hdirect]; rfl)
    ((stands_read n.ua h hrefusal hm.new hm.new_exists hsource hproper hexists).trans hiff)
  show s.clientRead callbacks n own value = _
  have hderef : t.memory.deref (some (.allocated s.memory.next)) = some (.allocated s.memory.next) :=
    Memory.deref_eq_some.mpr ⟨rfl, hex⟩
  unfold State.clientRead
  rw [hcall, hread, Option.bind_some]
  by_cases hg : status = .good
  · simp only [hg, ne_eq, not_true_eq_false, if_false, Option.bind_eq_bind, Option.bind_some, hderef,
      Option.pure_def, Variant.destroy, if_true, Option.map_some, found, sees, Option.elim_some, reading_next]
  · simp only [hg, ne_eq, not_false_eq_true, if_true, Option.bind_eq_bind, Option.bind_some, Option.pure_def,
      found, if_false, sees, Option.elim_none]
    rfl

theorem lockstep_nodeRead (h : Stands s d) (n : Name) (own : Ua.StatusCode) (value : Nat) :
    Step callbacks s d (.nodeRead n own value) := by
  have hm : Sound (State.reading value s.memory) := h.sound.store ..
  -- `UA_Variant_clear` on the new Variant
  let m := (State.reading value s.memory).new.2.store (.allocated s.memory.next) .init
  have hsound : Sound m := hm.new.store ..
  have hinit : m.content (.foreign value) = .init := by
    show Function.update (State.reading value s.memory).new.2.content (.allocated s.memory.next) .init
      (.foreign value) = _
    rw [Function.update_of_ne (by simp), reading_init]
  have hnew : m.exists? (.allocated s.memory.next) = true := hm.new_exists
  have hcall : VariableNode.read ⟨n.id⟩ ⟨some (.allocated s.memory.next), true⟩ (s.access callbacks n.ua own value)
      (s.node n.ua (State.reading value s.memory).new.2) =
      (readValue (s.node n.ua m) n.ua (.allocated s.memory.next) (s.access callbacks n.ua own value)).bind
        fun r => some (decide (r.1 = .good), r.2) := by
    unfold VariableNode.read
    have hvar : (State.reading value s.memory).new.2.deref (some (.allocated s.memory.next)) =
        some (.allocated s.memory.next) := Memory.deref_eq_some.mpr ⟨rfl, hm.new_exists⟩
    show ((State.reading value s.memory).new.2.deref (some (.allocated s.memory.next))).bind _ = _
    rw [hvar, Option.bind_some, n.names]
    show (readValue (s.node n.ua m) n.ua (.allocated s.memory.next) (s.access callbacks n.ua own value)).bind _ = _
    cases readValue (s.node n.ua m) n.ua (.allocated s.memory.next) (s.access callbacks n.ua own value) with
    | none => rfl
    | some r => by_cases hg : r.1 = .good <;> simp [hg]
  have hstep : step callbacks s (.nodeRead n own value) = s.nodeRead callbacks n own value := rfl
  unfold State.nodeRead at hstep
  rcases readValue_node callbacks n.ua own h hsound hinit (.allocated s.memory.next) with
    ⟨hread, hdirect⟩ | ⟨status, t, result, hread, hdirect, hsource, hproper, hexists, hiff⟩
  · refine .refused (hstep.trans ?_) (by simp [Direct.step, hdirect])
    show (VariableNode.read ⟨n.id⟩ ⟨some (.allocated s.memory.next), true⟩ (s.access callbacks n.ua own value)
      (s.node n.ua (State.reading value s.memory).new.2)).bind _ = _
    rw [hcall, hread]
    rfl
  have hex : t.memory.exists? (.allocated s.memory.next) = true := hexists _ (by simp) hnew
  have hrefusal : ∀ v, Outcome.returned false ≠ .value v := fun _ he => by cases he
  refine .performed _ _ (hstep.trans ?_) (by simp [Direct.step, hdirect]; rfl)
    ((stands_read n.ua h hrefusal hsound hnew hsource hproper hexists).trans hiff)
  have hderef : t.memory.deref (some (.allocated s.memory.next)) = some (.allocated s.memory.next) :=
    Memory.deref_eq_some.mpr ⟨rfl, hex⟩
  show (VariableNode.read ⟨n.id⟩ ⟨some (.allocated s.memory.next), true⟩ (s.access callbacks n.ua own value)
    (s.node n.ua (State.reading value s.memory).new.2)).bind _ = _
  rw [hcall, hread, Option.bind_some]
  show (t.memory.deref (some (.allocated s.memory.next))).bind _ = _
  rw [hderef, Option.bind_some]
  by_cases hg : status = .good
  · simp [hg, Variant.destroy, found, sees]
  · simp [hg, Variant.destroy, found, sees]

/-- Memory after a Variant that a value was written from. -/
theorem Sound.written {m t : Memory} (hm : Sound m) (hnext : t.next = m.next + 1)
    (hdeleted : t.deleted = m.deleted) :
    Sound (t.delete (.allocated m.next)) where
  proper n hn := by
    show n < t.next
    rcases List.mem_cons.mp hn with hn | hn
    · cases hn
      omega
    · have := hm.proper n (hdeleted ▸ hn)
      omega
  foreign k hk := by
    rcases List.mem_cons.mp hk with hk | hk
    · cases hk
    · exact hm.foreign k (hdeleted ▸ hk)

theorem write_seen (u : Ua.NodeId) (v : Ua.Variant) (own : Ua.StatusCode) :
    (d.write callbacks u v own).2.seen = d.seen := by
  unfold Direct.write
  split
  · split <;> rfl
  · split <;> rfl
  · rfl

theorem lockstep_clientWrite (h : Stands s d) (n : Name) (v : Ua.Variant) (own : Ua.StatusCode) (value : Nat) :
    Step callbacks s d (.clientWrite n v own value) := by
  let m := s.memory.new.2.store (.allocated s.memory.next) v
  have hcontent : m.content (.allocated s.memory.next) = v := Function.update_self ..
  obtain ⟨status, t, hwrite, hdeleted, hnext, haccessed, hiff⟩ :=
    writeValue_node callbacks n.ua own h value m (.allocated s.memory.next)
  rw [hcontent] at haccessed hiff
  have hderef : m.deref (some (.allocated s.memory.next)) = some (.allocated s.memory.next) :=
    Memory.deref_eq_some.mpr ⟨rfl, h.sound.new_exists⟩
  have hcall : Client.write n.id ⟨some (.allocated s.memory.next), true⟩ (s.access callbacks n.ua own value)
      (s.node n.ua m) = some (if status = .good then none else some ⟨"Error on writeValueAttribute"⟩, t) := by
    unfold Client.write
    show (m.deref (some (.allocated s.memory.next))).bind _ = _
    rw [hderef, Option.bind_some, n.names]
    show (writeValue (s.node n.ua m) n.ua (.allocated s.memory.next) (s.access callbacks n.ua own value)).bind _ = _
    rw [hwrite, Option.bind_some]
    by_cases hg : status = .good <;> simp [hg]
  refine .performed
    (s.accessed n.ua t (t.memory.delete (.allocated s.memory.next))
      (if status = .good then .done else .thrown ⟨"Error on writeValueAttribute"⟩))
    ((d.write callbacks n.ua v own).2.see
      (if (d.write callbacks n.ua v own).1 then .done else .thrown ⟨"Error on writeValueAttribute"⟩)) ?_ rfl ?_
  · show s.clientWrite callbacks n v own value = _
    unfold State.clientWrite
    show (Client.write n.id ⟨some (.allocated s.memory.next), true⟩ (s.access callbacks n.ua own value)
      (s.node n.ua m)).bind _ = _
    rw [hcall]
    by_cases hg : status = .good <;> simp [hg, Variant.destroy]
  · rw [haccessed]
    show _ ↔ TakesValue callbacks d n.ua v own
    rw [← hiff]
    constructor
    · intro hstands
      have hseen := (List.cons.inj hstands.seen).1
      by_cases hg : status = .good <;> cases ha : (d.write callbacks n.ua v own).1 <;> simp_all
    · intro hstatus
      refine ⟨rfl, rfl, ?_, h.sound.written hnext hdeleted⟩
      show (_ :: s.seen) = _ :: (d.write callbacks n.ua v own).2.seen
      rw [write_seen, h.seen]
      by_cases hg : status = .good <;> simp [hg, ← hstatus]

/-- The wrapper's write returns true, whatever has become of it. -/
theorem lockstep_nodeWrite (h : Stands s d) (n : Name) (v : Ua.Variant) (own : Ua.StatusCode) (value : Nat) :
    Step callbacks s d (.nodeWrite n v own value) := by
  let m := s.memory.new.2.store (.allocated s.memory.next) v
  have hcontent : m.content (.allocated s.memory.next) = v := Function.update_self ..
  obtain ⟨status, t, hwrite, hdeleted, hnext, haccessed, -⟩ :=
    writeValue_node callbacks n.ua own h value m (.allocated s.memory.next)
  rw [hcontent] at haccessed
  have hderef : m.deref (some (.allocated s.memory.next)) = some (.allocated s.memory.next) :=
    Memory.deref_eq_some.mpr ⟨rfl, h.sound.new_exists⟩
  have hcall : VariableNode.write ⟨n.id⟩ ⟨some (.allocated s.memory.next), true⟩ (s.access callbacks n.ua own value)
      (s.node n.ua m) = some (true, t) := by
    unfold VariableNode.write
    show (m.deref (some (.allocated s.memory.next))).bind _ = _
    rw [hderef, Option.bind_some, n.names]
    show (writeValue (s.node n.ua m) n.ua (.allocated s.memory.next) (s.access callbacks n.ua own value)).bind _ = _
    rw [hwrite]
    rfl
  refine .performed
    (s.accessed n.ua t (t.memory.delete (.allocated s.memory.next)) (.returned true))
    ((d.write callbacks n.ua v own).2.see (.returned (d.write callbacks n.ua v own).1)) ?_ rfl ?_
  · show s.nodeWrite callbacks n v own value = _
    unfold State.nodeWrite
    show (VariableNode.write ⟨n.id⟩ ⟨some (.allocated s.memory.next), true⟩ (s.access callbacks n.ua own value)
      (s.node n.ua m)).bind _ = _
    rw [hcall]
    simp [Variant.destroy]
  · rw [haccessed]
    show _ ↔ (d.write callbacks n.ua v own).1 = true
    constructor
    · intro hstands
      have hseen := (List.cons.inj hstands.seen).1
      exact (Outcome.returned.inj hseen).symm
    · intro haccepted
      refine ⟨rfl, rfl, ?_, h.sound.written hnext hdeleted⟩
      show (_ :: s.seen) = _ :: (d.write callbacks n.ua v own).2.seen
      rw [write_seen, h.seen, haccepted]

theorem lockstep_connectCallback (h : Stands s d) (n : Name) (ds : Option ι) :
    Step callbacks s d (.connectCallback n ds) := by
  have hsource : s.source n.ua = d.source n.ua := congrFun h.source n.ua
  cases hu : d.source n.ua with
  | unknown =>
    exact .performed s d (by simp [step, hsource, hu]) (by simp [Direct.step, hu]) (iff_true_intro h)
  | _ =>
    refine .performed {s with source := Function.update s.source n.ua (.dataSource ds)}
      {d with source := Function.update d.source n.ua (.dataSource ds)} ?_ ?_ (iff_true_intro ?_)
    · simp [step, hsource, hu]
    · simp [Direct.step, hu]
    · exact ⟨congrArg (Function.update · n.ua (.dataSource ds)) h.source, h.code, h.seen, h.sound⟩

end Steps

theorem sound_blank : Sound .blank where
  proper n hn := by cases hn
  foreign k hk := by cases hk

/-- On any variables, with values of their own or behind data sources that share any state, a run of accesses
by clients and wrappers shows user code what calling the data sources directly would, and calls them at the
same states, exactly if in each access a data source that is asked for a value answers good and stores it
through, one that is asked to take a value takes it, and no write of a wrapper is refused by anyone. -/
theorem data_sources_reached_iff (callbacks : ι → DataSource σ) (source : Ua.NodeId → Source ι) (s : σ)
    (ops : List (Op ι)) :
    Simulation.Related Stands (step callbacks) (Direct.step callbacks) ⟨source, s, .blank, []⟩ ⟨source, s, []⟩ ops ↔
      ∀ e ∈ Run.edges (Direct.step callbacks) ⟨source, s, []⟩ ops, Faithful callbacks e.1 e.2 := by
  refine Simulation.related_iff_guarded (A := fun _ => True) (fun s d op h _ => ?_) ⟨rfl, rfl, rfl, sound_blank⟩
    fun _ _ => trivial
  cases op with
  | connectCallback n ds => exact lockstep_connectCallback h n ds
  | clientRead n own value => exact lockstep_clientRead h n own value
  | clientWrite n v own value => exact lockstep_clientWrite h n v own value
  | nodeRead n own value => exact lockstep_nodeRead h n own value
  | nodeWrite n v own value => exact lockstep_nodeWrite h n v own value

end Machines

end ModernOpc.DataSources
