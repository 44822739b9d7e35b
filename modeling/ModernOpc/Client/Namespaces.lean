import ModernOpc.Library.Bytes
import ModernOpc.Library.Run
import ModernOpc.Ua.Types

/-! The client's namespace table.

`connect` reads the server's NamespaceArray and appends it to the table, which
`resolveNamespaceUri` searches from the front. Nothing ever clears the table.

`namespaces_current_iff`: throughout a run, uris resolve as in the array read by the
latest successful connect exactly if each of these found an empty table, or one that
resolved every uri as its own array does. -/
namespace ModernOpc.Client
open Library

/-- `OpcException`. -/
structure OpcException where
  what : String
  deriving DecidableEq, Repr

inductive ConnectionState where
  | disconnected
  | connected
  deriving DecidableEq, Repr

/-- What `connect` and `resolveNamespaceUri` use of a client. -/
structure Session where
  connState : ConnectionState
  namespaces : List Bytes
  deriving DecidableEq, Repr

/-- A client before its first `connect`. -/
def Session.initial : Session := ⟨.disconnected, []⟩

/-- What a server answers to a `connect`: the status of the connection, the status of the
read, and the array read. -/
structure Answer where
  connection : Ua.StatusCode
  reading : Ua.StatusCode
  namespaceArray : List Bytes
  deriving DecidableEq, Repr

/-- The loop over the array read. -/
def pushAll (namespaces : List Bytes) : List Bytes → List Bytes
  | [] => namespaces
  | s :: rest => pushAll (namespaces ++ [s]) rest

/-- `Client::connect`: the client afterwards, and the exception if it throws. -/
def connect (self : Session) (answer : Answer) : Session × Option OpcException :=
  if answer.connection ≠ .good then (self, some ⟨"could not connect"⟩)
  else if answer.reading ≠ .good then (self, some ⟨"could not read namespace array"⟩)
  else (⟨.connected, pushAll self.namespaces answer.namespaceArray⟩, none)

/-- `Client::disconnect` tells open62541 only. -/
def disconnect (self : Session) : Session := self

/-- The search loop: the index of the first match. -/
def search (uri : Bytes) : List Bytes → Nat → Option Nat
  | [], _ => none
  | nsUri :: rest, idx => if uri = nsUri then some idx else search uri rest (idx + 1)

/-- `Client::resolveNamespaceUri`. -/
def resolveNamespaceUri (self : Session) (uri : Bytes) : Except OpcException Nat :=
  match search uri self.namespaces 0 with
  | some idx => .ok idx
  | none => .error ⟨"namespaceUri of nodeId not found"⟩

theorem pushAll_eq (namespaces uris : List Bytes) : pushAll namespaces uris = namespaces ++ uris := by
  induction uris generalizing namespaces with
  | nil => exact (List.append_nil _).symm
  | cons s rest ih => rw [pushAll, ih, List.append_assoc, List.singleton_append]

theorem search_eq (uri : Bytes) (uris : List Bytes) (idx : Nat) :
    search uri uris idx = (uris.idxOf? uri).map (· + idx) := by
  induction uris generalizing idx with
  | nil => rfl
  | cons s rest ih =>
    rw [search, List.idxOf?_cons]
    by_cases h : s = uri
    · simp [h]
    · rw [if_neg (Ne.symm h), ih]
      simp [h, Function.comp_def, Nat.add_assoc, Nat.add_comm 1]

/-! ### Currency -/

/-- The index of the first occurrence in an array, or the exception. -/
def expected (namespaceArray : List Bytes) (uri : Bytes) : Except OpcException Nat :=
  match namespaceArray.idxOf? uri with
  | some idx => .ok idx
  | none => .error ⟨"namespaceUri of nodeId not found"⟩

theorem expected_eq_iff {a b : List Bytes} {uri : Bytes} :
    expected a uri = expected b uri ↔ a.idxOf? uri = b.idxOf? uri := by
  unfold expected
  cases a.idxOf? uri <;> cases b.idxOf? uri <;> simp

theorem resolveNamespaceUri_eq (self : Session) (uri : Bytes) :
    resolveNamespaceUri self uri = expected self.namespaces uri := by
  simp [resolveNamespaceUri, expected, search_eq]

/-- Appending an array to a table changes nothing the array says exactly if the table was
empty or said it already. -/
theorem append_current_iff (table array : List Bytes) :
    (∀ uri, (table ++ array).idxOf? uri = array.idxOf? uri) ↔
      table = [] ∨ ∀ uri, table.idxOf? uri = array.idxOf? uri := by
  have happ : ∀ uri, (table ++ array).idxOf? uri =
      (table.idxOf? uri).or ((array.idxOf? uri).map (· + table.length)) := fun uri => List.findIdx?_append
  constructor
  · intro h
    by_cases ht : table = []
    · exact .inl ht
    · refine .inr fun uri => ?_
      have hu := h uri
      rw [happ] at hu
      cases htab : table.idxOf? uri with
      | some i => rw [← hu, htab, Option.some_or]
      | none =>
        rw [htab, Option.none_or] at hu
        cases harr : array.idxOf? uri with
        | none => rfl
        | some i =>
          rw [harr, Option.map_some, Option.some.injEq] at hu
          have := List.length_pos_iff.mpr ht
          omega
  · intro h uri
    rcases h with rfl | h
    · rfl
    · rw [happ, h uri]
      cases array.idxOf? uri <;> simp

/-! ### Runs -/

/-- A client, and the array read by its latest successful connect. -/
structure State where
  session : Session
  latest : Option (List Bytes)

def State.initial : State := ⟨.initial, none⟩

inductive Op where
  | connect (answer : Answer)
  | disconnect

def step (s : State) : Op → Option State
  | .connect answer =>
    match connect s.session answer with
    | (session, none) => some ⟨session, some answer.namespaceArray⟩
    | (session, some _) => some ⟨session, s.latest⟩
  | .disconnect => some ⟨disconnect s.session, s.latest⟩

/-- Every uri resolves as in the array read last. -/
def State.Current (s : State) : Prop :=
  ∀ array, s.latest = some array → ∀ uri, resolveNamespaceUri s.session uri = expected array uri

/-- What an operation must respect: a connect that succeeds finds an empty table, or one
that resolves every uri as the array read does. -/
def Respects (s : State) : Op → Prop
  | .connect answer => answer.connection = .good → answer.reading = .good →
      s.session.namespaces = [] ∨
        ∀ uri, s.session.namespaces.idxOf? uri = answer.namespaceArray.idxOf? uri
  | .disconnect => True

/-- A connect fails and leaves the client as it was, or appends the array. -/
theorem connect_cases (self : Session) (answer : Answer) :
    ((∃ e, connect self answer = (self, some e)) ∧ ¬ (answer.connection = .good ∧ answer.reading = .good)) ∨
    (connect self answer = (⟨.connected, self.namespaces ++ answer.namespaceArray⟩, none) ∧
      answer.connection = .good ∧ answer.reading = .good) := by
  unfold connect
  by_cases hc : answer.connection = .good
  · by_cases hr : answer.reading = .good
    · exact .inr ⟨by simp [hc, hr, pushAll_eq], hc, hr⟩
    · exact .inl ⟨⟨_, by simp [hc, hr]; rfl⟩, fun h => hr h.2⟩
  · exact .inl ⟨⟨_, by simp [hc]; rfl⟩, fun h => hc h.1⟩

/-- A client that connects has the array it reads behind what it had. -/
theorem connect_good (self : Session) (array : List Bytes) :
    connect self ⟨.good, .good, array⟩ = (⟨.connected, self.namespaces ++ array⟩, none) := by
  rcases connect_cases self ⟨.good, .good, array⟩ with ⟨_, hno⟩ | ⟨h, _⟩
  · exact absurd ⟨rfl, rfl⟩ hno
  · exact h

/-- After a connect that succeeds the state is current exactly if it was respected. -/
theorem current_connected_iff (s : State) (answer : Answer) :
    State.Current ⟨⟨.connected, s.session.namespaces ++ answer.namespaceArray⟩, some answer.namespaceArray⟩ ↔
      s.session.namespaces = [] ∨
        ∀ uri, s.session.namespaces.idxOf? uri = answer.namespaceArray.idxOf? uri := by
  rw [← append_current_iff]
  constructor
  · intro h uri
    exact expected_eq_iff.mp ((resolveNamespaceUri_eq _ uri).symm.trans (h _ rfl uri))
  · intro h array ha uri
    cases ha
    rw [resolveNamespaceUri_eq]
    exact expected_eq_iff.mpr (h uri)

theorem step_current {s t : State} {op : Op} (h : s.Current) (hg : Respects s op) (hstep : step s op = some t) :
    t.Current := by
  cases op with
  | disconnect =>
    cases hstep
    exact h
  | connect answer =>
    rcases connect_cases s.session answer with ⟨⟨e, he⟩, _⟩ | ⟨he, hc, hr⟩
    · simp only [step, he] at hstep
      cases hstep
      exact h
    · simp only [step, he] at hstep
      cases hstep
      exact (current_connected_iff s answer).mpr (hg hc hr)

theorem step_stale {s t : State} {op : Op} (hg : ¬ Respects s op) (hstep : step s op = some t) :
    ¬ t.Current := by
  cases op with
  | disconnect => exact absurd trivial hg
  | connect answer =>
    rcases connect_cases s.session answer with ⟨_, hno⟩ | ⟨he, _, _⟩
    · exact absurd (fun hc hr => absurd ⟨hc, hr⟩ hno) hg
    · simp only [step, he] at hstep
      cases hstep
      exact fun ht => hg fun _ _ => (current_connected_iff s answer).mp ht

/-- Uris resolve as in the latest array, throughout a run, exactly if every successful
connect finds an empty table or one that says what its array says; a failed connect
leaves the client as it was. -/
theorem namespaces_current_iff (ops : List Op) :
    ((∀ t ∈ Run.visited step .initial ops, t.Current) ↔
      ∀ e ∈ Run.edges step .initial ops, Respects e.1 e.2) ∧
    (∀ (self : Session) (answer : Answer), (connect self answer).2 ≠ none → (connect self answer).1 = self) := by
  refine ⟨?_, fun self answer hthrow => ?_⟩
  · exact Run.holds_iff_guarded (I := State.Current) (P := State.Current) (G := Respects) (fun _ h => h)
      (fun _ _ _ => step_current) (fun _ _ _ _ => step_stale) (fun array ha => by cases ha) ops
  · rcases connect_cases self answer with ⟨⟨e, he⟩, _⟩ | ⟨he, _, _⟩
    · rw [he]
    · rw [he] at hthrow
      exact absurd rfl hthrow

/-- A client that connects to a server with one namespace and then to one with another
resolves the second to the index after the first. -/
theorem reconnect_stale : ¬ ∀ ops : List Op, ∀ t ∈ Run.visited step .initial ops, t.Current := by
  intro h
  let ops : List Op := [.connect ⟨.good, .good, [[0x61]]⟩, .disconnect, .connect ⟨.good, .good, [[0x62]]⟩]
  have hfinal : Run.final step .initial ops =
      some ⟨⟨.connected, [[0x61], [0x62]]⟩, some [[0x62]]⟩ := rfl
  have hcurrent := h ops _ (Run.final_mem_visited hfinal) [[0x62]] rfl [0x62]
  exact absurd hcurrent (by decide)

end ModernOpc.Client
