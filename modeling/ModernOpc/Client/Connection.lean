import ModernOpc.Client.Namespaces

/-! The client's connection state and who is told of it.

`connect` sets the state when it has read the namespaces, and nothing sets it back:
`disconnect` and a `connect` that throws tell open62541 only. `notifyConnectionState`
would call the registered callbacks, but nothing calls it.

Beside the client a state keeps the history: whether the latest connect stands, what was
registered so far, and the notifications that the changes of state so far call for.

`connection_state_iff`: the state reported stands for the connection and every change of
it was notified, throughout a run, exactly if nothing ends a connection that was made
and no callback is registered before the first one is. The client keeps every callback
it was given, for a call that never comes. -/
namespace ModernOpc.Client.Connection
open Library

/-- A registered `std::function`, by its registration. -/
abbrev Callback := Nat

/-- A call of a callback, with the state it is told. -/
abbrev Notification := Callback × ConnectionState

/-- The client's session, its callbacks in order, the calls made to them, and the history. -/
structure State where
  session : Session
  connectionStateCallbacks : List Callback
  notified : List Notification
  /-- The latest connect completed, and no disconnect came after it. -/
  standing : Bool
  /-- The registrations so far, the earliest first. -/
  registered : List Callback
  /-- One call for each callback registered before a change of the state, for each change. -/
  due : List Notification

def State.initial : State := ⟨.initial, [], [], false, [], []⟩

def State.getConnectionState (s : State) : ConnectionState := s.session.connState

/-- `Client::registerConnectionCallback`. -/
def registerConnectionCallback (callbacks : List Callback) (fn : Callback) : List Callback := callbacks ++ [fn]

/-- The calls `Client::notifyConnectionState` makes. -/
def notifyConnectionState (callbacks : List Callback) (state : ConnectionState) : List Notification :=
  callbacks.map fun cb => (cb, state)

inductive Op where
  | connect (answer : Answer)
  | disconnect
  | registerConnectionCallback (fn : Callback)

/-- The notifications a change of the state calls for. -/
def State.dueAfter (s : State) (connState : ConnectionState) : List Notification :=
  if connState = s.getConnectionState then s.due
  else s.due ++ s.registered.map fun cb => (cb, connState)

def step (s : State) : Op → Option State
  | .connect answer =>
    let (session, exception) := connect s.session answer
    some {s with
      session := session
      standing := exception.isNone
      due := s.dueAfter session.connState}
  | .disconnect =>
    let session := disconnect s.session
    some {s with
      session := session
      standing := false
      due := s.dueAfter session.connState}
  | .registerConnectionCallback fn =>
    some {s with
      connectionStateCallbacks := registerConnectionCallback s.connectionStateCallbacks fn
      registered := s.registered ++ [fn]}

/-- The state is that of the connection, and every callback was told of every change once. -/
structure State.Faithful (s : State) : Prop where
  state : s.getConnectionState = .connected ↔ s.standing = true
  told : s.notified.Perm s.due

/-- What an operation must respect: no disconnect and no failing connect once connected,
and no callback registered before the client gets connected. -/
def Respects (s : State) : Op → Prop
  | .connect answer =>
    if answer.connection = .good ∧ answer.reading = .good then
      s.getConnectionState = .connected ∨ s.registered = []
    else s.getConnectionState = .disconnected
  | .disconnect => s.getConnectionState = .disconnected
  | .registerConnectionCallback _ => True

/-- The client never calls back, so nothing must be due. -/
structure State.Quiet (s : State) : Prop where
  state : s.getConnectionState = .connected ↔ s.standing = true
  silent : s.notified = []
  nothing : s.due = []

theorem State.Quiet.faithful {s : State} (h : s.Quiet) : s.Faithful :=
  ⟨h.state, by rw [h.silent, h.nothing]⟩

section
variable {s t : State} {op : Op}

/-- A connect that throws and a disconnect leave the session as it is and end the connection. -/
theorem step_ended (h : step s op = some t) (hop : op = .disconnect ∨ ∃ answer, op = .connect answer ∧
      ¬ (answer.connection = .good ∧ answer.reading = .good)) : t = {s with standing := false} := by
  have hdue : s.dueAfter s.session.connState = s.due := if_pos rfl
  rcases hop with rfl | ⟨answer, rfl, hfail⟩
  · cases h
    show {s with standing := false, due := s.dueAfter s.session.connState} = _
    rw [hdue]
  · rcases connect_cases s.session answer with ⟨⟨e, he⟩, _⟩ | ⟨_, hgood⟩
    · simp only [step, he, Option.some.injEq] at h
      rw [← h, hdue]
      rfl
    · exact absurd hgood hfail

/-- A connect that completes sets the state, and owes the callbacks a call if it changed. -/
theorem step_connected {answer : Answer} (hgood : answer.connection = .good ∧ answer.reading = .good)
    (h : step s (.connect answer) = some t) :
    t.getConnectionState = .connected ∧ t.standing = true ∧ t.notified = s.notified ∧
      t.due = s.dueAfter .connected := by
  rcases connect_cases s.session answer with ⟨_, hfail⟩ | ⟨he, _⟩
  · exact absurd hgood hfail
  · simp only [step, he, Option.some.injEq] at h
    subst h
    exact ⟨rfl, rfl, rfl, rfl⟩

theorem step_quiet (hi : s.Quiet) (hg : Respects s op) (h : step s op = some t) : t.Quiet := by
  have hended : s.getConnectionState = .disconnected → t = {s with standing := false} → t.Quiet := by
    intro hs he
    subst he
    refine ⟨?_, hi.silent, hi.nothing⟩
    show s.getConnectionState = .connected ↔ false = true
    rw [hs]
    exact ⟨nofun, nofun⟩
  cases op with
  | connect answer =>
    by_cases hgood : answer.connection = .good ∧ answer.reading = .good
    · obtain ⟨hstate, hstanding, hnotified, hdue⟩ := step_connected hgood h
      refine ⟨by rw [hstate, hstanding]; exact ⟨fun _ => rfl, fun _ => rfl⟩, hnotified.trans hi.silent, ?_⟩
      rw [hdue, State.dueAfter, hi.nothing]
      split
      · rfl
      · next hchanged =>
        have hg : s.getConnectionState = .connected ∨ s.registered = [] := (if_pos hgood).mp hg
        rw [hg.resolve_left (Ne.symm hchanged)]
        rfl
    · exact hended ((if_neg hgood).mp hg) (step_ended h (.inr ⟨answer, rfl, hgood⟩))
  | disconnect => exact hended hg (step_ended h (.inl rfl))
  | registerConnectionCallback fn =>
    cases h
    exact ⟨hi.state, hi.silent, hi.nothing⟩

theorem step_unfaithful (hi : s.Quiet) (hg : ¬ Respects s op) (h : step s op = some t) : ¬ t.Faithful := by
  -- the state still says connected
  have hended : s.getConnectionState ≠ .disconnected → t = {s with standing := false} → ¬ t.Faithful := by
    intro hs he hf
    subst he
    have hconnected : s.getConnectionState = .connected := by
      cases hc : s.getConnectionState
      · exact absurd hc hs
      · rfl
    exact absurd (hf.state.mp hconnected) Bool.false_ne_true
  cases op with
  | connect answer =>
    by_cases hgood : answer.connection = .good ∧ answer.reading = .good
    · have hg : ¬ (s.getConnectionState = .connected ∨ s.registered = []) :=
        fun hr => hg ((if_pos hgood).mpr hr)
      obtain ⟨_, _, hnotified, hdue⟩ := step_connected hgood h
      intro hf
      have htold := hf.told
      rw [hnotified, hi.silent, hdue, State.dueAfter, if_neg fun hs => hg (.inl hs.symm), hi.nothing] at htold
      have hnone : s.registered.map (fun cb => (cb, ConnectionState.connected)) = [] := htold.nil_eq.symm
      exact hg (.inr (List.map_eq_nil_iff.mp hnone))
    · exact hended (fun hs => hg ((if_neg hgood).mpr hs)) (step_ended h (.inr ⟨answer, rfl, hgood⟩))
  | disconnect => exact hended hg (step_ended h (.inl rfl))
  | registerConnectionCallback fn => exact absurd trivial hg

/-- The client keeps what is registered, in order. -/
theorem step_registered (hi : s.connectionStateCallbacks = s.registered) (h : step s op = some t) :
    t.connectionStateCallbacks = t.registered := by
  cases op with
  | connect answer =>
    cases h
    exact hi
  | disconnect =>
    cases h
    exact hi
  | registerConnectionCallback fn =>
    cases h
    show s.connectionStateCallbacks ++ [fn] = s.registered ++ [fn]
    rw [hi]

end

/-- The state stands for the connection and every change of it was notified, throughout a
run, exactly if no disconnect and no failing connect comes after the client got connected
and no callback was registered before it did. Throughout a run `notifyConnectionState`
would call everyone registered, once and in order. -/
theorem connection_state_iff (ops : List Op) :
    ((∀ t ∈ Run.visited step .initial ops, t.Faithful) ↔
      ∀ e ∈ Run.edges step .initial ops, Respects e.1 e.2) ∧
    ∀ t ∈ Run.visited step .initial ops, ∀ state,
      notifyConnectionState t.connectionStateCallbacks state = t.registered.map fun cb => (cb, state) := by
  constructor
  · exact Run.holds_iff_guarded (I := State.Quiet) (P := State.Faithful) (G := Respects) (fun _ h => h.faithful)
      (fun _ _ _ => step_quiet) (fun _ _ _ => step_unfaithful) ⟨by decide, rfl, rfl⟩ ops
  · intro t ht state
    have hkept : t.connectionStateCallbacks = t.registered :=
      Run.holds_of_kept (I := fun s => s.connectionStateCallbacks = s.registered) (G := fun _ _ => True)
        (fun _ _ _ hs _ hstep => step_registered hs hstep) rfl (fun _ _ => trivial) t ht
    rw [hkept]
    rfl

/-- A client that disconnects still says it is connected. -/
theorem connected_after_disconnect : ¬ ∀ ops : List Op, ∀ t ∈ Run.visited step .initial ops, t.Faithful := by
  intro h
  let ops : List Op := [.connect ⟨.good, .good, []⟩, .disconnect]
  have hfinal : Run.final step .initial ops = some ⟨⟨.connected, []⟩, [], [], false, [], []⟩ := rfl
  have hstate := (h ops _ (Run.final_mem_visited hfinal)).state
  exact absurd (hstate.mp rfl) Bool.false_ne_true

end ModernOpc.Client.Connection
