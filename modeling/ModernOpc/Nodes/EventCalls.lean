import ModernOpc.Nodes.ObjectNode

/-! What `ObjectNode::setEvent` calls on the server, and in what order.

`setUpEvent` returns as soon as the event cannot be created; `setEvent` reports its status
and triggers all the same, with an id that was never set. The calls that change anything
are listed up to where an id throws; `setEvent_calls` shows that they are those of
`setEvent`.

`failed_event_no_effect_iff`: nothing follows a failed creation, and only the node created
is triggered, exactly if the creation succeeds or an id throws before it. -/
namespace ModernOpc
open Library.Bytes

/-- A call that changes something; a write knows which of the writes it is. -/
inductive ServerCall where
  | createEvent (type : Ua.NodeId) (status : Ua.StatusCode) (outId : Ua.NodeId)
  | writeObjectProperty (k : Nat) (objectId : Ua.NodeId) (name : Bytes) (value : Ua.Value) (type : Ua.DataType)
  | writeValue (k : Nat) (node : Ua.NodeId) (value : Ua.Variant)
  | triggerEvent (eventNodeId originId : Ua.NodeId)
  deriving DecidableEq, Repr

def ServerCall.IsWrite : ServerCall → Prop
  | .writeObjectProperty .. | .writeValue .. => True
  | .createEvent .. | .triggerEvent .. => False

namespace OpcUa
variable (server : OpcUa)

/-- What a call does to the values. -/
def perform (values : Values) : ServerCall → Values
  | .writeObjectProperty k objectId name value type =>
    server.writeObjectProperty k objectId name value type values
  | .writeValue k node value => server.writeValue k node value values
  | .createEvent .. | .triggerEvent .. => values

/-- The loop over the fields: its calls, and whether it went through. -/
def fieldCalls (outId : Ua.NodeId) : Nat → List EventField → List ServerCall × Bool
  | _, [] => ([], true)
  | k, field :: rest =>
    match server.translatePathToNodeId (fromUaNodeId outId) field.1 (.ofInt 0 0) with
    | none => ([], false)
    | some (status, pathId) =>
      if status ≠ .good then fieldCalls outId (k + 1) rest
      else
        match fromNodeId pathId with
        | none => ([], false)
        | some node =>
          let (calls, done) := fieldCalls outId (k + 1) rest
          (.writeValue k node field.2 :: calls, done)

/-- The four defaults. -/
def defaultCalls (outId : Ua.NodeId) : List ServerCall :=
  [.writeObjectProperty 0 outId (literal "Time") (.dateTime server.now) (Ua.builtin .dateTime),
    .writeObjectProperty 1 outId (literal "Severity") (.uint16 100) (Ua.builtin .uint16),
    .writeObjectProperty 2 outId (literal "Message")
      (.localizedText ⟨[], Ua.string (literal "An event has been generated.")⟩) (Ua.builtin .localizedText),
    .writeObjectProperty 3 outId (literal "SourceName") (.string (Ua.string (literal "Server")))
      (Ua.builtin .string)]

/-- `ObjectNode::setUpEvent`: its calls, and the status and the event's node unless it throws. -/
def setUpEventCalls (event : BaseEventType) : List ServerCall × Option (Ua.StatusCode × Ua.NodeId) :=
  match fromNodeId event.eventType with
  | none => ([], none)
  | some type =>
    let (retval, outId) := server.createEvent type
    if retval ≠ .good then ([.createEvent type retval outId], some (retval, outId))
    else
      let (fields, done) := server.fieldCalls outId 4 event.eventFields
      (.createEvent type retval outId :: (server.defaultCalls outId ++ fields),
        if done then some (.good, outId) else none)

/-- `ObjectNode::setEvent` of the node `id`. -/
def setEventCalls (id : NodeId) (event : BaseEventType) : List ServerCall :=
  match event.setSourceNode id with
  | (_, false) => []
  | (event, true) =>
    let (calls, returned) := server.setUpEventCalls event
    match returned, fromNodeId id with
    | some (_, eventNodeId), some originId => calls ++ [.triggerEvent eventNodeId originId]
    | _, _ => calls

/-! ### The calls of `setEvent` -/

theorem writeFields_calls (outId : Ua.NodeId) (k : Nat) (fields : List EventField) (values : Values) :
    server.writeFields outId k fields values =
      if (server.fieldCalls outId k fields).2 then
        some ((server.fieldCalls outId k fields).1.foldl server.perform values)
      else none := by
  induction fields generalizing k values with
  | nil => rfl
  | cons field rest ih =>
    unfold writeFields fieldCalls
    cases server.translatePathToNodeId (fromUaNodeId outId) field.1 (.ofInt 0 0) with
    | none => rfl
    | some translated =>
      obtain ⟨status, pathId⟩ := translated
      simp only [Option.bind_eq_bind, Option.bind_some]
      split
      · exact ih (k + 1) values
      · cases fromNodeId pathId with
        | none => rfl
        | some node => exact ih (k + 1) (server.writeValue k node field.2 values)

theorem setUpEvent_calls (event : BaseEventType) (values : Values) :
    server.setUpEvent event values = (server.setUpEventCalls event).2.map fun returned =>
      (returned.1, returned.2, (server.setUpEventCalls event).1.foldl server.perform values) := by
  unfold setUpEvent setUpEventCalls
  cases fromNodeId event.eventType with
  | none => rfl
  | some type =>
    simp only [Option.bind_eq_bind, Option.bind_some]
    split
    · rfl
    · simp only [writeFields_calls]
      obtain ⟨fields, done⟩ := server.fieldCalls (server.createEvent type).2 4 event.eventFields
      cases done <;> rfl

/-- An event with its source node. -/
def sourced (event : BaseEventType) (origin : Ua.NodeId) : BaseEventType :=
  {event with
    eventFields := event.eventFields ++ [([BaseEventType.sourceNode], BaseEventType.idVariant origin)]}

theorem setSourceNode_eq (event : BaseEventType) (id : NodeId) :
    event.setSourceNode id = match fromNodeId id with
      | none => (event, false)
      | some origin => (sourced event origin, true) := by
  show event.emplaceBack _ (((fromNodeId id).map Ua.Value.nodeId).map _) = _
  cases fromNodeId id <;> rfl

/-! ### The order of the calls -/

theorem fieldCalls_write (outId : Ua.NodeId) (k : Nat) (fields : List EventField) :
    ∀ c ∈ (server.fieldCalls outId k fields).1, c.IsWrite := by
  induction fields generalizing k with
  | nil =>
    intro c hc
    cases hc
  | cons field rest ih =>
    unfold fieldCalls
    split
    · intro c hc
      cases hc
    · split
      · exact ih (k + 1)
      · split
        · intro c hc
          cases hc
        · intro c hc
          rcases List.mem_cons.mp hc with rfl | hc
          · trivial
          · exact ih (k + 1) c hc

/-- What `setUpEvent` calls: nothing, a creation that fails, or one and then writes. -/
theorem setUpEventCalls_cases (event : BaseEventType) :
    (fromNodeId event.eventType = none ∧ server.setUpEventCalls event = ([], none)) ∨
    ∃ type status outId, fromNodeId event.eventType = some type ∧ server.createEvent type = (status, outId) ∧
      ((status ≠ .good ∧
        server.setUpEventCalls event = ([.createEvent type status outId], some (status, outId))) ∨
      (status = .good ∧ ∃ (writes : List ServerCall) (done : Bool), (∀ c ∈ writes, c.IsWrite) ∧
        server.setUpEventCalls event =
          (.createEvent type status outId :: writes, if done then some (status, outId) else none))) := by
  unfold setUpEventCalls
  cases htype : fromNodeId event.eventType with
  | none => exact .inl ⟨rfl, rfl⟩
  | some type =>
    rcases hcreate : server.createEvent type with ⟨status, outId⟩
    refine .inr ⟨type, status, outId, rfl, hcreate, ?_⟩
    by_cases hgood : status = .good
    · subst hgood
      refine .inr ⟨rfl, server.defaultCalls outId ++ (server.fieldCalls outId 4 event.eventFields).1,
        (server.fieldCalls outId 4 event.eventFields).2, fun c hc => ?_, ?_⟩
      · rcases List.mem_append.mp hc with hc | hc
        · simp only [defaultCalls, List.mem_cons, List.not_mem_nil, or_false] at hc
          rcases hc with rfl | rfl | rfl | rfl <;> trivial
        · exact server.fieldCalls_write outId 4 event.eventFields c hc
      · simp [hcreate]
    · exact .inl ⟨hgood, by simp [hcreate, hgood]⟩

/-- Nothing is triggered while an event is set up. -/
theorem setUpEventCalls_not_trigger (event : BaseEventType) (e origin : Ua.NodeId) :
    .triggerEvent e origin ∉ (server.setUpEventCalls event).1 := by
  intro h
  rcases server.setUpEventCalls_cases event with
    ⟨_, heq⟩ | ⟨type, status, outId, _, _, ⟨_, heq⟩ | ⟨_, writes, done, hwrites, heq⟩⟩
  · rw [heq] at h
    cases h
  · rw [heq] at h
    cases List.mem_singleton.mp h
  · rw [heq] at h
    rcases List.mem_cons.mp h with h | h
    · cases h
    · exact hwrites _ h

/-- The trigger, if there is one, is the last call, on the values the writes before it leave. -/
theorem setEvent_calls (id : NodeId) (event : BaseEventType) (values : Values) (t : Trigger) :
    (setEvent server id event values).2 = some t ↔
      .triggerEvent t.eventNodeId t.originId ∈ server.setEventCalls id event ∧
        t.values = (server.setEventCalls id event).foldl server.perform values := by
  unfold setEvent setEventCalls
  rw [setSourceNode_eq]
  cases hid : fromNodeId id with
  | none => simp
  | some origin =>
    simp only [setUpEvent_calls]
    have hnone := server.setUpEventCalls_not_trigger (sourced event origin)
    generalize server.setUpEventCalls (sourced event origin) = r at hnone ⊢
    obtain ⟨calls, _ | ⟨status, e⟩⟩ := r
    · simp [hnone]
    · obtain ⟨e', origin', values'⟩ := t
      have hlast : (calls ++ [ServerCall.triggerEvent e origin]).foldl server.perform values =
          calls.foldl server.perform values := List.foldl_append
      have hmem : ServerCall.triggerEvent e' origin' ∈ calls ++ [.triggerEvent e origin] ↔
          e' = e ∧ origin' = origin := by
        simp [hnone e' origin']
      show some (Trigger.mk e origin (calls.foldl server.perform values)) = some _ ↔ _
      rw [hmem, hlast, Option.some.injEq, Trigger.mk.injEq, and_assoc, eq_comm (a := e), eq_comm (a := origin),
        eq_comm (b := values')]

/-- Nothing follows a creation that fails, and only a node that was created is triggered. -/
structure NoFurtherEffect (calls : List ServerCall) : Prop where
  failed : ∀ before type status outId after, calls = before ++ .createEvent type status outId :: after →
    status ≠ .good → after = []
  triggered : ∀ e origin, .triggerEvent e origin ∈ calls → ∃ type, .createEvent type .good e ∈ calls

/-- After a creation that succeeds, writes and a trigger of its node are no further effect. -/
theorem noFurtherEffect_created {type outId origin : Ua.NodeId} {rest : List ServerCall}
    (hrest : ∀ c ∈ rest, c.IsWrite ∨ c = .triggerEvent outId origin) :
    NoFurtherEffect (.createEvent type .good outId :: rest) where
  failed before type' status outId' after heq hbad := by
    cases before with
    | nil =>
      cases heq
      exact absurd rfl hbad
    | cons c before =>
      have hmem : ServerCall.createEvent type' status outId' ∈ rest := by
        rw [(List.cons.inj heq).2]
        exact List.mem_append_right _ (List.mem_cons_self ..)
      rcases hrest _ hmem with hwrite | htrigger
      · exact hwrite.elim
      · cases htrigger
  triggered e origin' hmem := by
    rcases List.mem_cons.mp hmem with hmem | hmem
    · cases hmem
    · rcases hrest _ hmem with hwrite | htrigger
      · exact hwrite.elim
      · cases htrigger
        exact ⟨type, List.mem_cons_self ..⟩

/-- A setting that does not throw before the creation calls it first. -/
theorem setEventCalls_created {id : NodeId} {event : BaseEventType} {origin type : Ua.NodeId}
    (hid : fromNodeId id = some origin) (htype : fromNodeId event.eventType = some type) :
    ∃ rest, server.setEventCalls id event =
        .createEvent type (server.createEvent type).1 (server.createEvent type).2 :: rest ∧
      (((server.createEvent type).1 ≠ .good ∧ rest = [.triggerEvent (server.createEvent type).2 origin]) ∨
      ((server.createEvent type).1 = .good ∧ ∀ c ∈ rest,
        c.IsWrite ∨ c = .triggerEvent (server.createEvent type).2 origin)) := by
  unfold setEventCalls
  rw [setSourceNode_eq, hid]
  rcases server.setUpEventCalls_cases (sourced event origin) with
    ⟨hnone, _⟩ | ⟨type', status, outId, htype', hcreate, hcalls⟩
  · cases hnone.symm.trans htype
  cases htype'.symm.trans htype
  rw [hcreate]
  rcases hcalls with ⟨hbad, heq⟩ | ⟨hgood, writes, done, hwrites, heq⟩
  · refine ⟨[.triggerEvent outId origin], ?_, .inl ⟨hbad, rfl⟩⟩
    simp only [heq]
    rfl
  · cases done with
    | false =>
      refine ⟨writes, ?_, .inr ⟨hgood, fun c hc => .inl (hwrites c hc)⟩⟩
      simp only [heq]
      rfl
    | true =>
      refine ⟨writes ++ [.triggerEvent outId origin], ?_, .inr ⟨hgood, fun c hc => ?_⟩⟩
      · simp only [heq]
        rfl
      · rcases List.mem_append.mp hc with hc | hc
        · exact .inl (hwrites c hc)
        · exact .inr (List.mem_singleton.mp hc)

theorem setEventCalls_thrown {id : NodeId} {event : BaseEventType}
    (h : fromNodeId id = none ∨ fromNodeId event.eventType = none) : server.setEventCalls id event = [] := by
  unfold setEventCalls
  rw [setSourceNode_eq]
  cases hid : fromNodeId id with
  | none => rfl
  | some origin =>
    have htype : fromNodeId (sourced event origin).eventType = none :=
      h.resolve_left (by rw [hid]; exact Option.some_ne_none _)
    have hcalls : server.setUpEventCalls (sourced event origin) = ([], none) := by
      unfold setUpEventCalls
      rw [htype]
    simp only [hcalls]

theorem noFurtherEffect_iff (id : NodeId) (event : BaseEventType) :
    NoFurtherEffect (server.setEventCalls id event) ↔
      ∀ origin type, fromNodeId id = some origin → fromNodeId event.eventType = some type →
        (server.createEvent type).1 = .good := by
  refine ⟨fun h origin type hid htype => ?_, fun h => ?_⟩
  · obtain ⟨rest, hcalls, ⟨hbad, hrest⟩ | ⟨hgood, _⟩⟩ := server.setEventCalls_created hid htype
    · have hnil := h.failed [] _ _ _ rest hcalls hbad
      rw [hrest] at hnil
      cases hnil
    · exact hgood
  · by_cases hthrown : fromNodeId id = none ∨ fromNodeId event.eventType = none
    · rw [server.setEventCalls_thrown hthrown]
      refine ⟨fun before type status outId after hcalls => ?_, fun e origin hmem => by cases hmem⟩
      cases before <;> cases hcalls
    · obtain ⟨hid, htype⟩ := not_or.mp hthrown
      obtain ⟨origin, hid⟩ := Option.ne_none_iff_exists'.mp hid
      obtain ⟨type, htype⟩ := Option.ne_none_iff_exists'.mp htype
      have hgood := h origin type hid htype
      obtain ⟨rest, hcalls, ⟨hbad, _⟩ | ⟨_, hrest⟩⟩ := server.setEventCalls_created hid htype
      · exact absurd hgood hbad
      rw [hcalls, hgood]
      exact noFurtherEffect_created hrest

/-- Nothing follows a failed creation of an event, and only the node created is triggered,
exactly if the creation succeeds or the id of the node or of the event type throws
before it. -/
theorem failed_event_no_effect_iff (id : NodeId) (event : BaseEventType) :
    (NoFurtherEffect (server.setEventCalls id event) ↔
      ∀ origin type, fromNodeId id = some origin → fromNodeId event.eventType = some type →
        (server.createEvent type).1 = .good) ∧
    ∀ values t, (setEvent server id event values).2 = some t ↔
      .triggerEvent t.eventNodeId t.originId ∈ server.setEventCalls id event ∧
        t.values = (server.setEventCalls id event).foldl server.perform values :=
  ⟨server.noFurtherEffect_iff id event, server.setEvent_calls id event⟩

end OpcUa

/-- A server that creates no event. -/
def refusingServer : OpcUa where
  now := 0
  createEvent _ := (.badNoData, ⟨0, .numeric 0⟩)
  property _ _ := none
  translateBrowsePathToNodeIds _ _ := ⟨.badNoData, []⟩
  writeStatus _ _ _ := .badNoData

/-- An event that could not be created is triggered. -/
theorem uncreated_event_triggered : ¬ ∀ (server : OpcUa) (id : NodeId) (event : BaseEventType),
    OpcUa.NoFurtherEffect (server.setEventCalls id event) := by
  intro h
  have hgood := (refusingServer.noFurtherEffect_iff (.ofInt 1 6) .newTransition).mp (h _ _ _) _ _ rfl rfl
  exact absurd hgood (by decide)

end ModernOpc
