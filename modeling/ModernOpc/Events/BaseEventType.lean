import ModernOpc.Variant.Value

/-! The event classes: an event type and a list of fields that only grows.

A setter that encodes a value throws where the encoding does, and then adds no field. -/
namespace ModernOpc
open Library.Bytes

/-- A browse path and the value to write there. -/
abbrev EventField := List QualifiedName × Ua.Variant

/-- `BaseEventType`; a `TransitionEventType` is one with another event type. -/
structure BaseEventType where
  eventType : NodeId
  eventFields : List EventField

namespace BaseEventType

/-- `BaseEventType(const NodeId &eventTypeId)`. -/
def new (eventTypeId : NodeId) : BaseEventType := ⟨eventTypeId, []⟩

/-- `TransitionEventType()`. -/
def newTransition : BaseEventType := new (.ofInt 0 2311)

def sourceNode : QualifiedName := ⟨0, literal "SourceNode"⟩
/-- `eventFields.emplace_back`, after the value was encoded: the event, and whether the
call returned. -/
def emplaceBack (self : BaseEventType) (path : List QualifiedName) (var : Option Ua.Variant) :
    BaseEventType × Bool :=
  match var with
  | some var => ({self with eventFields := self.eventFields ++ [(path, var)]}, true)
  | none => (self, false)

def setSourceNode (self : BaseEventType) (id : NodeId) : BaseEventType × Bool :=
  self.emplaceBack [sourceNode] (toUAVariant (.scalar .nodeId) id)

/-- An id in a Variant. -/
def idVariant (id : Ua.NodeId) : Ua.Variant := .setScalarCopy (.nodeId id) Scalar.nodeId.dataType

end BaseEventType

end ModernOpc
