import ModernOpc.Client.Namespaces
import ModernOpc.Nodes.VariableNode

/-! Reading and writing a variable from a client.

The client sees what the node's wrapper sees, and turns a refusal into an exception where
the wrapper returns false. The Variant that a read returns owns a cell of its own; where
the read throws, that cell is deleted on the way out. -/
namespace ModernOpc.Client

variable {σ : Type}

/-- `Client::read`. -/
def read (id : NodeId) (a : Access σ) (s : VariableState σ) :
    Option (Except OpcException Variant × VariableState σ) := do
  let (v, m) := s.memory.new
  let var := Variant.wrap v true
  let nodeId ← fromNodeId id
  let (status, s) ← readValue {s with memory := m} nodeId v a
  if status ≠ .good then
    let m ← var.destroy s.memory
    return (.error ⟨"Error on readValueAttribute"⟩, {s with memory := m})
  else return (.ok var, s)

/-- `Client::write`: the exception if it throws. -/
def write (id : NodeId) (var : Variant) (a : Access σ) (s : VariableState σ) :
    Option (Option OpcException × VariableState σ) := do
  let v ← s.memory.deref var.variant
  let nodeId ← fromNodeId id
  let (status, s) ← writeValue s nodeId v a
  if status ≠ .good then return (some ⟨"Error on writeValueAttribute"⟩, s) else return (none, s)

end ModernOpc.Client
