import ModernOpc.Library.MapM
import ModernOpc.Library.Run
import ModernOpc.Library.Simulation
import ModernOpc.Library.Brackets
import ModernOpc.Library.Custody
import ModernOpc.Library.Tuple
import ModernOpc.Library.Fields
import ModernOpc.Library.Heap
import ModernOpc.Types.NodeId
import ModernOpc.Types.Text
import ModernOpc.Types.Print
import ModernOpc.Types.Key
import ModernOpc.Variant.Value
import ModernOpc.Variant.Memory
import ModernOpc.Variant.Ownership
import ModernOpc.Variant.Writers
import ModernOpc.Variant.Equality
import ModernOpc.Variant.Assignment
import ModernOpc.Variant.RoundTrip
import ModernOpc.Variant.Semantics
import ModernOpc.Server.Callbacks
import ModernOpc.Server.Nodes
import ModernOpc.Server.Caches
import ModernOpc.Server.Contexts
import ModernOpc.Server.Bindings
import ModernOpc.Server.Pointers
import ModernOpc.Server.Running
import ModernOpc.Server.Namespaces
import ModernOpc.Server.Ranges
import ModernOpc.Server.CustomTypes
import ModernOpc.Nodes.VariableNode
import ModernOpc.Nodes.ObjectNode
import ModernOpc.Nodes.EventCalls
import ModernOpc.Nodes.Attributes
import ModernOpc.Nodes.Registers
import ModernOpc.Nodes.DataSources
import ModernOpc.Client.Namespaces
import ModernOpc.Client.Resolve
import ModernOpc.Client.Printed
import ModernOpc.Client.DataTypes
import ModernOpc.Client.Call
import ModernOpc.Client.Browse
import ModernOpc.Client.Connection
import ModernOpc.Client.Access
import ModernOpc.Methods.Call
import ModernOpc.Methods.Traits
import ModernOpc.Methods.Refusal
import ModernOpc.Methods.Remote
import ModernOpc.TypeGenerator.TypeGenerator
import ModernOpc.TypeGenerator.Termination
import ModernOpc.TypeGenerator.Conversions
import ModernOpc.TypeGenerator.ExtractNodeId
import ModernOpc.TypeGenerator.Backend
import ModernOpc.TypeGenerator.Syntax
