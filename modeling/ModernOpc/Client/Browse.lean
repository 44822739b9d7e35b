import ModernOpc.Client.Namespaces
import ModernOpc.Types.NodeId
import ModernOpc.Types.Text
import Mathlib.Data.List.Forall2

/-! Browsing a node.

`browse` asks for the forward hierarchical references of a node and converts those of the
first page. It looks at the result of the service only: not at the status of the node's
own result, and not at a continuation point, behind which a server keeps the rest.

The Browse service is a parameter; what is relied on is that a node's result with a good
status has, over its pages, the references the description asks for (`Serves`).
`browse_complete_iff`: all forward hierarchical references of the node are returned, or an
`OpcException` is thrown and in every bad case, exactly if the request can be built and the
server refuses it, or answers it without a bad status, with one page and no variable type,
for an id without a zero byte. -/
namespace ModernOpc.Client

/-! ### What goes over the wire -/

/-- `UA_NodeClass`: any number may arrive. -/
abbrev NodeClass := UInt32

namespace NodeClass

@[match_pattern] def unspecified : NodeClass := 0
@[match_pattern] def object : NodeClass := 1
@[match_pattern] def «variable» : NodeClass := 2
@[match_pattern] def method : NodeClass := 4
@[match_pattern] def objectType : NodeClass := 8
@[match_pattern] def variableType : NodeClass := 16
@[match_pattern] def referenceType : NodeClass := 32
@[match_pattern] def dataType : NodeClass := 64
@[match_pattern] def view : NodeClass := 128

end NodeClass

/-- `UA_BrowseDescription`; what `UA_BrowseDescription_new` leaves at zero is the forward
direction and no mask of node classes. -/
structure BrowseDescription where
  nodeId : Ua.NodeId
  browseDirection : UInt32
  referenceTypeId : Ua.NodeId
  includeSubtypes : Bool
  nodeClassMask : UInt32
  resultMask : UInt32
  deriving DecidableEq, Repr

/-- `UA_BrowseRequest`. -/
structure BrowseRequest where
  requestedMaxReferencesPerNode : UInt32
  nodesToBrowse : List BrowseDescription
  deriving DecidableEq, Repr

/-- What `browse` reads of a `UA_ReferenceDescription`. -/
structure ReferenceDescription where
  nodeId : Ua.NodeId
  browseName : Ua.QualifiedName
  nodeClass : NodeClass
  deriving DecidableEq, Repr

/-- A `UA_BrowseResult`, with the pages its continuation point leads to. -/
structure NodeResult where
  statusCode : Ua.StatusCode
  references : List ReferenceDescription
  later : List (List ReferenceDescription)
  deriving DecidableEq, Repr

/-- `UA_BrowseResponse`. -/
structure BrowseResponse where
  serviceResult : Ua.StatusCode
  results : List NodeResult
  deriving DecidableEq, Repr

/-! ### The service -/

/-- A reference of a node, with its type and direction. -/
structure Reference where
  referenceTypeId : Ua.NodeId
  isForward : Bool
  target : ReferenceDescription
  deriving DecidableEq, Repr

/-- What a server browses: the references of each node, in its order, and which reference
types are subtypes of which. -/
structure AddressSpace where
  references : Ua.NodeId → List Reference
  isSubtype : Ua.NodeId → Ua.NodeId → Bool

/-- `HierarchicalReferences` of namespace 0. -/
def hierarchicalReferences : Ua.NodeId := ⟨0, .numeric 33⟩

/-- The forward hierarchical references of a node. -/
def AddressSpace.hierarchical (space : AddressSpace) (node : Ua.NodeId) : List ReferenceDescription :=
  ((space.references node).filter fun ref => ref.isForward &&
    (ref.referenceTypeId == hierarchicalReferences ||
      space.isSubtype ref.referenceTypeId hierarchicalReferences)).map (·.target)

/-- Whether a description asks for a reference; no reference type means every type, no mask
every class. -/
def AddressSpace.asks (space : AddressSpace) (d : BrowseDescription) (ref : Reference) : Bool :=
  (match d.browseDirection with
    | 0 => ref.isForward
    | 1 => !ref.isForward
    | _ => true) &&
  (d.referenceTypeId == ⟨0, .numeric 0⟩ || ref.referenceTypeId == d.referenceTypeId ||
    d.includeSubtypes && space.isSubtype ref.referenceTypeId d.referenceTypeId) &&
  (d.nodeClassMask == 0 || d.nodeClassMask &&& ref.target.nodeClass != 0)

/-- A reference with the fields that the mask selects: `UA_BROWSERESULTMASK_NODECLASS` is 4,
`UA_BROWSERESULTMASK_BROWSENAME` 8. -/
def ReferenceDescription.masked (resultMask : UInt32) (ref : ReferenceDescription) : ReferenceDescription :=
  { nodeId := ref.nodeId
    browseName := if resultMask &&& 8 = 0 then ⟨0, []⟩ else ref.browseName
    nodeClass := if resultMask &&& 4 = 0 then .unspecified else ref.nodeClass }

/-- What a description asks for. -/
def AddressSpace.asked (space : AddressSpace) (d : BrowseDescription) : List ReferenceDescription :=
  ((space.references d.nodeId).filter (space.asks d)).map (·.target.masked d.resultMask)

/-- All references of a result, in the order of the pages. -/
def NodeResult.all (result : NodeResult) : List ReferenceDescription :=
  result.references ++ result.later.flatten

/-- The Browse service on an address space: a request that is not refused has a result for
each description, and one with a good status has all that is asked for, on some pages. -/
def Serves (space : AddressSpace) (server : BrowseRequest → BrowseResponse) : Prop :=
  ∀ bReq, (server bReq).serviceResult = .good →
    List.Forall₂ (fun d result => result.statusCode.Good → result.all = space.asked d)
      bReq.nodesToBrowse (server bReq).results

/-! ### The client -/

inductive NodeType where
  | unknown | object | objectType | variable | variableType | dataType | referenceType | method | view
  deriving DecidableEq, Repr

/-- `getNodeType`. -/
def getNodeType (kind : NodeClass) : NodeType :=
  match kind with
  | .variable => .variable
  | .object => .object
  | .method => .method
  | .objectType => .objectType
  | .referenceType => .referenceType
  | .dataType => .dataType
  | .view => .view
  | .unspecified => .unknown
  | _ => .unknown

structure BrowseResult where
  m_id : NodeId
  m_qn : QualifiedName
  m_type : NodeType
  deriving DecidableEq, Repr

/-- The inner loop. -/
def collectReferences : List ReferenceDescription → List BrowseResult → List BrowseResult
  | [], results => results
  | ref :: rest, results =>
    collectReferences rest
      (results ++ [⟨fromUaNodeId ref.nodeId, fromUAQualifiedName ref.browseName, getNodeType ref.nodeClass⟩])

/-- The outer loop. -/
def collectResults : List NodeResult → List BrowseResult → List BrowseResult
  | [], results => results
  | result :: rest, results => collectResults rest (collectReferences result.references results)

/-- The request for a node: no maximum, and `UA_NS0ID_HIERARCHICALREFERENCES` with its
subtypes. -/
def browseRequest (id : NodeId) : Option BrowseRequest := do
  let startId ← fromNodeId id
  return ⟨0, [⟨startId, 0, ⟨0, .numeric 33⟩, true, 0, 63⟩]⟩

/-- `Client::browse`; no result where `fromNodeId` throws. -/
def browse (server : BrowseRequest → BrowseResponse) (id : NodeId) :
    Option (Except OpcException (List BrowseResult)) := do
  let bReq ← browseRequest id
  let bResp := server bReq
  if bResp.serviceResult ≠ .good then return .error ⟨"error on browse"⟩
  else return .ok (collectResults bResp.results [])

/-- A reference with its class, by `type`. -/
def convertBy (type : NodeClass → NodeType) (ref : ReferenceDescription) : BrowseResult :=
  ⟨fromUaNodeId ref.nodeId, fromUAQualifiedName ref.browseName, type ref.nodeClass⟩

theorem collectReferences_eq (refs : List ReferenceDescription) (results : List BrowseResult) :
    collectReferences refs results = results ++ refs.map (convertBy getNodeType) := by
  induction refs generalizing results with
  | nil => exact (List.append_nil _).symm
  | cons ref rest ih =>
    rw [collectReferences, ih, List.append_assoc, List.map_cons]
    rfl

/-- What is collected are the references of the first pages. -/
theorem collectResults_eq (answered : List NodeResult) (results : List BrowseResult) :
    collectResults answered results =
      results ++ (answered.flatMap (·.references)).map (convertBy getNodeType) := by
  induction answered generalizing results with
  | nil => exact (List.append_nil _).symm
  | cons result rest ih =>
    rw [collectResults, ih, collectReferences_eq, List.flatMap_cons, List.map_append, List.append_assoc]

theorem browse_refused {server : BrowseRequest → BrowseResponse} {id : NodeId} {bReq : BrowseRequest}
    (hreq : browseRequest id = some bReq) (h : (server bReq).serviceResult ≠ .good) :
    browse server id = some (.error ⟨"error on browse"⟩) := by
  simp only [browse, hreq, Option.bind_eq_bind, Option.bind_some, if_pos h, Option.pure_def]

theorem browse_answered {server : BrowseRequest → BrowseResponse} {id : NodeId} {bReq : BrowseRequest}
    (hreq : browseRequest id = some bReq) (h : (server bReq).serviceResult = .good) :
    browse server id =
      some (.ok (((server bReq).results.flatMap (·.references)).map (convertBy getNodeType))) := by
  simp only [browse, hreq, Option.bind_eq_bind, Option.bind_some, if_neg (not_not.mpr h), Option.pure_def,
    collectResults_eq, List.nil_append]

/-! ### What is asked for -/

/-- The request asks for the forward hierarchical references. -/
theorem asked_browse (space : AddressSpace) (node : Ua.NodeId) :
    space.asked ⟨node, 0, ⟨0, .numeric 33⟩, true, 0, 63⟩ = space.hierarchical node := by
  have hnull : (hierarchicalReferences == (⟨0, .numeric 0⟩ : Ua.NodeId)) = false := by decide
  have hasks : space.asks ⟨node, 0, hierarchicalReferences, true, 0, 63⟩ = fun ref => ref.isForward &&
      (ref.referenceTypeId == hierarchicalReferences ||
        space.isSubtype ref.referenceTypeId hierarchicalReferences) := by
    funext ref
    simp only [AddressSpace.asks, hnull, Bool.false_or, Bool.true_and, beq_self_eq_true, Bool.true_or,
      Bool.and_true]
  change ((space.references node).filter (space.asks ⟨node, 0, hierarchicalReferences, true, 0, 63⟩)).map
    (·.target.masked 63) = _
  rw [hasks]
  rfl

/-- Where the request is not refused, the node has one result. -/
theorem Serves.result {space : AddressSpace} {server : BrowseRequest → BrowseResponse} {id : NodeId}
    {bReq : BrowseRequest} (h : Serves space server) (hreq : browseRequest id = some bReq)
    (hgood : (server bReq).serviceResult = .good) :
    ∃ node result, fromNodeId id = some node ∧ (server bReq).results = [result] ∧
      (result.statusCode.Good → result.all = space.hierarchical node) := by
  obtain ⟨node, hnode, hbReq⟩ := Option.bind_eq_some_iff.mp hreq
  cases hbReq
  obtain ⟨result, _, hresult, hnone, hall⟩ := List.forall₂_cons_left_iff.mp (h _ hgood)
  cases hnone
  exact ⟨node, result, hnode, hall, fun hstatus => (hresult hstatus).trans (asked_browse space node)⟩

/-! ### Complete results -/

/-- The type of the same name. -/
def NodeClass.type (kind : NodeClass) : NodeType :=
  match kind with
  | .variableType => .variableType
  | kind => getNodeType kind

theorem getNodeType_eq_iff (kind : NodeClass) : getNodeType kind = kind.type ↔ kind ≠ .variableType := by
  unfold NodeClass.type
  split
  · exact ⟨fun h => NodeType.noConfusion h, fun h => absurd rfl h⟩
  · next hne => exact ⟨fun _ => hne, fun _ => rfl⟩

/-- A browse gives all forward hierarchical references of the node or throws, and it throws
if a status is bad. -/
def Complete (space : AddressSpace) (server : BrowseRequest → BrowseResponse) (id : NodeId) : Prop :=
  ∃ bReq outcome, browseRequest id = some bReq ∧ browse server id = some outcome ∧
    (∀ results, outcome = .ok results → ∃ node, fromUaNodeId node = id ∧
      results = (space.hierarchical node).map (convertBy NodeClass.type)) ∧
    ((server bReq).serviceResult.Bad ∨ (∃ result ∈ (server bReq).results, result.statusCode.Bad) →
      ∃ e, outcome = .error e)

/-- The first page lists the references `refs`, one for one and with types of their own. -/
def NodeResult.Lists (result : NodeResult) (refs : List ReferenceDescription) : Prop :=
  List.Forall₂ (fun given own => given.nodeId = own.nodeId ∧ given.browseName = own.browseName ∧
    getNodeType given.nodeClass = own.nodeClass.type) result.references refs

/-- What the result for a node must be: its status is not bad; nothing follows on later
pages, and no reference is to a variable type. Where the request names another node or the
server does not vouch for the result, it must list the node's references by chance. -/
structure Plain (space : AddressSpace) (id : NodeId) (result : NodeResult) : Prop where
  status : ¬ result.statusCode.Bad
  whole : if id.ZeroFree ∧ result.statusCode.Good then
      result.later.flatten = [] ∧ ∀ ref ∈ result.references, ref.nodeClass ≠ .variableType
    else ∃ node, fromUaNodeId node = id ∧ result.Lists (space.hierarchical node)

theorem lists_iff (result : NodeResult) (refs : List ReferenceDescription) :
    result.references.map (convertBy getNodeType) = refs.map (convertBy NodeClass.type) ↔
      result.Lists refs := by
  rw [← List.forall₂_eq_eq_eq, List.forall₂_map_left_iff, List.forall₂_map_right_iff]
  have hname : ∀ {a b : Ua.QualifiedName}, fromUAQualifiedName a = fromUAQualifiedName b ↔ a = b :=
    ⟨fromUAQualifiedName_injective, congrArg _⟩
  have hnode : ∀ {a b : Ua.NodeId}, fromUaNodeId a = fromUaNodeId b ↔ a = b :=
    ⟨NodeId.fromUaNodeId_injective, congrArg _⟩
  simp only [convertBy, BrowseResult.mk.injEq, hname, hnode, NodeResult.Lists]

/-- The first page is everything exactly if nothing follows it and each class has its own
type. -/
theorem lists_all_iff (result : NodeResult) :
    result.Lists result.all ↔
      result.later.flatten = [] ∧ ∀ ref ∈ result.references, ref.nodeClass ≠ .variableType := by
  constructor
  · intro h
    have hlater : result.later.flatten = [] := by
      have hlength := h.length_eq
      rw [NodeResult.all, List.length_append] at hlength
      exact List.length_eq_zero_iff.mp (by omega)
    have hmap := (lists_iff result result.all).mpr h
    rw [NodeResult.all, hlater, List.append_nil] at hmap
    refine ⟨hlater, fun ref hmem => (getNodeType_eq_iff _).mp ?_⟩
    exact congrArg BrowseResult.m_type (List.map_inj_left.mp hmap ref hmem)
  · intro ⟨hlater, hkind⟩
    rw [← lists_iff, NodeResult.all, hlater, List.append_nil]
    refine List.map_congr_left fun ref hmem => ?_
    rw [convertBy, (getNodeType_eq_iff _).mpr (hkind ref hmem)]
    rfl

/-- An id without a zero byte is sent as it is. -/
theorem node_of_zeroFree {id : NodeId} {node : Ua.NodeId} (hnode : fromNodeId id = some node)
    (hz : id.ZeroFree) : fromUaNodeId node = id := by
  obtain ⟨node', hnode', htrunc⟩ := NodeId.fromUaNodeId_fromNodeId (NodeId.matching_of_fromNodeId hnode)
  rw [hnode, Option.some.injEq] at hnode'
  rw [hnode', htrunc, NodeId.truncated_eq_self.mpr hz]

/-- What is returned is what the node has exactly if the result is as it must be. -/
theorem returned_iff (space : AddressSpace) {id : NodeId} {node : Ua.NodeId} {result : NodeResult}
    (hnode : fromNodeId id = some node)
    (hall : result.statusCode.Good → result.all = space.hierarchical node) :
    (∃ own, fromUaNodeId own = id ∧ result.references.map (convertBy getNodeType) =
        (space.hierarchical own).map (convertBy NodeClass.type)) ↔
      if id.ZeroFree ∧ result.statusCode.Good then
        result.later.flatten = [] ∧ ∀ ref ∈ result.references, ref.nodeClass ≠ .variableType
      else ∃ own, fromUaNodeId own = id ∧ result.Lists (space.hierarchical own) := by
  simp only [lists_iff]
  split
  · next h =>
    have hown := node_of_zeroFree hnode h.1
    rw [← lists_all_iff, hall h.2]
    constructor
    · intro ⟨own, hid, hlists⟩
      rwa [NodeId.fromUaNodeId_injective (hid.trans hown.symm)] at hlists
    · intro hlists
      exact ⟨node, hown, hlists⟩
  · exact Iff.rfl

/-- A browse is complete exactly if the id can be sent and the service is refused, or the
node's result is plain. -/
theorem browse_complete_iff (space : AddressSpace) (server : BrowseRequest → BrowseResponse) (id : NodeId)
    (hserves : Serves space server) :
    Complete space server id ↔ ∃ bReq, browseRequest id = some bReq ∧
      ((server bReq).serviceResult ≠ .good ∨ ∀ result ∈ (server bReq).results, Plain space id result) := by
  constructor
  · intro ⟨bReq, outcome, hreq, hbrowse, hall, hthrow⟩
    refine ⟨bReq, hreq, ?_⟩
    by_cases hgood : (server bReq).serviceResult = .good
    · obtain ⟨node, result, hnode, hresults, hwhole⟩ := hserves.result hreq hgood
      rw [browse_answered hreq hgood, Option.some.injEq, hresults, List.flatMap_singleton] at hbrowse
      subst hbrowse
      refine .inr fun result' hmem => ?_
      rw [hresults, List.mem_singleton] at hmem
      subst hmem
      refine ⟨fun hbad => ?_, (returned_iff space hnode hwhole).mp (hall _ rfl)⟩
      obtain ⟨e, he⟩ := hthrow (.inr ⟨result', hresults ▸ List.mem_singleton_self _, hbad⟩)
      cases he
    · exact .inl hgood
  · intro ⟨bReq, hreq, h⟩
    by_cases hgood : (server bReq).serviceResult = .good
    · obtain ⟨node, result, hnode, hresults, hwhole⟩ := hserves.result hreq hgood
      have hplain : Plain space id result :=
        h.resolve_left (not_not.mpr hgood) result (hresults ▸ List.mem_singleton_self _)
      refine ⟨bReq, _, hreq, browse_answered hreq hgood, fun results hok => ?_, fun hbad => ?_⟩
      · rw [← Except.ok.inj hok, hresults, List.flatMap_singleton]
        exact (returned_iff space hnode hwhole).mpr hplain.whole
      · rcases hbad with hbad | ⟨result', hmem, hbad⟩
        · rw [hgood] at hbad
          exact absurd hbad Ua.StatusCode.good_not_bad
        · rw [hresults, List.mem_singleton] at hmem
          exact absurd (hmem ▸ hbad) hplain.status
    · exact ⟨bReq, _, hreq, browse_refused hreq hgood, fun _ hok => (by cases hok), fun _ => ⟨_, rfl⟩⟩

/-- An address space where every node has one reference, to the object `S`. -/
def oneReference : AddressSpace :=
  ⟨fun _ => [⟨⟨0, .numeric 35⟩, true, ⟨⟨0, .numeric 2253⟩, ⟨0, [0x53]⟩, .object⟩⟩],
    fun type supertype => type == ⟨0, .numeric 35⟩ && supertype == hierarchicalReferences⟩

/-- A server that answers on one page gives the references of the folder. -/
theorem browse_complete_one_page :
    Complete oneReference (fun bReq =>
      ⟨.good, bReq.nodesToBrowse.map fun d => ⟨.good, oneReference.asked d, []⟩⟩) (.ofInt 0 85) := by
  refine (browse_complete_iff oneReference _ (.ofInt 0 85) fun bReq _ => ?_).mpr ⟨_, rfl, .inr ?_⟩
  · rw [List.forall₂_map_right_iff, List.forall₂_same]
    exact fun d _ _ => List.append_nil _
  · intro result hmem
    rw [List.mem_singleton.mp hmem]
    refine ⟨by decide, ?_⟩
    rw [if_pos ⟨by decide, by decide⟩]
    exact ⟨rfl, by decide⟩

/-- A server that keeps the one reference of a node for the second page. -/
theorem browse_loses_page :
    ¬ ∀ (space : AddressSpace) (server : BrowseRequest → BrowseResponse) (id : NodeId),
      Serves space server → Complete space server id := by
  intro h
  let server : BrowseRequest → BrowseResponse := fun bReq =>
    ⟨.good, bReq.nodesToBrowse.map fun d => ⟨.good, [], [oneReference.asked d]⟩⟩
  have hserves : Serves oneReference server := by
    intro bReq _
    rw [List.forall₂_map_right_iff, List.forall₂_same]
    exact fun d _ _ => List.append_nil _
  obtain ⟨bReq, outcome, hreq, hbrowse, hall, _⟩ := h oneReference server (.ofInt 0 85) hserves
  rw [browse_answered hreq rfl, Option.some.injEq] at hbrowse
  subst hbrowse
  cases hreq
  obtain ⟨node, hid, hresults⟩ := hall _ rfl
  cases hresults

end ModernOpc.Client
