import ModernOpc.Library.MapM
import ModernOpc.TypeGenerator.ExtractNodeId
import ModernOpc.TypeGenerator.TypeGenerator

/-! From nodesets to generated classes: what `main` does.

The loader calls `addNode` for each node of each nodeset, in its order. A data type becomes
an entry of the table, which starts with the built-in types and keeps the first entry of an
id; a data type without a definition is dereferenced all the same. The generator is then
asked for one type, and the table is not asked whether it has it.

`load_iff`: the table is built exactly if every data type has a definition and readable
ids, and then holds the built-in types and the first definition of each other id.
`main_generates`: what comes out for any nodesets that load. -/
namespace ModernOpc.Gen
open Library Relation

/-! ### What the loader hands over -/

/-- `TNodeClass`. -/
inductive TNodeClass where
  | object | objectType | variable | dataType | method | referenceType | variableType | view
  deriving DecidableEq, Repr

/-- A field of a definition; a null `idString` is `none`. -/
structure TDefinitionField where
  name : String
  valueRank : Int32
  dataType : Option (List Char)
  value : Int32
  deriving DecidableEq, Repr

structure TDataTypeDefinition where
  isEnum : Bool
  fields : List TDefinitionField
  deriving DecidableEq, Repr

/-- A node, with the definition that only a data type may have. -/
structure TNode where
  nodeClass : TNodeClass
  id : Option (List Char)
  browseName : String
  definition : Option TDataTypeDefinition
  deriving DecidableEq, Repr

/-- A nodeset: the nodes the loader calls back for, and whether it was loaded. -/
structure Nodeset where
  nodes : List TNode
  loaded : Bool
  deriving DecidableEq, Repr

/-! ### The table -/

/-- `types->insert`: an older entry stays. -/
def TypeTable.insert (types : TypeTable) (key : NodeId) (type : DataType) : TypeTable :=
  if (types.find key).isSome then types else types ++ [(key, type)]

def structureField (field : TDefinitionField) : Option StructureDefinitionField := do
  return ⟨field.name, field.valueRank, ← extractNodeId field.dataType⟩

def enumField (field : TDefinitionField) : Option EnumDefinitionField := do
  return {toDataTypeDefinitionField := ← structureField field, value := field.value}

/-- The type that `addNode` makes of a data type. -/
def makeType (n : TNode) : Option DataType := do
  let definition ← n.definition
  let id ← extractNodeId n.id
  if definition.isEnum then return .enum ⟨n.browseName, id, ← definition.fields.mapM enumField⟩
  else return .struct ⟨n.browseName, id, ← definition.fields.mapM structureField⟩

/-- `addNode`. There is no result where a definition is null or an id cannot be read. -/
def addNode (types : TypeTable) (node : TNode) : Option TypeTable :=
  if node.nodeClass = .dataType then do
    let type ← makeType node
    return types.insert type.id type
  else some types

/-- The types `main` inserts before it loads anything. -/
def builtinTypes : TypeTable :=
  [(1, "bool"), (2, "char"), (3, "unsigned char"), (4, "int16_t"), (5, "uint16_t"), (6, "int32_t"),
    (7, "uint32_t"), (8, "int64_t"), (9, "uint64_t"), (10, "float"), (11, "double"), (12, "std::string"),
    (13, "uint64_t"), (17, "NodeId"), (20, "QualifiedName"), (21, "LocalizedText")].map
    fun (i, name) => (⟨0, .numeric i⟩, .base ⟨name, ⟨0, .numeric i⟩⟩)

/-- The loop over the nodesets: the table, and whether all were loaded. -/
def loadAll : List Nodeset → TypeTable → Option (TypeTable × Bool)
  | [], types => some (types, true)
  | file :: rest, types => do
    let types ← Run.final addNode types file.nodes
    if file.loaded then loadAll rest types else return (types, false)

/-- The type the generator is asked for. -/
def rootId : NodeId := ⟨0, .numeric 308⟩

/-- `main`: what it returns, and the generator. `types[…]` makes an empty entry where there
is none, and that is dereferenced. -/
def main (fuel : Nat) (files : List Nodeset) : Option (Int32 × Option TypeGenerator) :=
  if files.isEmpty then some (1, none)
  else do
    let (types, loaded) ← loadAll files builtinTypes
    if loaded then
      let root ← types.find rootId
      let g ← (TypeGenerator.new "opc").generateClass types fuel root
      return (0, some g.finish)
    else return (1, none)

/-! ### What the table holds -/

/-- What a node adds to the table. -/
def entryOf (node : TNode) : Option (NodeId × DataType) :=
  if node.nodeClass = .dataType then (makeType node).map fun type => (type.id, type) else none

/-- The text of an id, if there is one, is not cut off. -/
def ReadableId (text : Option (List Char)) : Prop := ∀ s ∈ text, ¬ CutOff s

/-- A data type has a definition, and its id and those of its fields can be read. -/
def TNode.Readable (node : TNode) : Prop :=
  node.nodeClass = .dataType → ∃ definition ∈ node.definition,
    ReadableId node.id ∧ ∀ field ∈ definition.fields, ReadableId field.dataType

theorem extractNodeId_isSome (text : Option (List Char)) : (extractNodeId text).isSome ↔ ReadableId text := by
  cases text with
  | none => exact iff_of_true rfl nofun
  | some s => simp [ReadableId, extractNodeId_isSome_iff]

theorem structureField_isSome (field : TDefinitionField) :
    (structureField field).isSome ↔ ReadableId field.dataType := by
  rw [← extractNodeId_isSome]
  unfold structureField
  cases extractNodeId field.dataType <;> simp

theorem enumField_isSome (field : TDefinitionField) : (enumField field).isSome ↔ ReadableId field.dataType := by
  rw [← structureField_isSome]
  unfold enumField
  cases structureField field <;> simp

/-- A type is made of a definition whose ids can be read. -/
theorem makeType_isSome (n : TNode) :
    (makeType n).isSome ↔ ∃ definition ∈ n.definition,
      ReadableId n.id ∧ ∀ field ∈ definition.fields, ReadableId field.dataType := by
  unfold makeType
  cases n.definition with
  | none => simp
  | some definition =>
    have henum : (definition.fields.mapM enumField).isSome ↔
        ∀ field ∈ definition.fields, ReadableId field.dataType := by
      simp only [MapM.isSome_iff, enumField_isSome]
    have hstruct : (definition.fields.mapM structureField).isSome ↔
        ∀ field ∈ definition.fields, ReadableId field.dataType := by
      simp only [MapM.isSome_iff, structureField_isSome]
    simp only [Option.mem_some_iff, exists_eq_left', ← extractNodeId_isSome n.id]
    cases extractNodeId n.id with
    | none => simp
    | some id =>
      cases henumerated : definition.isEnum with
      | true =>
        rw [← henum]
        simp only [Option.bind_eq_bind, Option.bind_some, henumerated]
        generalize definition.fields.mapM enumField = fields
        cases fields <;> simp
      | false =>
        rw [← hstruct]
        simp only [Option.bind_eq_bind, Option.bind_some, henumerated]
        generalize definition.fields.mapM structureField = fields
        cases fields <;> simp

namespace TypeTable
variable {types : TypeTable}

theorem find_insert (key : NodeId) (type : DataType) (id : NodeId) :
    (types.insert key type).find id = (types.find id).or (find [(key, type)] id) := by
  unfold insert
  split
  · next h =>
    by_cases hid : id = key
    · subst hid
      obtain ⟨t, ht⟩ := Option.isSome_iff_exists.mp h
      rw [ht]
      rfl
    · have hnone : find [(key, type)] id = none := by
        rw [find, List.lookup_cons, beq_eq_false_iff_ne.mpr hid]
        rfl
      rw [hnone, Option.or_none]
  · exact List.lookup_append

theorem Keyed.insert (h : types.Keyed) (type : DataType) : (types.insert type.id type).Keyed := by
  unfold TypeTable.insert
  split
  · exact h
  · intro entry hentry
    rcases List.mem_append.mp hentry with hentry | hentry
    · exact h entry hentry
    · rw [List.mem_singleton.mp hentry]

end TypeTable

/-- One node adds its entry, if the table has none of its id. -/
theorem addNode_eq_some {types types' : TypeTable} {node : TNode} (h : addNode types node = some types') :
    node.Readable ∧ (types.Keyed → types'.Keyed) ∧
      ∀ id, types'.find id = (types.find id).or (TypeTable.find (entryOf node).toList id) := by
  unfold addNode at h
  unfold TNode.Readable entryOf
  split at h
  · next hclass =>
    obtain ⟨type, htype, hinserted⟩ := Option.bind_eq_some_iff.mp h
    cases hinserted
    rw [if_pos hclass, htype]
    refine ⟨fun _ => (makeType_isSome node).mp ?_, fun hkeys => hkeys.insert type, types.find_insert type.id type⟩
    rw [htype]
    rfl
  · next hclass =>
    cases h
    rw [if_neg hclass]
    exact ⟨fun hdata => absurd hdata hclass, id, fun _ => Option.or_none.symm⟩

theorem addNode_isSome (types : TypeTable) {node : TNode} (h : node.Readable) :
    ∃ types', addNode types node = some types' := by
  unfold addNode
  split
  · next hclass =>
    obtain ⟨type, htype⟩ := Option.isSome_iff_exists.mp ((makeType_isSome node).mpr (h hclass))
    exact ⟨types.insert type.id type, by rw [htype]; rfl⟩
  · exact ⟨types, rfl⟩

/-- The table after nodes that can be read: the entries there were, then the first of each
other id. -/
structure Filled (types : TypeTable) (nodes : List TNode) (types' : TypeTable) : Prop where
  readable : ∀ node ∈ nodes, node.Readable
  keyed : types.Keyed → types'.Keyed
  find : ∀ id, types'.find id = (types.find id).or (TypeTable.find (nodes.filterMap entryOf) id)

namespace Filled
variable {types types' types'' : TypeTable} {nodes nodes' : List TNode}

theorem nil (types : TypeTable) : Filled types [] types :=
  ⟨nofun, id, fun _ => Option.or_none.symm⟩

theorem append (h : Filled types nodes types') (h' : Filled types' nodes' types'') :
    Filled types (nodes ++ nodes') types'' := by
  refine ⟨?_, fun hkeys => h'.keyed (h.keyed hkeys), fun id => ?_⟩
  · intro node hnode
    exact (List.mem_append.mp hnode).elim (h.readable node) (h'.readable node)
  · rw [h'.find, h.find, List.filterMap_append, Option.or_assoc]
    exact congrArg _ List.lookup_append.symm

theorem node {node : TNode} (h : addNode types node = some types') : Filled types [node] types' := by
  obtain ⟨hreadable, hkeys, hfind⟩ := addNode_eq_some h
  refine ⟨fun n hn => List.mem_singleton.mp hn ▸ hreadable, hkeys, fun id => ?_⟩
  rw [hfind]
  cases hentry : entryOf node <;> simp [hentry]

end Filled

theorem filled_of_final {types types' : TypeTable} {nodes : List TNode}
    (h : Run.final addNode types nodes = some types') : Filled types nodes types' := by
  induction nodes generalizing types with
  | nil =>
    cases h
    exact .nil _
  | cons node rest ih =>
    unfold Run.final at h
    split at h
    · cases h
    · next t ht => exact (Filled.node ht).append (ih h)

theorem final_of_readable (types : TypeTable) {nodes : List TNode} (h : ∀ node ∈ nodes, node.Readable) :
    ∃ types', Run.final addNode types nodes = some types' :=
  Run.final_of_total (I := fun _ => True) (G := TNode.Readable)
    (fun types _ _ hnode => (addNode_isSome types hnode).imp fun _ h => ⟨h, trivial⟩) trivial h

/-- The nodes the loader calls back for: those of the nodesets up to one that fails. -/
def loadedNodes : List Nodeset → List TNode
  | [] => []
  | file :: rest => if file.loaded then file.nodes ++ loadedNodes rest else file.nodes

theorem loadAll_eq_some {files : List Nodeset} {types types' : TypeTable} {loaded : Bool}
    (h : loadAll files types = some (types', loaded)) :
    Filled types (loadedNodes files) types' ∧ loaded = files.all (·.loaded) := by
  induction files generalizing types with
  | nil =>
    cases h
    exact ⟨.nil _, rfl⟩
  | cons file rest ih =>
    obtain ⟨t, ht, hrest⟩ := Option.bind_eq_some_iff.mp h
    have hfile := filled_of_final ht
    unfold loadedNodes
    cases hloaded : file.loaded with
    | true =>
      rw [hloaded] at hrest
      obtain ⟨hfilled, hall⟩ := ih hrest
      exact ⟨hfile.append hfilled, by simp [hloaded, hall]⟩
    | false =>
      rw [hloaded] at hrest
      cases hrest
      exact ⟨hfile, by simp [hloaded]⟩

theorem loadAll_isSome {files : List Nodeset} (types : TypeTable)
    (h : ∀ node ∈ loadedNodes files, node.Readable) : ∃ result, loadAll files types = some result := by
  induction files generalizing types with
  | nil => exact ⟨_, rfl⟩
  | cons file rest ih =>
    unfold loadedNodes at h
    unfold loadAll
    cases hloaded : file.loaded with
    | true =>
      rw [if_pos hloaded] at h
      obtain ⟨t, ht⟩ := final_of_readable types fun n hn => h n (List.mem_append_left _ hn)
      rw [ht]
      exact ih t fun n hn => h n (List.mem_append_right _ hn)
    | false =>
      rw [if_neg (by simp [hloaded])] at h
      obtain ⟨t, ht⟩ := final_of_readable types h
      rw [ht]
      exact ⟨_, rfl⟩

theorem builtinTypes_keyed : builtinTypes.Keyed := by
  intro entry hentry
  obtain ⟨_, _, rfl⟩ := List.mem_map.mp hentry
  rfl

/-- Loading any nodesets builds a table exactly if every data type that is handed over has
a definition and ids that can be read. The table then has each built-in type, whatever the
nodesets define, and of any other id the first type defined; each key is its type's id. -/
theorem load_iff (files : List Nodeset) :
    ((∃ types loaded, loadAll files builtinTypes = some (types, loaded)) ↔
      ∀ node ∈ loadedNodes files, node.Readable) ∧
    ∀ types loaded, loadAll files builtinTypes = some (types, loaded) →
      types.Keyed ∧ loaded = files.all (·.loaded) ∧
      ∀ id, types.find id =
        (builtinTypes.find id).or (TypeTable.find ((loadedNodes files).filterMap entryOf) id) := by
  refine ⟨⟨?_, fun h => ?_⟩, fun types loaded h => ?_⟩
  · intro ⟨types, loaded, h⟩
    exact (loadAll_eq_some h).1.readable
  · obtain ⟨⟨types, loaded⟩, h⟩ := loadAll_isSome builtinTypes h
    exact ⟨types, loaded, h⟩
  · obtain ⟨hfilled, hall⟩ := loadAll_eq_some h
    exact ⟨hfilled.keyed builtinTypes_keyed, hall, hfilled.find⟩

/-! ### The whole run -/

open TypeGenerator

/-- For any nodesets that load, whose types have no cycle: without the root there is no
result; with it, what was generated is in order, nothing twice, and it is what the root leads
to, no more and no less, or nothing where a type is missing there. -/
theorem main_generates {files : List Nodeset} {types : TypeTable} (hfiles : files ≠ [])
    (hload : loadAll files builtinTypes = some (types, true)) (hacyclic : types.Acyclic) :
    ∃ bound, ∀ fuel ≥ bound,
      (types.find rootId = none → main fuel files = none) ∧
      ∀ root, types.find rootId = some root →
        ∃ g : TypeGenerator, main fuel files = some (0, some g.finish) ∧ g.Ordered types "opc" ∧
          (types.Known root → ∀ t, t ∈ g.calls ↔ t.Generated ∧ ReflTransGen types.Child root t) ∧
          (¬ types.Known root → g.calls = []) := by
  have hkeys := (loadAll_eq_some hload).1.keyed builtinTypes_keyed
  obtain ⟨bound, hbound⟩ := Filter.eventually_atTop.mp (eventually_all_built hkeys hacyclic)
  have hnonempty : files.isEmpty = false := by simpa using hfiles
  refine ⟨bound + 1, fun fuel hfuel => ⟨fun hroot => ?_, fun root hfind => ?_⟩⟩
  · simp [main, hnonempty, hload, hroot]
  · obtain ⟨fuel, rfl⟩ : ∃ n, fuel = n + 1 := ⟨fuel - 1, by omega⟩
    have hentry : Entry types root := fun _ _ => by rwa [hkeys.find_id hfind]
    obtain ⟨g, hg, hordered, hreturned⟩ :=
      generateClass_spec hkeys (hbound fuel (by omega)) hentry (new_ordered "opc")
    refine ⟨g, by simp [main, hnonempty, hload, hfind, hg], hordered, fun hknown t => ?_, fun hunknown => ?_⟩
    · rw [hreturned.known hknown]
      exact or_iff_right List.not_mem_nil
    · rw [hreturned.missing hunknown]
      rfl

/-- A nodeset with the root, a structure, and the enum of one of its fields. -/
def applicationTypes : Nodeset where
  nodes :=
    [⟨.dataType, some "i=308".toList, "ApplicationDescription", some ⟨false,
      [⟨"ApplicationUri", -1, some "i=12".toList, 0⟩, ⟨"ApplicationType", -1, some "i=307".toList, 0⟩]⟩⟩,
      ⟨.variable, some "i=2254".toList, "ServerArray", none⟩,
      ⟨.dataType, some "i=307".toList, "ApplicationType", some ⟨true, [⟨"Server", -1, none, 0⟩]⟩⟩]
  loaded := true

def applicationTable : TypeTable :=
  builtinTypes ++
    [(rootId, .struct ⟨"ApplicationDescription", rootId,
        [⟨"ApplicationUri", -1, ⟨0, .numeric 12⟩⟩, ⟨"ApplicationType", -1, ⟨0, .numeric 307⟩⟩]⟩),
      (⟨0, .numeric 307⟩, .enum ⟨"ApplicationType", ⟨0, .numeric 307⟩, [⟨⟨"Server", -1, ⟨0, .numeric 0⟩⟩, 0⟩]⟩)]

theorem applicationTable_acyclic : applicationTable.Acyclic := by
  have hfields : ∀ entry ∈ applicationTable, ∀ b ∈ entry.2.fieldTypes, entry.1 = rootId ∧ b ≠ rootId := by decide
  have hnames : ∀ a b, applicationTable.Names a b → a = rootId ∧ b ≠ rootId :=
    fun a b ⟨t, ht, hb⟩ => hfields (a, t) (TypeTable.mem_of_find ht) b hb
  intro a h
  obtain ⟨b, hab, _⟩ := TransGen.head'_iff.mp h
  obtain ⟨c, _, hca⟩ := TransGen.tail'_iff.mp h
  exact (hnames c a hca).2 (hnames a b hab).1

theorem main_generates_application : ∃ bound, ∀ fuel ≥ bound, ∃ g : TypeGenerator,
    main fuel [applicationTypes] = some (0, some g.finish) ∧ g.Ordered applicationTable "opc" := by
  have hload : loadAll [applicationTypes] builtinTypes = some (applicationTable, true) := by decide
  obtain ⟨bound, hbound⟩ := main_generates (List.cons_ne_nil _ _) hload applicationTable_acyclic
  refine ⟨bound, fun fuel hfuel => ?_⟩
  obtain ⟨g, hg, hordered, _⟩ := (hbound fuel hfuel).2 _ rfl
  exact ⟨g, hg, hordered⟩

end ModernOpc.Gen
