import ModernOpc.Library.Run
import ModernOpc.Library.Postorder
import ModernOpc.TypeGenerator.Conversions
import Mathlib.Order.Filter.AtTopBot.Basic
import Mathlib.Order.Filter.Finite

/-! The type generator: an order of the types a root needs, and one class for each.

`buildOrder` searches depth first and lists every enum and structure as often as it meets
one; it gives up at an unknown field type. `generateClass` then generates what no earlier
call did, and looks each type up again by its id.

`generation_order`: on a table without a cycle of structure fields, calls write each type
once and behind the types of its fields, all that a root leads to or, if a type is missing
there, nothing, exactly if each root that would be written is the table's type of its id. -/
namespace ModernOpc.Gen
open Library Library.Postorder Relation

variable (types : TypeTable)

/-! ### The order -/

/-- The loop over the fields of a structure: `order`, and whether it went through. -/
def buildFields (build : DataType → List NodeId → Option (List NodeId × Bool)) :
    List StructureDefinitionField → List NodeId → Option (List NodeId × Bool)
  | [], order => some (order, true)
  | field :: rest, order =>
    match types.find field.dataType with
    | none => some (order, false)
    | some t2 => do
      let (order, built) ← build t2 order
      if built then buildFields build rest order else return (order, false)

/-- `buildOrder`, with the depth of recursion that the stack allows. -/
def buildOrder : Nat → DataType → List NodeId → Option (List NodeId × Bool)
  | 0, _, _ => none
  | _ + 1, .base _, order => some (order, true)
  | _ + 1, .enum type, order => some (order ++ [type.id], true)
  | fuel + 1, .struct type, order => do
    let (order, built) ← buildFields types (buildOrder fuel) type.fields order
    if built then return (order ++ [type.id], true) else return (order, false)

/-! ### Generation -/

/-- The generator. `calls` is no member: it lists the types `generate` was called on. -/
structure TypeGenerator where
  order : List NodeId
  generated : List NodeId
  header : String
  impl : String
  calls : List DataType

namespace TypeGenerator

def new (cppTargetNamespace : String) : TypeGenerator where
  order := []
  generated := []
  header := "namespace " ++ cppTargetNamespace ++ " \x7b\n"
  impl := "namespace " ++ cppTargetNamespace ++ " \x7b"
  calls := []

def addIncludes (self : TypeGenerator) : TypeGenerator :=
  {self with
    header := self.header ++ "#pragma once\n" ++ "#include <string>\n" ++
      "#include <opc/types/LocalizedText.h>\n"
    impl := self.impl ++ "#include <generated.h>\n" ++ "#include <opc/Variant.h>\n" ++
      "#include <opc/types/StdTypes.h>\n" ++ "#include <opc/types/NodeId.h>\n" ++
      "#include <opc/types/QualifiedName.h>\n"}

/-- The loop over the order. There is no result where an entry is dereferenced that the
table does not have. -/
def generateAll : List NodeId → TypeGenerator → Option TypeGenerator
  | [], self => some self
  | id :: rest, self =>
    if id ∈ self.generated then generateAll rest self
    else do
      let t ← types.find id
      let text ← t.generate types
      generateAll rest {self with
        generated := self.generated.insert id
        header := self.header ++ text.header
        impl := self.impl ++ text.impl
        calls := self.calls ++ [t]}

/-- `TypeGenerator::generateClass`. -/
def generateClass (fuel : Nat) (self : TypeGenerator) (type : DataType) : Option TypeGenerator := do
  let (order, built) ← buildOrder types fuel type []
  let self := {self with order}
  if built then generateAll types order self.addIncludes else return self

def closeNamespace (self : TypeGenerator) : TypeGenerator :=
  {self with header := self.header ++ "\x7d\n", impl := self.impl ++ "\x7d"}

def finish (self : TypeGenerator) : TypeGenerator := self.closeNamespace

end TypeGenerator

/-! ### The graph of a table -/

/-- What a structure's fields name. -/
def DataType.fieldTypes : DataType → List NodeId
  | .struct type => type.fields.map (·.dataType)
  | .base _ | .enum _ => []

namespace TypeTable

/-- Each key is the id of its type. -/
def Keyed : Prop := ∀ entry ∈ types, entry.1 = entry.2.id

/-- The graph of structure fields. -/
def Names (a b : NodeId) : Prop := ∃ t, types.find a = some t ∧ b ∈ t.fieldTypes

def Acyclic : Prop := ∀ a, ¬ TransGen types.Names a a

/-- An id whose type is generated. -/
def Kept (id : NodeId) : Prop := ∃ t, types.find id = some t ∧ t.Generated

/-- Every type that the id leads to is in the table, its own included. -/
def Complete (id : NodeId) : Prop := ∀ b, ReflTransGen types.Names id b → (types.find b).isSome

/-- The type of a field. -/
def Child (t t' : DataType) : Prop := ∃ id ∈ t.fieldTypes, types.find id = some t'

/-- The type leads to no unknown one. -/
def Known (t : DataType) : Prop :=
  ∀ t', ReflTransGen types.Child t t' → ∀ id ∈ t'.fieldTypes, (types.find id).isSome

variable {types}

theorem mem_of_find {key : NodeId} {t : DataType} (h : types.find key = some t) : (key, t) ∈ types := by
  obtain ⟨before, after, heq, _⟩ := List.lookup_eq_some_iff.mp h
  rw [heq]
  exact List.mem_append_right _ (List.mem_cons_self ..)

theorem Keyed.find_id (hkeys : types.Keyed) {key : NodeId} {t : DataType} (h : types.find key = some t) :
    t.id = key := (hkeys (key, t) (mem_of_find h)).symm

theorem names_iff {t : DataType} {a : NodeId} (h : types.find a = some t) (b : NodeId) :
    types.Names a b ↔ b ∈ t.fieldTypes := by
  constructor
  · intro ⟨t', h', hb⟩
    rw [h, Option.some.injEq] at h'
    exact h' ▸ hb
  · intro hb
    exact ⟨t, h, hb⟩

theorem kept_iff {t : DataType} {a : NodeId} (h : types.find a = some t) : types.Kept a ↔ t.Generated := by
  constructor
  · intro ⟨t', h', ht⟩
    rw [h, Option.some.injEq] at h'
    exact h' ▸ ht
  · intro ht
    exact ⟨t, h, ht⟩

theorem known_iff {t : DataType} :
    types.Known t ↔ ∀ id ∈ t.fieldTypes, ∃ t', types.find id = some t' ∧ types.Known t' := by
  constructor
  · intro h id hid
    obtain ⟨t', ht'⟩ := Option.isSome_iff_exists.mp (h t .refl id hid)
    exact ⟨t', ht', fun u hu => h u (.head ⟨id, hid, ht'⟩ hu)⟩
  · intro h u hu id hid
    rcases hu.cases_head with rfl | ⟨t', ⟨id', hid', ht'⟩, hu⟩
    · obtain ⟨t', ht', _⟩ := h id hid
      rw [ht']
      rfl
    · obtain ⟨t'', ht'', hknown⟩ := h id' hid'
      cases ht'.symm.trans ht''
      exact hknown u hu id hid

/-- From a type of the table, what its fields lead to is in the table too. -/
theorem Keyed.reached (hkeys : types.Keyed) {t t' : DataType} (h : types.find t.id = some t)
    (hpath : ReflTransGen types.Child t t') :
    types.find t'.id = some t' ∧ ReflTransGen types.Names t.id t'.id := by
  induction hpath with
  | refl => exact ⟨h, .refl⟩
  | tail _ hchild ih =>
    obtain ⟨id, hid, hfind⟩ := hchild
    have hkey := hkeys.find_id hfind
    subst hkey
    exact ⟨hfind, ih.2.tail ((names_iff ih.1 _).mpr hid)⟩

theorem child_path {a b : NodeId} {t t' : DataType} (h : types.find a = some t)
    (hpath : ReflTransGen types.Names a b) (h' : types.find b = some t') : ReflTransGen types.Child t t' := by
  induction hpath generalizing t' with
  | refl =>
    cases h.symm.trans h'
    exact .refl
  | tail _ hnames ih =>
    obtain ⟨u, hu, hb⟩ := hnames
    exact (ih hu).tail ⟨_, hb, h'⟩

/-- Between types of the table, fields lead the same way as ids. -/
theorem Keyed.path_iff (hkeys : types.Keyed) {t t' : DataType} (h : types.find t.id = some t)
    (h' : types.find t'.id = some t') :
    ReflTransGen types.Names t.id t'.id ↔ ReflTransGen types.Child t t' :=
  ⟨fun hpath => child_path h hpath h', fun hpath => (hkeys.reached h hpath).2⟩

theorem Keyed.complete_iff_known (hkeys : types.Keyed) {id : NodeId} :
    types.Complete id ↔ ∃ t, types.find id = some t ∧ types.Known t := by
  constructor
  · intro h
    obtain ⟨t, ht⟩ := Option.isSome_iff_exists.mp (h id .refl)
    have hkey := hkeys.find_id ht
    subst hkey
    refine ⟨t, ht, fun t' hpath b hb => ?_⟩
    obtain ⟨ht', hnames⟩ := hkeys.reached ht hpath
    exact h b (hnames.tail ((names_iff ht' b).mpr hb))
  · intro ⟨t, ht, hknown⟩ b hpath
    rcases hpath.cases_tail with rfl | ⟨m, hm, u, hu, hb⟩
    · rw [ht]
      rfl
    · exact hknown u (child_path ht hm hu) b hb

/-- Without a cycle, the recursion into field types ends. -/
theorem Acyclic.wellFounded (h : types.Acyclic) : WellFounded fun b a => types.Names a b := by
  have hsources : ∀ a b, types.Names a b → a ∈ types.map (·.1) := by
    intro a b ⟨t, ha, _⟩
    exact List.mem_map_of_mem (mem_of_find ha)
  exact wellFounded_of_acyclic hsources h

end TypeTable

/-! ### What `buildOrder` answers -/

/-- An answer for some roots: all they need, in order, or there is a type missing. -/
def Answers (order roots : List NodeId) (result : Option (List NodeId × Bool)) : Prop :=
  (∃ out, result = some (order ++ out, true) ∧ Traversal types.Names types.Kept roots out ∧
    ∀ a ∈ roots, types.Complete a) ∨
  ∃ order', result = some (order', false) ∧ ∃ a ∈ roots, ¬ types.Complete a

/-- The order of a type is found, whatever was listed before. -/
def Built (fuel : Nat) (t : DataType) : Prop :=
  ∀ order, Answers types order [t.id] (buildOrder types fuel t order)

variable {types}

/-- The loop over the fields, if their types are answered for. -/
theorem buildFields_answers (hkeys : types.Keyed) {fuel : Nat} {fields : List StructureDefinitionField}
    (h : ∀ field ∈ fields, ∀ t, types.find field.dataType = some t → Built types fuel t)
    (order : List NodeId) :
    Answers types order (fields.map (·.dataType))
      (buildFields types (buildOrder types fuel) fields order) := by
  induction fields generalizing order with
  | nil => exact .inl ⟨[], by rw [List.append_nil]; rfl, Traversal.nil, nofun⟩
  | cons field rest ih =>
    have ih := ih fun f hf => h f (List.mem_cons_of_mem _ hf)
    unfold buildFields
    cases hfind : types.find field.dataType with
    | none =>
      refine .inr ⟨order, rfl, field.dataType, List.mem_cons_self .., fun hcomplete => ?_⟩
      have hfound := hcomplete _ .refl
      rw [hfind] at hfound
      cases hfound
    | some t2 =>
      have hid : t2.id = field.dataType := hkeys.find_id hfind
      rcases h field (List.mem_cons_self ..) t2 hfind order with
        ⟨out, hbuilt, htraversal, hcomplete⟩ | ⟨order', hbuilt, a, ha, hmissing⟩
      · rcases ih (order ++ out) with
          ⟨out', hrest, htraversal', hcomplete'⟩ | ⟨order', hrest, a, ha, hmissing⟩
        · refine .inl ⟨out ++ out', ?_, ?_, ?_⟩
          · simp [hbuilt, hrest]
          · rw [List.map_cons, ← hid]
            exact htraversal.append htraversal'
          · intro a ha
            rcases List.mem_cons.mp ha with rfl | ha
            · show types.Complete field.dataType
              rw [← hid]
              exact hcomplete _ (List.mem_singleton_self _)
            · exact hcomplete' a ha
        · exact .inr ⟨order', by simp [hbuilt, hrest], a, List.mem_cons_of_mem _ ha, hmissing⟩
      · rw [List.mem_singleton.mp ha, hid] at hmissing
        exact .inr ⟨order', by simp [hbuilt], field.dataType, List.mem_cons_self .., hmissing⟩

instance (id : NodeId) : Decidable (types.Kept id) :=
  match h : types.find id with
  | none => .isFalse fun ⟨t, ht, _⟩ => by cases h.symm.trans ht
  | some _ => decidable_of_iff _ (TypeTable.kept_iff h).symm

/-- What the search of any type lists, in the table or not, once the recursion is deep enough
for the types of its fields: what they need, and then the type if it is generated. -/
theorem buildOrder_answers (hkeys : types.Keyed) {fuel : Nat} {t : DataType}
    (h : ∀ id ∈ t.fieldTypes, ∀ t', types.find id = some t' → Built types fuel t') (order : List NodeId) :
    (types.Known t ∧ ∃ out, Traversal types.Names types.Kept t.fieldTypes out ∧
      buildOrder types (fuel + 1) t order = some (order ++ if t.Generated then out ++ [t.id] else out, true)) ∨
    ¬ types.Known t ∧ ∃ order', buildOrder types (fuel + 1) t order = some (order', false) := by
  have hknown : types.Known t ↔ ∀ id ∈ t.fieldTypes, types.Complete id := by
    simp only [TypeTable.known_iff (t := t), hkeys.complete_iff_known]
  cases t with
  | base type =>
    refine .inl ⟨hknown.mpr nofun, [], Traversal.nil, ?_⟩
    rw [if_neg (DataType.not_generated_base type), List.append_nil]
    rfl
  | enum type =>
    refine .inl ⟨hknown.mpr nofun, [], Traversal.nil, ?_⟩
    rw [if_pos (DataType.generated_enum type)]
    rfl
  | struct type =>
    have hfields : ∀ field ∈ type.fields, ∀ t, types.find field.dataType = some t → Built types fuel t :=
      fun field hfield => h _ (List.mem_map_of_mem hfield)
    rcases buildFields_answers hkeys hfields order with
      ⟨out, hbuilt, htraversal, hall⟩ | ⟨order', hbuilt, a, ha, hmissing⟩
    · refine .inl ⟨hknown.mpr hall, out, htraversal, ?_⟩
      rw [if_pos (DataType.generated_struct type)]
      simp [buildOrder, hbuilt, DataType.id]
    · exact .inr ⟨fun hall => hmissing (hknown.mp hall a ha), order', by simp [buildOrder, hbuilt]⟩

/-- A type of the table, once the recursion is deep enough for the types of its fields. -/
theorem built_succ (hkeys : types.Keyed) {fuel : Nat} {t : DataType} (ht : types.find t.id = some t)
    (h : ∀ id ∈ t.fieldTypes, ∀ t', types.find id = some t' → Built types fuel t') :
    Built types (fuel + 1) t := by
  intro order
  have hcomplete : types.Complete t.id ↔ types.Known t := by
    rw [hkeys.complete_iff_known, ht]
    simp
  rcases buildOrder_answers hkeys h order with ⟨hknown, out, htraversal, hbuilt⟩ | ⟨hunknown, order', hbuilt⟩
  · refine .inl ⟨_, hbuilt, ?_, by simp [hcomplete, hknown]⟩
    simpa only [TypeTable.kept_iff ht] using htraversal.node (TypeTable.names_iff ht)
  · exact .inr ⟨order', hbuilt, t.id, List.mem_singleton_self _, fun h => hunknown (hcomplete.mp h)⟩

/-- With enough depth, `buildOrder` answers for each type of the table. -/
theorem eventually_built (hkeys : types.Keyed) (hacyclic : types.Acyclic) {t : DataType}
    (ht : types.find t.id = some t) : ∀ᶠ fuel in Filter.atTop, Built types fuel t := by
  generalize hid : t.id = id at ht
  induction id using hacyclic.wellFounded.induction generalizing t with
  | _ id ih =>
    subst hid
    have hfields : ∀ᶠ fuel in Filter.atTop, ∀ id ∈ t.fieldTypes, ∀ t', types.find id = some t' →
        Built types fuel t' := by
      refine (Filter.eventually_all_finite (List.finite_toSet t.fieldTypes)).mpr fun id hid => ?_
      cases hfind : types.find id with
      | none => exact .of_forall fun _ t' h' => by cases h'
      | some t' =>
        have hnames : types.Names t.id id := (TypeTable.names_iff ht id).mpr hid
        refine (ih id hnames (hkeys.find_id hfind) hfind).mono fun fuel hbuilt t'' h'' => ?_
        rwa [← Option.some.inj h'']
    rw [Filter.eventually_atTop] at hfields ⊢
    obtain ⟨bound, hbound⟩ := hfields
    refine ⟨bound + 1, fun fuel hfuel => ?_⟩
    obtain ⟨fuel, rfl⟩ : ∃ n, fuel = n + 1 := ⟨fuel - 1, by omega⟩
    exact built_succ hkeys ht (hbound fuel (by omega))

/-! ### What a call generates -/

/-- A type whose field types are there is generated. -/
theorem generate_known {t : DataType} (h : ∀ id ∈ t.fieldTypes, (types.find id).isSome) :
    ∃ text, t.generate types = some text := by
  cases t with
  | base type => exact ⟨_, rfl⟩
  | enum type => exact ⟨_, rfl⟩
  | struct type =>
    have hfields : ∀ field ∈ type.fields, (types.find field.dataType).isSome :=
      fun field hfield => h _ (List.mem_map_of_mem hfield)
    exact ⟨_, generate_struct hfields⟩

namespace TypeGenerator

/-- What was generated: entries of the table, remembered by their ids, whose texts the streams
hold. -/
structure Recorded (types : TypeTable) (ns : String) (g : TypeGenerator) : Prop where
  entries : ∀ t ∈ g.calls, types.find t.id = some t
  generated : ∀ id, id ∈ g.generated ↔ id ∈ g.calls.map (·.id)
  written : Written types ns g.calls ⟨g.header, g.impl⟩

/-- None of it twice, each type behind the enums and structures its fields name. -/
structure Ordered (types : TypeTable) (ns : String) (g : TypeGenerator) : Prop extends Recorded types ns g where
  once : (g.calls.map (·.id)).Nodup
  first : DepsFirst (Needs types.Names types.Kept) (g.calls.map (·.id))

/-- What a call for a root adds: all enums and structures the root leads to and no other, or
nothing but the order it had come to. -/
structure Returned (types : TypeTable) (g : TypeGenerator) (root : DataType) (after : TypeGenerator) :
    Prop where
  known : types.Known root →
    ∀ t, t ∈ after.calls ↔ t ∈ g.calls ∨ t.Generated ∧ ReflTransGen types.Child root t
  missing : ¬ types.Known root → after = {g with order := after.order}

theorem new_ordered (ns : String) : Ordered types ns (new ns) where
  entries := nofun
  generated := fun _ => Iff.rfl
  written := .opened
  once := .nil
  first := DepsFirst.nil

variable {ns : String} {g : TypeGenerator}

theorem Recorded.mem_iff (h : g.Recorded types ns) {t : DataType} (ht : types.find t.id = some t) :
    t ∈ g.calls ↔ t.id ∈ g.calls.map (·.id) := by
  constructor
  · exact List.mem_map_of_mem
  · intro hid
    obtain ⟨t', ht', heq⟩ := List.mem_map.mp hid
    have hentry := h.entries t' ht'
    rw [heq, ht, Option.some.injEq] at hentry
    exact hentry ▸ ht'

theorem addIncludes_text (g : TypeGenerator) :
    Text.mk g.addIncludes.header g.addIncludes.impl = (Text.mk g.header g.impl).append includes := by
  unfold addIncludes Text.append includes
  simp only [String.append_assoc]

theorem Recorded.addIncludes (h : g.Recorded types ns) (order : List NodeId) :
    (TypeGenerator.addIncludes {g with order}).Recorded types ns where
  entries := h.entries
  generated := h.generated
  written := by
    rw [addIncludes_text]
    exact h.written.included

/-- One more type is generated. -/
theorem Recorded.generate (h : g.Recorded types ns) {t : DataType} (ht : types.find t.id = some t)
    (hgenerated : t.Generated) {text : Text} (htext : t.generate types = some text) :
    Recorded types ns
      {g with
        generated := g.generated.insert t.id
        header := g.header ++ text.header
        impl := g.impl ++ text.impl
        calls := g.calls ++ [t]} where
  entries t' ht' := by
    rcases List.mem_append.mp ht' with ht' | ht'
    · exact h.entries t' ht'
    · rw [List.mem_singleton.mp ht']
      exact ht
  generated id := by
    rw [List.map_append, List.mem_append, ← h.generated, List.map_singleton, List.mem_singleton]
    exact List.mem_insert_iff.trans or_comm
  written := h.written.block (block_of_generate hgenerated htext)

/-- Going through an order whose types are complete generates what is new in it. -/
theorem generateAll_spec (hkeys : types.Keyed) {order : List NodeId}
    (horder : ∀ id ∈ order, types.Complete id ∧ types.Kept id) {g : TypeGenerator} (hg : g.Recorded types ns) :
    ∃ g', generateAll types order g = some g' ∧ g'.calls.map (·.id) = once (g.calls.map (·.id)) order ∧
      g'.Recorded types ns := by
  induction order generalizing g with
  | nil => exact ⟨g, rfl, rfl, hg⟩
  | cons id rest ih =>
    have hrest := fun b hb => horder b (List.mem_cons_of_mem _ hb)
    unfold generateAll once
    by_cases hid : id ∈ g.generated
    · rw [if_pos hid, if_pos ((hg.generated id).mp hid)]
      exact ih hrest hg
    · rw [if_neg hid, if_neg (fun h => hid ((hg.generated id).mpr h))]
      obtain ⟨hcomplete, t, ht, hgenerated⟩ := horder id (List.mem_cons_self ..)
      have hkey : t.id = id := hkeys.find_id ht
      subst hkey
      obtain ⟨text, htext⟩ := generate_known fun b hb => hcomplete b (.single ((TypeTable.names_iff ht b).mpr hb))
      rw [ht, Option.bind_eq_bind, Option.bind_some, htext, Option.bind_eq_bind, Option.bind_some]
      have hmap : (g.calls ++ [t]).map (·.id) = g.calls.map (·.id) ++ [t.id] := by
        rw [List.map_append, List.map_singleton]
      rw [← hmap]
      exact ih hrest (hg.generate ht hgenerated htext)

/-- A root that the search lists is the table's type of its id. -/
def Entry (types : TypeTable) (root : DataType) : Prop :=
  root.Generated → types.Known root → types.find root.id = some root

/-- What the search of an entry lists. -/
structure Lists (types : TypeTable) (root : DataType) (order : List NodeId) : Prop where
  first : DepsFirst (Needs types.Names types.Kept) order
  complete : ∀ id ∈ order, types.Complete id ∧ types.Kept id
  mem : ∀ t, types.find t.id = some t → (t.id ∈ order ↔ t.Generated ∧ ReflTransGen types.Child root t)

theorem lists_of_traversal (hkeys : types.Keyed) {root : DataType} (hentry : Entry types root)
    (hknown : types.Known root) {out : List NodeId}
    (htraversal : Traversal types.Names types.Kept root.fieldTypes out) :
    Lists types root (if root.Generated then out ++ [root.id] else out) := by
  by_cases hgenerated : root.Generated
  · have hfind := hentry hgenerated hknown
    have hcomplete : types.Complete root.id := hkeys.complete_iff_known.mpr ⟨root, hfind, hknown⟩
    have hroot := htraversal.node (TypeTable.names_iff hfind)
    rw [if_pos ((TypeTable.kept_iff hfind).mpr hgenerated)] at hroot
    rw [if_pos hgenerated]
    have hmem : ∀ id, id ∈ out ++ [root.id] ↔ types.Kept id ∧ ReflTransGen types.Names root.id id := by
      intro id
      rw [hroot.mem]
      simp
    refine ⟨hroot.first, fun id hid => ?_, fun t ht => ?_⟩
    · obtain ⟨hkept, hpath⟩ := (hmem id).mp hid
      exact ⟨fun b hb => hcomplete b (hpath.trans hb), hkept⟩
    · rw [hmem, TypeTable.kept_iff ht, hkeys.path_iff hfind ht]
  · cases root with
    | enum type => exact absurd (DataType.generated_enum type) hgenerated
    | struct type => exact absurd (DataType.generated_struct type) hgenerated
    | base type =>
      have hout : out = [] := by
        refine List.eq_nil_iff_forall_not_mem.mpr fun id hid => ?_
        obtain ⟨_, a, ha, _⟩ := (htraversal.mem id).mp hid
        cases ha
      rw [if_neg hgenerated, hout]
      refine ⟨DepsFirst.nil, nofun, fun t _ => iff_of_false List.not_mem_nil fun ⟨ht, hpath⟩ => ?_⟩
      rcases hpath.cases_head with rfl | ⟨_, ⟨_, hid, _⟩, _⟩
      · exact hgenerated ht
      · cases hid

/-- What an entry leads to and is generated is an entry of the table. -/
theorem Entry.reached (hkeys : types.Keyed) {root t : DataType} (h : Entry types root)
    (hknown : types.Known root) (ht : t.Generated) (hpath : ReflTransGen types.Child root t) :
    types.find t.id = some t := by
  rcases hpath.cases_tail with rfl | ⟨_, _, id, _, hfind⟩
  · exact h ht hknown
  · rw [hkeys.find_id hfind]
    exact hfind

/-- One call, from a generator in order, for an entry whose order is found. -/
theorem generateClass_spec (hkeys : types.Keyed) {fuel : Nat} {root : DataType}
    (hbuilt : ∀ t, types.find t.id = some t → Built types fuel t) (hentry : Entry types root)
    (hg : g.Ordered types ns) :
    ∃ g', g.generateClass types (fuel + 1) root = some g' ∧ g'.Ordered types ns ∧ g.Returned types root g' := by
  have hfields : ∀ id ∈ root.fieldTypes, ∀ t, types.find id = some t → Built types fuel t :=
    fun id _ t hfind => hbuilt t (by rwa [hkeys.find_id hfind])
  unfold generateClass
  rcases buildOrder_answers hkeys hfields [] with ⟨hknown, out, htraversal, hout⟩ | ⟨hunknown, order, hout⟩
  · have hlists := lists_of_traversal hkeys hentry hknown htraversal
    rw [hout, List.nil_append]
    revert hlists
    generalize (if root.Generated then out ++ [root.id] else out) = order
    intro hlists
    obtain ⟨g', hg', hcalls, hrecorded⟩ :=
      generateAll_spec hkeys hlists.complete (hg.toRecorded.addIncludes order)
    refine ⟨g', hg', ⟨hrecorded, ?_, ?_⟩, fun _ t => ?_, fun h => absurd hknown h⟩
    · rw [hcalls]
      exact nodup_once hg.once order
    · rw [hcalls]
      exact hg.first.once hlists.first
    · constructor
      · intro ht
        have hfind := hrecorded.entries t ht
        have hid := List.mem_map_of_mem (f := (·.id)) ht
        rw [hcalls, mem_once] at hid
        exact hid.imp (hg.mem_iff hfind).mpr (hlists.mem t hfind).mp
      · intro ht
        have hfind : types.find t.id = some t :=
          ht.elim (hg.entries t) fun ⟨hgenerated, hpath⟩ => hentry.reached hkeys hknown hgenerated hpath
        rw [hrecorded.mem_iff hfind, hcalls, mem_once]
        exact ht.imp (hg.mem_iff hfind).mp (hlists.mem t hfind).mpr
  · refine ⟨{g with order}, ?_, ⟨⟨hg.entries, hg.generated, hg.written⟩, hg.once, hg.first⟩,
      fun h => absurd h hunknown, fun _ => rfl⟩
    rw [hout]
    rfl

end TypeGenerator

open TypeGenerator

/-- With enough depth, `buildOrder` answers for every entry of the table. -/
theorem eventually_all_built (hkeys : types.Keyed) (hacyclic : types.Acyclic) :
    ∀ᶠ fuel in Filter.atTop, ∀ t, types.find t.id = some t → Built types fuel t := by
  have hentries : ∀ᶠ fuel in Filter.atTop, ∀ t ∈ types.map (·.2), types.find t.id = some t →
      Built types fuel t := by
    refine (Filter.eventually_all_finite (List.finite_toSet _)).mpr fun t _ => ?_
    by_cases ht : types.find t.id = some t
    · exact (eventually_built hkeys hacyclic ht).mono fun _ hbuilt _ => hbuilt
    · exact .of_forall fun _ h => absurd h ht
  exact hentries.mono fun fuel h t ht => h t (List.mem_map_of_mem (TypeTable.mem_of_find ht)) ht

/-- What is asked of calls for some roots: they return; at any time what was generated is in
order; each call adds what its root leads to, or nothing if a type is missing there. -/
structure Generates (types : TypeTable) (fuel : Nat) (ns : String) (roots : List DataType) : Prop where
  returns : ∃ g, Run.final (generateClass types fuel) (new ns) roots = some g
  ordered : ∀ g ∈ Run.visited (generateClass types fuel) (new ns) roots, g.Ordered types ns
  returned : ∀ call ∈ Run.edges (generateClass types fuel) (new ns) roots,
    ∃ g, call.1.generateClass types fuel call.2 = some g ∧ call.1.Returned types call.2 g

theorem generates_of_entries {types : TypeTable} (hkeys : types.Keyed) {fuel : Nat}
    (hbuilt : ∀ t, types.find t.id = some t → Built types fuel t) (ns : String) {roots : List DataType}
    (hroots : ∀ root ∈ roots, Entry types root) : Generates types (fuel + 1) ns roots := by
  have hcall (g : TypeGenerator) (root : DataType) (hg : g.Ordered types ns) (hroot : Entry types root) :=
    generateClass_spec hkeys hbuilt hroot hg
  have hordered : ∀ g ∈ Run.visited (generateClass types (fuel + 1)) (new ns) roots, g.Ordered types ns := by
    refine Run.holds_of_kept (G := fun _ root => Entry types root) ?_ (new_ordered ns)
      fun call hmem => hroots _ (Run.edge_mem hmem)
    intro g root g' hg hroot hstep
    obtain ⟨g'', hstep', hg'', _⟩ := hcall g root hg hroot
    rwa [← Option.some.inj (hstep'.symm.trans hstep)]
  refine ⟨?_, hordered, fun call hmem => ?_⟩
  · refine Run.final_of_total (I := Ordered types ns) (fun g root hg hroot => ?_) (new_ordered ns) hroots
    obtain ⟨g', hstep, hg', _⟩ := hcall g root hg hroot
    exact ⟨g', hstep, hg'⟩
  · obtain ⟨g', hstep, _, hreturned⟩ :=
      hcall call.1 call.2 (hordered _ (Run.edge_visited hmem)) (hroots _ (Run.edge_mem hmem))
    exact ⟨g', hstep, hreturned⟩

/-- A root that a call generates is an entry, as what was generated is looked up. -/
theorem Generates.entries {types : TypeTable} {fuel : Nat} {ns : String} {roots : List DataType}
    (h : Generates types fuel ns roots) : ∀ root ∈ roots, Entry types root := by
  intro root hroot hgenerated hknown
  obtain ⟨last, hlast⟩ := h.returns
  obtain ⟨g, hedge⟩ := Run.edge_of_final hlast hroot
  obtain ⟨after, hstep, hreturned⟩ := h.returned _ hedge
  exact (h.ordered after (Run.edge_target_visited hedge hstep)).entries root
    ((hreturned.known hknown root).mpr (.inr ⟨hgenerated, .refl⟩))

/-- On a table of types without a cycle, for any calls on one generator: they return, write each
type once and behind the types of its fields, and each call adds what its root leads to or, if a
type is missing there, nothing, exactly if each root that leads to nothing unknown is a built-in
type or the table's type of its id. -/
theorem generation_order {types : TypeTable} (hkeys : types.Keyed) (hacyclic : types.Acyclic) (ns : String) :
    ∃ bound, ∀ fuel ≥ bound, ∀ roots : List DataType,
      Generates types fuel ns roots ↔
        ∀ root ∈ roots, root.Generated → types.Known root → types.find root.id = some root := by
  obtain ⟨bound, hbound⟩ := Filter.eventually_atTop.mp (eventually_all_built hkeys hacyclic)
  refine ⟨bound + 1, fun fuel hfuel roots => ⟨Generates.entries, fun hroots => ?_⟩⟩
  obtain ⟨fuel, rfl⟩ : ∃ n, fuel = n + 1 := ⟨fuel - 1, by omega⟩
  exact generates_of_entries hkeys (hbound fuel (by omega)) ns hroots

/-- A structure, one that it needs, and an enum that both need. -/
def sharedTypes : TypeTable :=
  [(⟨0, .numeric 12⟩, .base ⟨"std::string", ⟨0, .numeric 12⟩⟩),
    (⟨1, .numeric 1⟩, .struct ⟨"Outer", ⟨1, .numeric 1⟩,
      [⟨"Inner", -1, ⟨1, .numeric 2⟩⟩, ⟨"State", -1, ⟨1, .numeric 3⟩⟩]⟩),
    (⟨1, .numeric 2⟩, .struct ⟨"Inner", ⟨1, .numeric 2⟩,
      [⟨"State", 1, ⟨1, .numeric 3⟩⟩, ⟨"Name", -1, ⟨0, .numeric 12⟩⟩]⟩),
    (⟨1, .numeric 3⟩, .enum ⟨"State", ⟨1, .numeric 3⟩, []⟩)]

/-- The entries, in the order of their fields. -/
def sharedRank (id : NodeId) : Nat :=
  if id = ⟨1, .numeric 1⟩ then 0 else if id = ⟨1, .numeric 2⟩ then 1 else 2

theorem sharedTypes_names {a b : NodeId} (h : sharedTypes.Names a b) : sharedRank a < sharedRank b := by
  obtain ⟨t, ht, hb⟩ := h
  have hentry := TypeTable.mem_of_find ht
  simp only [sharedTypes, List.mem_cons, List.not_mem_nil, or_false, Prod.mk.injEq] at hentry
  rcases hentry with ⟨rfl, rfl⟩ | ⟨rfl, rfl⟩ | ⟨rfl, rfl⟩ | ⟨rfl, rfl⟩
  · cases hb
  · rcases List.mem_pair.mp hb with rfl | rfl <;> decide
  · rcases List.mem_pair.mp hb with rfl | rfl <;> decide
  · cases hb

theorem sharedTypes_acyclic : sharedTypes.Acyclic := by
  have hrank : ∀ a b, TransGen sharedTypes.Names a b → sharedRank a < sharedRank b := by
    intro a b h
    induction h with
    | single h => exact sharedTypes_names h
    | tail _ h ih => exact ih.trans (sharedTypes_names h)
  exact fun a h => Nat.lt_irrefl _ (hrank a a h)

theorem sharedTypes_keyed : sharedTypes.Keyed := by
  intro entry hentry
  simp only [sharedTypes, List.mem_cons, List.not_mem_nil, or_false] at hentry
  rcases hentry with rfl | rfl | rfl | rfl <;> rfl

theorem generation_order_shared :
    ∃ bound, ∀ fuel ≥ bound, Generates sharedTypes fuel "opc" (sharedTypes.map (·.2)) := by
  obtain ⟨bound, hbound⟩ := generation_order sharedTypes_keyed sharedTypes_acyclic "opc"
  have hroots : ∀ root ∈ sharedTypes.map (·.2), sharedTypes.find root.id = some root := by decide
  exact ⟨bound, fun fuel hfuel => (hbound fuel hfuel _).mpr fun root hroot _ _ => hroots root hroot⟩

/-- A structure whose field is of a type of the table, but which is not in it itself. -/
def looseType : DataType := .struct ⟨"Loose", ⟨1, .numeric 4⟩, [⟨"State", -1, ⟨1, .numeric 3⟩⟩]⟩

/-- Its order is found, and then its id is looked up, which the table does not have. -/
theorem loose_root_not_found :
    sharedTypes.Keyed ∧ sharedTypes.Acyclic ∧ ∀ fuel, ¬ Generates sharedTypes fuel "opc" [looseType] := by
  refine ⟨sharedTypes_keyed, sharedTypes_acyclic, fun fuel h => ?_⟩
  have hstate : sharedTypes.Known (.enum ⟨"State", ⟨1, .numeric 3⟩, []⟩) := TypeTable.known_iff.mpr nofun
  have hknown : sharedTypes.Known looseType :=
    TypeTable.known_iff.mpr (List.forall_mem_singleton.mpr ⟨_, rfl, hstate⟩)
  cases h.entries looseType (List.mem_singleton_self _) trivial hknown

example :
    (Run.final (generateClass sharedTypes 4) (new "opc") (sharedTypes.map (·.2))).map (·.calls.map (·.name)) =
      some ["State", "Inner", "Outer"] := by
  decide

end ModernOpc.Gen
