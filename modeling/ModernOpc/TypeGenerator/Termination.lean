import ModernOpc.TypeGenerator.TypeGenerator

/-! Where the search for an order ends.

`buildOrder` follows the fields of structures and marks nothing it has met; it stops at the
first field of an unknown type. The fields it comes to are those behind fields whose types
lead to nothing unknown (`Visits`).

`buildOrder_ends_iff`: from a root the search ends, with `false` or with all types the root
leads to, exactly if what it comes to has no cycle. -/
namespace ModernOpc.Gen
open Library Library.Postorder Relation

variable (types : TypeTable)

namespace TypeTable

/-- The type of a field that the search comes to: those before it are all known. -/
def Visits (t t' : DataType) : Prop :=
  ∃ before id after, t.fieldTypes = before ++ id :: after ∧ types.find id = some t' ∧
    ∀ b ∈ before, ∃ tb, types.find b = some tb ∧ types.Known tb

variable {types}

theorem Visits.child {t t' : DataType} (h : types.Visits t t') : types.Child t t' := by
  obtain ⟨before, id, after, heq, hfind, _⟩ := h
  exact ⟨id, by rw [heq]; exact List.mem_append_right _ (List.mem_cons_self ..), hfind⟩

end TypeTable

/-! ### What the search answers -/

/-- The order and whether it went through, after the type was looked at. -/
structure Sound (t : DataType) (order : List NodeId) (answer : List NodeId × Bool) : Prop where
  grown : order ⊆ answer.1
  built : answer.2 = true ↔ types.Known t
  listed : answer.2 = true → ∀ t', ReflTransGen types.Child t t' → t'.Generated → t'.id ∈ answer.1

/-- The same after some fields were looked at. -/
structure SoundFields (ids : List NodeId) (order : List NodeId) (answer : List NodeId × Bool) : Prop where
  grown : order ⊆ answer.1
  built : answer.2 = true ↔ ∀ id ∈ ids, ∃ t, types.find id = some t ∧ types.Known t
  listed : answer.2 = true → ∀ id ∈ ids, ∀ t, types.find id = some t →
    ∀ t', ReflTransGen types.Child t t' → t'.Generated → t'.id ∈ answer.1

variable {types}

theorem buildFields_sound {build : DataType → List NodeId → Option (List NodeId × Bool)}
    (hbuild : ∀ t order answer, build t order = some answer → Sound types t order answer)
    {fields : List StructureDefinitionField} {order : List NodeId} {answer : List NodeId × Bool}
    (h : buildFields types build fields order = some answer) :
    SoundFields types (fields.map (·.dataType)) order answer := by
  induction fields generalizing order with
  | nil =>
    cases h
    exact ⟨List.Subset.refl _, by simp, by simp⟩
  | cons field rest ih =>
    unfold buildFields at h
    cases hfind : types.find field.dataType with
    | none =>
      rw [hfind] at h
      cases h
      refine ⟨List.Subset.refl _, by simp [hfind], fun h => by cases h⟩
    | some t2 =>
      rw [hfind] at h
      obtain ⟨⟨order', built⟩, hstep, h⟩ := Option.bind_eq_some_iff.mp h
      have hsound := hbuild t2 order _ hstep
      cases built with
      | false =>
        cases h
        have hunknown : ¬ types.Known t2 := fun hknown => by cases hsound.built.mpr hknown
        refine ⟨hsound.grown, by simp [hfind, hunknown], fun h => by cases h⟩
      | true =>
        have hrest := ih h
        have hknown : types.Known t2 := hsound.built.mp rfl
        refine ⟨fun id hid => hrest.grown (hsound.grown hid), ?_, fun hbuilt id hid t ht t' ht' hgen => ?_⟩
        · rw [hrest.built]
          simp [hfind, hknown]
        · rcases List.mem_cons.mp hid with rfl | hid
          · cases hfind.symm.trans ht
            exact hrest.grown (hsound.listed rfl t' ht' hgen)
          · exact hrest.listed hbuilt id hid t ht t' ht' hgen

theorem SoundFields.nil (order : List NodeId) : SoundFields types [] order (order, true) :=
  ⟨List.Subset.refl _, by simp, by simp⟩

/-- A type, once its fields were looked at; it is listed behind them if it is generated. -/
theorem SoundFields.type {t : DataType} {order : List NodeId} {answer : List NodeId × Bool}
    (h : SoundFields types t.fieldTypes order answer) (added : List NodeId)
    (hadded : t.Generated → answer.2 = true → t.id ∈ added) :
    Sound types t order (answer.1 ++ added, answer.2) where
  grown id hid := List.mem_append_left _ (h.grown hid)
  built := h.built.trans TypeTable.known_iff.symm
  listed hbuilt t' ht' hgen := by
    rcases ht'.cases_head with rfl | ⟨u, ⟨id, hid, hu⟩, ht'⟩
    · exact List.mem_append_right _ (hadded hgen hbuilt)
    · exact List.mem_append_left _ (h.listed hbuilt id hid u hu t' ht' hgen)

/-- Where the search answers, it says whether the type leads to nothing unknown, and then it
has listed all that the type leads to. -/
theorem buildOrder_sound (fuel : Nat) {t : DataType} {order : List NodeId} {answer : List NodeId × Bool}
    (h : buildOrder types fuel t order = some answer) : Sound types t order answer := by
  induction fuel generalizing t order answer with
  | zero => cases h
  | succ fuel ih =>
    cases t with
    | base type =>
      cases h
      have hnil : SoundFields types (DataType.base type).fieldTypes order (order, true) := .nil order
      have hleaf := hnil.type [] fun hgen => hgen.elim
      rwa [List.append_nil] at hleaf
    | enum type =>
      cases h
      exact (SoundFields.nil order).type (t := .enum type) [type.id] fun _ _ => List.mem_singleton_self _
    | struct type =>
      obtain ⟨⟨order', built⟩, hfields, h⟩ := Option.bind_eq_some_iff.mp h
      have hsound := buildFields_sound (fun t order answer => ih) hfields
      cases built with
      | true =>
        cases h
        exact hsound.type (t := .struct type) [type.id] fun _ _ => List.mem_singleton_self _
      | false =>
        cases h
        have hstopped := hsound.type (t := .struct type) [] fun _ hbuilt => by cases hbuilt
        rwa [List.append_nil] at hstopped

/-! ### Where it ends -/

/-- The loop answers if the type of its first field does and then, where that is known, the
rest. -/
theorem buildFields_isSome {build : DataType → List NodeId → Option (List NodeId × Bool)}
    {field : StructureDefinitionField} {rest : List StructureDefinitionField}
    {order : List NodeId} {t2 : DataType} (hfind : types.find field.dataType = some t2) :
    (buildFields types build (field :: rest) order).isSome ↔
      ∃ answer, build t2 order = some answer ∧
        (answer.2 = true → (buildFields types build rest answer.1).isSome) := by
  have hcons : buildFields types build (field :: rest) order = (build t2 order).bind fun answer =>
      if answer.2 then buildFields types build rest answer.1 else some (answer.1, false) := by
    rw [buildFields, hfind]
    rfl
  rw [hcons]
  cases build t2 order with
  | none => simp
  | some answer =>
    obtain ⟨order', built⟩ := answer
    cases built <;> simp

theorem buildOrder_struct_isSome {fuel : Nat} {type : StructureDataType} {order : List NodeId} :
    (buildOrder types (fuel + 1) (.struct type) order).isSome ↔
      (buildFields types (buildOrder types fuel) type.fields order).isSome := by
  unfold buildOrder
  cases buildFields types (buildOrder types fuel) type.fields order with
  | none => simp
  | some answer =>
    obtain ⟨order', built⟩ := answer
    cases built <;> simp

/-- Behind known fields the search comes to the next one. -/
theorem buildFields_visits {fuel : Nat} {fields : List StructureDefinitionField} {order : List NodeId}
    (h : (buildFields types (buildOrder types fuel) fields order).isSome) {before after : List NodeId}
    {id : NodeId} {t' : DataType} (heq : fields.map (·.dataType) = before ++ id :: after)
    (hfind : types.find id = some t') (hknown : ∀ b ∈ before, ∃ tb, types.find b = some tb ∧ types.Known tb) :
    ∃ order, (buildOrder types fuel t' order).isSome := by
  induction fields generalizing order before with
  | nil => cases before <;> cases heq
  | cons field rest ih =>
    cases before with
    | nil =>
      cases (List.cons.inj heq).1
      obtain ⟨answer, hanswer, _⟩ := (buildFields_isSome hfind).mp h
      exact ⟨order, by rw [hanswer]; rfl⟩
    | cons b before =>
      obtain ⟨hb, hrest⟩ := List.cons.inj heq
      subst hb
      obtain ⟨tb, htb, hknown'⟩ := hknown _ (List.mem_cons_self ..)
      obtain ⟨answer, hanswer, hgoes⟩ := (buildFields_isSome htb).mp h
      have hbuilt := (buildOrder_sound fuel hanswer).built.mpr hknown'
      exact ih (hgoes hbuilt) hrest fun b hb => hknown b (List.mem_cons_of_mem _ hb)

/-- Where the search answers, no way of its goes on for ever. -/
theorem acc_of_buildOrder {fuel : Nat} {t : DataType} {order : List NodeId}
    (h : (buildOrder types fuel t order).isSome) : Acc (fun b a => types.Visits a b) t := by
  induction fuel generalizing t order with
  | zero => cases h
  | succ fuel ih =>
    refine .intro t fun t' ⟨before, id, after, heq, hfind, hknown⟩ => ?_
    cases t with
    | base type => cases before <;> cases heq
    | enum type => cases before <;> cases heq
    | struct type =>
      obtain ⟨order', h'⟩ := buildFields_visits (buildOrder_struct_isSome.mp h) heq hfind hknown
      exact ih h'

/-- Behind known fields the rest of a structure's fields is gone through, if the recursion
may go deep enough. -/
theorem eventually_fields {type : StructureDataType}
    (h : ∀ t', types.Visits (.struct type) t' →
      ∀ᶠ fuel in Filter.atTop, ∀ order, (buildOrder types fuel t' order).isSome)
    {rest : List StructureDefinitionField} {before : List NodeId}
    (heq : type.fields.map (·.dataType) = before ++ rest.map (·.dataType))
    (hknown : ∀ b ∈ before, ∃ tb, types.find b = some tb ∧ types.Known tb) :
    ∀ᶠ fuel in Filter.atTop, ∀ order, (buildFields types (buildOrder types fuel) rest order).isSome := by
  induction rest generalizing before with
  | nil => exact .of_forall fun _ _ => rfl
  | cons field rest ih =>
    cases hfind : types.find field.dataType with
    | none =>
      refine .of_forall fun fuel order => ?_
      unfold buildFields
      rw [hfind]
      rfl
    | some t2 =>
      have hsplit : (DataType.struct type).fieldTypes = before ++ field.dataType :: rest.map (·.dataType) := heq
      have ht2 := h t2 ⟨before, _, _, hsplit, hfind, hknown⟩
      by_cases hknown2 : types.Known t2
      · have hmoved : type.fields.map (·.dataType) = (before ++ [field.dataType]) ++ rest.map (·.dataType) := by
          rw [heq]
          simp
        have hrest := ih hmoved fun b hb => by
          rcases List.mem_append.mp hb with hb | hb
          · exact hknown b hb
          · rw [List.mem_singleton.mp hb]
            exact ⟨t2, hfind, hknown2⟩
        refine (ht2.and hrest).mono fun fuel hfuel order => (buildFields_isSome hfind).mpr ?_
        obtain ⟨answer, hanswer⟩ := Option.isSome_iff_exists.mp (hfuel.1 order)
        exact ⟨answer, hanswer, fun _ => hfuel.2 answer.1⟩
      · refine ht2.mono fun fuel hfuel order => (buildFields_isSome hfind).mpr ?_
        obtain ⟨answer, hanswer⟩ := Option.isSome_iff_exists.mp (hfuel order)
        exact ⟨answer, hanswer, fun hbuilt => absurd ((buildOrder_sound fuel hanswer).built.mp hbuilt) hknown2⟩

/-- From a type with no endless way the search answers, if the recursion may go deep enough. -/
theorem eventually_answers {t : DataType} (h : Acc (fun b a => types.Visits a b) t) :
    ∀ᶠ fuel in Filter.atTop, ∀ order, (buildOrder types fuel t order).isSome := by
  induction h with
  | intro t _ ih =>
    suffices hsucc : ∀ᶠ fuel in Filter.atTop, ∀ order, (buildOrder types (fuel + 1) t order).isSome by
      obtain ⟨bound, hbound⟩ := Filter.eventually_atTop.mp hsucc
      refine Filter.eventually_atTop.mpr ⟨bound + 1, fun fuel hfuel => ?_⟩
      obtain ⟨fuel, rfl⟩ : ∃ n, fuel = n + 1 := ⟨fuel - 1, by omega⟩
      exact hbound fuel (by omega)
    cases t with
    | base type => exact .of_forall fun _ _ => rfl
    | enum type => exact .of_forall fun _ _ => rfl
    | struct type =>
      have hall : type.fields.map (·.dataType) = [] ++ type.fields.map (·.dataType) := rfl
      have hfields := eventually_fields ih hall fun b hb => by cases hb
      exact hfields.mono fun fuel hfuel order => buildOrder_struct_isSome.mpr (hfuel order)

/-- The search from a root ends: with `false`, or with every enum and structure that the root
leads to. -/
def Ends (types : TypeTable) (root : DataType) : Prop :=
  ∃ bound, ∀ fuel ≥ bound, ∃ order built, buildOrder types fuel root [] = some (order, built) ∧
    (built = true → ∀ t, ReflTransGen types.Child root t → t.Generated → t.id ∈ order)

theorem ends_iff_acc (types : TypeTable) (root : DataType) :
    Ends types root ↔ Acc (fun b a => types.Visits a b) root := by
  constructor
  · intro ⟨bound, h⟩
    obtain ⟨order, built, hanswer, _⟩ := h bound (Nat.le_refl _)
    have hsome : (buildOrder types bound root []).isSome := by
      rw [hanswer]
      rfl
    exact acc_of_buildOrder hsome
  · intro h
    obtain ⟨bound, hbound⟩ := Filter.eventually_atTop.mp (eventually_answers h)
    refine ⟨bound, fun fuel hfuel => ?_⟩
    obtain ⟨⟨order, built⟩, hanswer⟩ := Option.isSome_iff_exists.mp (hbound fuel hfuel [])
    exact ⟨order, built, hanswer, (buildOrder_sound fuel hanswer).listed⟩

/-- On any table, the search from a root ends exactly if the fields it comes to lead it
around no cycle. -/
theorem buildOrder_ends_iff (types : TypeTable) (root : DataType) :
    Ends types root ↔ ∀ t, ReflTransGen types.Visits root t → ¬ TransGen types.Visits t t := by
  rw [ends_iff_acc]
  have hfinite : ∀ t, ReflTransGen types.Visits root t → t ∈ root :: types.map (·.2) := by
    intro t ht
    rcases ht.cases_tail with rfl | ⟨u, _, hvisit⟩
    · exact List.mem_cons_self ..
    · obtain ⟨id, _, hfind⟩ := hvisit.child
      exact List.mem_cons_of_mem _ (List.mem_map_of_mem (TypeTable.mem_of_find hfind))
  exact acc_iff_acyclic hfinite

/-- A structure with a field of its own type. -/
def recursiveType : DataType := .struct ⟨"Node", ⟨1, .numeric 20⟩, [⟨"Next", -1, ⟨1, .numeric 20⟩⟩]⟩

/-- The search for its order never ends. -/
theorem recursive_type_endless : ¬ ∀ (types : TypeTable) (root : DataType), Ends types root := by
  intro h
  have hvisit : TypeTable.Visits [(⟨1, .numeric 20⟩, recursiveType)] recursiveType recursiveType :=
    ⟨[], ⟨1, .numeric 20⟩, [], rfl, rfl, fun b hb => by cases hb⟩
  have hendless : ∀ t, Acc (fun b a => TypeTable.Visits [(⟨1, .numeric 20⟩, recursiveType)] a b) t →
      t ≠ recursiveType := by
    intro t ht
    induction ht with
    | intro t _ ih =>
      intro he
      subst he
      exact ih recursiveType hvisit rfl
  exact hendless _ ((ends_iff_acc _ _).mp (h _ recursiveType)) rfl

end ModernOpc.Gen
