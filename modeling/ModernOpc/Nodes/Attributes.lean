import ModernOpc.Library.MapM
import ModernOpc.Variant.Memory
import ModernOpc.Variant.Value

/-! The attributes a variable is made with.

`getVariableAttributes` declares a data type and a rank for the type of the initial value
and, for a vector, its length. open62541 checks what is written against them: values of the
same type conform, vectors if they are as long as the first one or that one was empty
(`conforms_of_declares`). The Variant that it encodes the value in is a temporary. -/
namespace ModernOpc.Variables

/-! ### Attributes -/

/-- `UA_VariableAttributes`, as far as it is filled in. -/
structure VariableAttributes where
  accessLevel : UInt8
  dataType : Ua.NodeId
  valueRank : Int
  arrayDimensions : List UInt32
  value : Ua.Variant
  deriving DecidableEq, Repr

/-- `UA_ACCESSLEVELMASK_READ | UA_ACCESSLEVELMASK_WRITE`. -/
def readWrite : UInt8 := 0x01 ||| 0x02

/-- The two `getVariableAttributes`. The Variant in it is a temporary. -/
def getVariableAttributes (t : CppType) (val : t.El) (m : Memory) : Option (VariableAttributes × Memory) :=
  match Variant.ofValue (toUAVariant t val) m with
  | (none, _) => none
  | (some var, m) => do
    let c ← m.deref var.variant
    let value := m.content c
    let m ← var.destroy m
    match t, val with
    | .scalar s, _ => return (⟨readWrite, s.dataType.typeId, -1, [], value⟩, m)
    | .vector s, v => return (⟨readWrite, s.dataType.typeId, 1, [UInt32.ofNat v.length], value⟩, m)

/-- The value is of the declared type and rank, and of the declared length, if that is not 0. -/
def Conforms (attr : VariableAttributes) (v : Ua.Variant) : Prop :=
  v.type.map (·.typeId) = some attr.dataType ∧ Ua.rankAllowed attr.valueRank v.rank = true ∧
    ∀ d ∈ attr.arrayDimensions.head?, d = 0 ∨ v.arrayLength = d.toNat

instance (attr : VariableAttributes) (v : Ua.Variant) : Decidable (Conforms attr v) :=
  inferInstanceAs (Decidable (_ ∧ _))

/-! ### What is declared -/

/-- The length of a vector. -/
def length : (t : CppType) → t.El → Nat
  | .scalar _, _ => 0
  | .vector _, xs => xs.length

/-- The attributes of a variable made from a value of the type and length. -/
def Declares (t : CppType) (n : Nat) (attr : VariableAttributes) : Prop :=
  attr.dataType = t.elem.dataType.typeId ∧
    match t with
    | .scalar _ => attr.valueRank = -1 ∧ attr.arrayDimensions = []
    | .vector _ => attr.valueRank = 1 ∧ attr.arrayDimensions = [UInt32.ofNat n]

theorem toUAVariant_arrayLength {s : Scalar} {xs : List s.El} {v : Ua.Variant}
    (h : toUAVariant (.vector s) xs = some v) : v.arrayLength = xs.length := by
  obtain ⟨vs, hvs, hv⟩ := toUAVariantVector_cases h
  have hlen := Library.MapM.length_eq hvs
  rcases hv with rfl | rfl
  · rw [← hlen]
    cases vs <;> rfl
  · rw [← hlen]
    cases vs <;> rfl

/-- A value of the declared type conforms, of a vector if it is as long as the first one or that one
was empty. -/
theorem conforms_of_declares {t : CppType} {n : Nat} {attr : VariableAttributes} (h : Declares t n attr) {y : t.El}
    {v : Ua.Variant} (hv : toUAVariant t y = some v) (hn : n < 2 ^ 32) (hlen : n = 0 ∨ length t y = n) :
    Conforms attr v := by
  obtain ⟨htype, hrank⟩ := toUAVariant_shape hv
  obtain ⟨hdata, hdecl⟩ := h
  cases t with
  | scalar s =>
    obtain ⟨hvr, hdims⟩ := hdecl
    refine ⟨by rw [htype, hdata]; rfl, ?_, by simp [hdims]⟩
    rw [hvr, hrank]
    rfl
  | vector s =>
    obtain ⟨hvr, hdims⟩ := hdecl
    refine ⟨by rw [htype, hdata]; rfl, ?_, fun d hd => ?_⟩
    · rw [hvr, hrank]
      rfl
    · rw [hdims] at hd
      obtain rfl := Option.some.inj hd
      rcases hlen with rfl | hlen
      · exact .inl rfl
      · refine .inr ?_
        rw [toUAVariant_arrayLength hv, UInt32.toNat_ofNat', Nat.mod_eq_of_lt hn]
        exact hlen

/-! ### Temporaries -/

/-- Every cell that was allocated is deleted. -/
structure Clean (m : Memory) : Prop where
  proper : m.Proper
  deleted : ∀ n < m.next, .allocated n ∈ m.deleted

/-- A Variant that came and went leaves nothing behind. -/
theorem Clean.temporary {m m' : Memory} (h : Clean m) (hnext : m'.next = m.next + 1)
    (hdeleted : m'.deleted = .allocated m.next :: m.deleted) : Clean m' where
  proper := by
    intro n hn
    rw [hdeleted] at hn
    rcases List.mem_cons.mp hn with hn | hn
    · cases hn
      omega
    · have := h.proper n hn
      omega
  deleted := by
    intro n hn
    rw [hdeleted]
    by_cases he : n = m.next
    · exact he ▸ List.mem_cons_self ..
    · exact List.mem_cons_of_mem _ (h.deleted n (by omega))

/-- A Variant made from a value, and what it points to. -/
theorem ofValue_temporary {m : Memory} (hm : Clean m) (u : Ua.Variant) :
    ∃ var m', Variant.ofValue (some u) m = (some var, m') ∧ m'.deref var.variant = some (.allocated m.next) ∧
      m'.content (.allocated m.next) = u ∧ ∃ m'', var.destroy m' = some m'' ∧ Clean m'' := by
  refine ⟨_, _, rfl, ?_, Function.update_self .., _, rfl, hm.temporary rfl rfl⟩
  refine Memory.deref_eq_some.mpr ⟨rfl, Memory.exists?_iff.mpr ⟨hm.proper.next_not_deleted, fun n he => ?_⟩⟩
  cases he
  exact Nat.lt_succ_self _

/-- The attributes of a value declare its type and length, and hold it. -/
theorem getVariableAttributes_eq {m : Memory} (hm : Clean m) {t : CppType} {x : t.El} {v : Ua.Variant}
    (hv : toUAVariant t x = some v) :
    ∃ attr m', getVariableAttributes t x m = some (attr, m') ∧ Declares t (length t x) attr ∧ attr.value = v ∧
      Clean m' := by
  obtain ⟨var, m', hmade, hderef, hcontent, m'', hdestroy, hclean⟩ := ofValue_temporary hm v
  unfold getVariableAttributes
  rw [hv, hmade]
  cases t with
  | scalar s =>
    refine ⟨⟨readWrite, s.dataType.typeId, -1, [], v⟩, m'', ?_, ⟨rfl, rfl, rfl⟩, rfl, hclean⟩
    simp only [hderef, hcontent, hdestroy, Option.bind_eq_bind, Option.bind_some, Option.pure_def]
  | vector s =>
    refine ⟨⟨readWrite, s.dataType.typeId, 1, [UInt32.ofNat (List.length x)], v⟩, m'', ?_, ⟨rfl, rfl, rfl⟩, rfl,
      hclean⟩
    simp only [hderef, hcontent, hdestroy, Option.bind_eq_bind, Option.bind_some, Option.pure_def]

end ModernOpc.Variables
