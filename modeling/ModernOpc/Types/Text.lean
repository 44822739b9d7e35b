import ModernOpc.Ua.Types

/-! Qualified names and localized texts, and their conversion to and from open62541.

Both go out as C strings and come back with a length, so what comes back is the
text up to its first zero byte. -/
namespace ModernOpc
open Library.Bytes

structure QualifiedName where
  nsIdx : UInt16
  n : Bytes
  deriving DecidableEq, Repr

structure LocalizedText where
  loc : Bytes
  txt : Bytes
  deriving DecidableEq, Repr

/-- `fromUAString`: no read of an empty string's data pointer. -/
def fromUAString (s : Bytes) : Bytes := if s.length > 0 then s else []

@[simp] theorem fromUAString_eq (s : Bytes) : fromUAString s = s := by
  cases s <;> simp [fromUAString]

/-- `fromQualifiedName`, by `UA_QUALIFIEDNAME`. -/
def fromQualifiedName (qn : QualifiedName) : Ua.QualifiedName := ⟨qn.nsIdx, Ua.string qn.n⟩

/-- `fromUAQualifiedName`. -/
def fromUAQualifiedName (qn : Ua.QualifiedName) : QualifiedName :=
  ⟨qn.namespaceIndex, fromUAString qn.name⟩

/-- `fromLocalizedText`, by `UA_LOCALIZEDTEXT_ALLOC`. -/
def fromLocalizedText (lt : LocalizedText) : Ua.LocalizedText :=
  ⟨Ua.string lt.loc, Ua.string lt.txt⟩

/-- `fromUALocalizedText`. -/
def fromUALocalizedText (lt : Ua.LocalizedText) : LocalizedText := ⟨lt.locale, lt.text⟩

theorem fromUAQualifiedName_injective {u v : Ua.QualifiedName}
    (h : fromUAQualifiedName u = fromUAQualifiedName v) : u = v := by
  simp only [fromUAQualifiedName, fromUAString_eq, QualifiedName.mk.injEq] at h
  cases u
  cases v
  exact Ua.QualifiedName.mk.injEq .. ▸ h

theorem fromUALocalizedText_injective {u v : Ua.LocalizedText}
    (h : fromUALocalizedText u = fromUALocalizedText v) : u = v := by
  cases u
  cases v
  exact Ua.LocalizedText.mk.injEq .. ▸ LocalizedText.mk.inj h

namespace QualifiedName

/-- No zero byte in the name. -/
def ZeroFree (qn : QualifiedName) : Prop := (0 : UInt8) ∉ qn.n

/-- The name that comes back from open62541. -/
def truncated (qn : QualifiedName) : QualifiedName := ⟨qn.nsIdx, cString qn.n⟩

@[simp] theorem fromUAQualifiedName_fromQualifiedName (qn : QualifiedName) :
    fromUAQualifiedName (fromQualifiedName qn) = qn.truncated := by
  simp [fromUAQualifiedName, fromQualifiedName, truncated, Ua.string]

theorem truncated_eq_self {qn : QualifiedName} : qn.truncated = qn ↔ qn.ZeroFree := by
  cases qn
  simp [truncated, ZeroFree]

end QualifiedName

namespace LocalizedText

/-- No zero byte in the locale or the text. -/
def ZeroFree (lt : LocalizedText) : Prop := (0 : UInt8) ∉ lt.loc ∧ (0 : UInt8) ∉ lt.txt

/-- The text that comes back from open62541. -/
def truncated (lt : LocalizedText) : LocalizedText := ⟨cString lt.loc, cString lt.txt⟩

@[simp] theorem fromUALocalizedText_fromLocalizedText (lt : LocalizedText) :
    fromUALocalizedText (fromLocalizedText lt) = lt.truncated := rfl

theorem truncated_eq_self {lt : LocalizedText} : lt.truncated = lt ↔ lt.ZeroFree := by
  cases lt
  simp [truncated, ZeroFree]

end LocalizedText

end ModernOpc
