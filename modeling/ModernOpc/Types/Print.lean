import ModernOpc.Library.Decimal
import ModernOpc.Library.Fields
import ModernOpc.Types.NodeId
import ModernOpc.Types.Text

/-! Ids, names and texts as they are printed.

`operator<<` writes a namespace index in decimal, a letter for the kind of identifier and
the identifier as it is; a guid is eleven decimal numbers.

`print_unique`: no two ids are printed alike, whatever their strings hold, and no two
qualified names; a localized text is printed like another one as soon as its locale or its
text has a `;text=`. -/
namespace ModernOpc
open Library Library.Bytes Library.Decimal

/-- A number that is not negative, as a stream or `std::to_string` writes it. -/
def decimal (n : Nat) : Bytes := literal (toString n)

/-- An `int`. -/
def signedDecimal (i : Int32) : Bytes :=
  if i.toInt < 0 then literal "-" ++ decimal i.toInt.natAbs else decimal i.toInt.natAbs

/-! ### The operators -/

/-- The numbers of a `Guid`, in the order printed. -/
def Guid.numbers (g : Guid) : List Nat :=
  g.data1.toNat :: g.data2.toNat :: g.data3.toNat :: g.data4.toList.map UInt8.toNat

namespace NodeId

/-- What stands behind the namespace index. -/
def printIdentifier (id : NodeId) : Option Bytes :=
  match id.type with
  | .numeric => do return literal "i=" ++ signedDecimal (← id.i.getInt)
  | .byteString => do return literal "b=" ++ (← id.i.getString)
  | .string => do return literal "s=" ++ (← id.i.getString)
  | .guid => do return literal "g=" ++ Fields.join 0x2D ((← id.i.getGuid).numbers.map decimal)

/-- `operator<<`; no result where `std::get` throws. -/
def print (id : NodeId) : Option Bytes := do
  let identifier ← id.printIdentifier
  return literal "ns=" ++ decimal id.nsIdx.toNat ++ literal ";" ++ identifier

end NodeId

/-- `operator<<`. -/
def QualifiedName.print (qn : QualifiedName) : Bytes :=
  literal "ns=" ++ decimal qn.nsIdx.toNat ++ literal ";name=" ++ qn.n

/-- What `operator<<` writes between locale and text. -/
def LocalizedText.between : Bytes := literal ";text="

/-- `operator<<`. -/
def LocalizedText.print (lt : LocalizedText) : Bytes :=
  literal "locale=" ++ lt.loc ++ between ++ lt.txt

/-! ### Numbers -/

theorem chars_append (a b : Bytes) : chars (a ++ b) = chars a ++ chars b := List.map_append

theorem chars_decimal (n : Nat) : chars (decimal n) = Nat.toDigits 10 n := by
  have hdigits : (toString n).toList = Nat.toDigits 10 n := Nat.toList_repr
  rw [decimal, chars_literal fun c hc => ?_, hdigits]
  rw [hdigits] at hc
  have := isDigit_toNat (Nat.isDigit_of_mem_toDigits (by decide) (by decide) hc)
  omega

theorem decimal_injective {m n : Nat} (h : decimal m = decimal n) : m = n := by
  have hread := congrArg (fun s => strtol (chars s)) h
  simp only [chars_decimal, strtol_number, Option.some.injEq] at hread
  exact Int.ofNat.inj hread

/-- Only digits are written. -/
theorem not_mem_decimal {b : UInt8} (h : (Char.ofNat b.toNat).isDigit = false) (n : Nat) : b ∉ decimal n := by
  intro hb
  have hc : Char.ofNat b.toNat ∈ chars (decimal n) := List.mem_map_of_mem hb
  rw [chars_decimal] at hc
  rw [Nat.isDigit_of_mem_toDigits (by decide) (by decide) hc] at h
  cases h

/-- A minus sign turns a number around. -/
theorem strtol_minus {digits : List Char} (hne : digits ≠ []) (h : ∀ c ∈ digits, c.isDigit = true) :
    strtol ('-' :: digits) = some (-(Nat.ofDigitChars 10 digits 0 : Int)) := by
  have hunsigned := unsigned_digits hne h Ends.nil
  rw [List.append_nil] at hunsigned
  show (unsigned digits).map (fun n => -(n : Int)) = _
  rw [hunsigned]
  rfl

/-- What is written of an `int` is read as that `int`. -/
theorem strtol_signedDecimal (i : Int32) : strtol (chars (signedDecimal i)) = some i.toInt := by
  unfold signedDecimal
  split
  · next hneg =>
    have hminus : chars (literal "-" ++ decimal i.toInt.natAbs) = '-' :: Nat.toDigits 10 i.toInt.natAbs := by
      rw [chars_append, chars_decimal]
      rfl
    rw [hminus, strtol_minus Nat.toDigits_ne_nil
      (fun _ hc => Nat.isDigit_of_mem_toDigits (by decide) (by decide) hc), Nat.ofDigitChars_ten_toDigits]
    exact congrArg some (by omega)
  · next hpos =>
    rw [chars_decimal, strtol_number]
    exact congrArg some (by omega)

theorem signedDecimal_injective {i j : Int32} (h : signedDecimal i = signedDecimal j) : i = j := by
  have hread := congrArg (fun s => strtol (chars s)) h
  simp only [strtol_signedDecimal, Option.some.injEq] at hread
  exact Int32.toInt_inj.mp hread

theorem Guid.numbers_injective {g h : Guid} (e : g.numbers = h.numbers) : g = h := by
  obtain ⟨e1, e⟩ := List.cons.inj e
  obtain ⟨e2, e⟩ := List.cons.inj e
  obtain ⟨e3, e4⟩ := List.cons.inj e
  have h1 := UInt32.toNat_inj.mp e1
  have h2 := UInt16.toNat_inj.mp e2
  have h3 := UInt16.toNat_inj.mp e3
  have h4 := Vector.toList_inj.mp (List.map_injective_iff.mpr (fun _ _ => UInt8.toNat_inj.mp) e4)
  cases g
  cases h
  subst h1 h2 h3 h4
  rfl

/-! ### No two alike -/

/-- The namespace index ends at the first semicolon. -/
theorem namespace_cut {m n : UInt16} {x y : Bytes}
    (h : literal "ns=" ++ decimal m.toNat ++ literal ";" ++ x = literal "ns=" ++ decimal n.toNat ++ literal ";" ++ y) :
    m = n ∧ x = y := by
  have hsemi : ∀ k : UInt16, (0x3B : UInt8) ∉ decimal k.toNat := fun k => not_mem_decimal (by decide) _
  simp only [List.append_assoc] at h
  obtain ⟨hns, hrest⟩ := Fields.cut (hsemi m) (hsemi n) (List.append_cancel_left h)
  exact ⟨UInt16.toNat_inj.mp (decimal_injective hns), hrest⟩

/-- The fields of a guid are told apart. -/
theorem guid_cut {g h : Guid}
    (e : Fields.join 0x2D (g.numbers.map decimal) = Fields.join 0x2D (h.numbers.map decimal)) : g = h := by
  have hdash : ∀ k : Guid, ∀ x ∈ k.numbers.map decimal, (0x2D : UInt8) ∉ x := by
    intro k x hx
    obtain ⟨n, _, rfl⟩ := List.mem_map.mp hx
    exact not_mem_decimal (by decide) n
  have hlen : ∀ k : Guid, (k.numbers.map decimal).length = 11 := fun k => by simp [Guid.numbers]
  have hmap := Fields.join_injective (hdash g) (hdash h) ((hlen g).trans (hlen h).symm) e
  exact Guid.numbers_injective (List.map_injective_iff.mpr (fun _ _ => decimal_injective) hmap)

theorem NodeId.print_eq {n : NodeId} (h : n.Matching) : ∃ x, n.printIdentifier = some x ∧
    n.print = some (literal "ns=" ++ decimal n.nsIdx.toNat ++ literal ";" ++ x) := by
  obtain ⟨ns, i, rfl⟩ | ⟨ns, s, rfl⟩ | ⟨ns, s, rfl⟩ | ⟨ns, g, rfl⟩ := h.cases <;> exact ⟨_, rfl, rfl⟩

/-- The letter tells the kinds apart. -/
theorem NodeId.printIdentifier_injective {m n : NodeId} (hm : m.Matching) (hn : n.Matching)
    (hns : m.nsIdx = n.nsIdx) (h : m.printIdentifier = n.printIdentifier) : m = n := by
  obtain ⟨ns, i, rfl⟩ | ⟨ns, s, rfl⟩ | ⟨ns, s, rfl⟩ | ⟨ns, g, rfl⟩ := hm.cases <;>
    obtain ⟨ns', j, rfl⟩ | ⟨ns', t, rfl⟩ | ⟨ns', t, rfl⟩ | ⟨ns', k, rfl⟩ := hn.cases <;>
    obtain rfl : ns = ns' := hns
  case inl.inl => rw [signedDecimal_injective (List.append_cancel_left (Option.some.inj h))]
  case inr.inl.inr.inl => rw [List.append_cancel_left (Option.some.inj h)]
  case inr.inr.inl.inr.inr.inl => rw [List.append_cancel_left (Option.some.inj h)]
  case inr.inr.inr.inr.inr.inr => rw [guid_cut (List.append_cancel_left (Option.some.inj h))]
  all_goals exact absurd (List.cons.inj (Option.some.inj h)).1 (by decide)

theorem NodeId.print_injective {m n : NodeId} (hm : m.Matching) (hn : n.Matching) (h : m.print = n.print) :
    m = n := by
  obtain ⟨x, hx, hs⟩ := NodeId.print_eq hm
  obtain ⟨y, hy, ht⟩ := NodeId.print_eq hn
  obtain ⟨hns, rfl⟩ := namespace_cut (Option.some.inj (hs.symm.trans (h.trans ht)))
  exact NodeId.printIdentifier_injective hm hn hns (hx.trans hy.symm)

theorem QualifiedName.print_injective {a b : QualifiedName} (h : a.print = b.print) : a = b := by
  obtain ⟨hns, hrest⟩ := namespace_cut (x := literal "name=" ++ a.n) (y := literal "name=" ++ b.n)
    (by simpa [QualifiedName.print, literal] using h)
  cases a
  cases b
  exact QualifiedName.mk.injEq .. ▸ ⟨hns, List.append_cancel_left hrest⟩

namespace LocalizedText

/-- The first letter of `;text=` is the only semicolon in it. -/
theorem between_eq : ∃ w, between = 0x3B :: w ∧ (0x3B : UInt8) ∉ w := ⟨_, rfl, by decide⟩

theorem print_eq_iff {a b : LocalizedText} :
    a.print = b.print ↔ a.loc ++ (between ++ a.txt) = b.loc ++ (between ++ b.txt) := by
  simp only [print, List.append_assoc]
  exact List.append_right_inj _

/-- A text is printed like no other one exactly if there is only one `;text=` to find. -/
theorem print_unique_iff (a : LocalizedText) :
    (∀ b : LocalizedText, a.print = b.print → a = b) ↔ ¬ between <:+: a.loc ∧ ¬ between <:+: a.txt := by
  obtain ⟨w, hw, hsemi⟩ := between_eq
  have hne : ∀ m s : Bytes, s ≠ m ++ (between ++ s) := by
    intro m s hs
    have hlen := congrArg List.length hs
    simp only [hw, List.length_append, List.length_cons] at hlen
    omega
  constructor
  · intro h
    refine ⟨fun ⟨l, m, hl⟩ => ?_, fun ⟨m, r, hr⟩ => ?_⟩
    · -- the locale ends at its own `;text=`
      have heq := h ⟨l, m ++ (between ++ a.txt)⟩ (print_eq_iff.mpr (by simp only [← hl, List.append_assoc]))
      exact hne m a.txt (congrArg txt heq)
    · have heq := h ⟨a.loc ++ (between ++ m), r⟩ (print_eq_iff.mpr (by simp only [← hr, List.append_assoc]))
      have hloc := congrArg List.length (congrArg loc heq)
      simp only [hw, List.length_append, List.length_cons] at hloc
      omega
  · intro ⟨hloc, htxt⟩ b hb
    have hb := print_eq_iff.mp hb
    rw [hw] at hb hloc htxt
    rcases Fields.word_cut hsemi hb with ⟨hl, ht⟩ | ⟨m, _, ht⟩ | ⟨m, hl, _⟩
    · cases a
      cases b
      exact LocalizedText.mk.injEq .. ▸ ⟨hl, ht⟩
    · exact absurd ⟨m, b.txt, by rw [ht, List.append_assoc]⟩ htxt
    · exact absurd ⟨b.loc, m, by rw [hl, List.append_assoc]⟩ hloc

end LocalizedText

/-- Printed texts tell ids and qualified names apart; of localized texts exactly those that nowhere have
a `;text=` of their own. -/
theorem print_unique :
    (∀ m n : NodeId, m.Matching → n.Matching → (m.print = n.print ↔ m = n)) ∧
    (∀ a b : QualifiedName, a.print = b.print ↔ a = b) ∧
    ∀ a : LocalizedText, (∀ b : LocalizedText, a.print = b.print → a = b) ↔
      ¬ LocalizedText.between <:+: a.loc ∧ ¬ LocalizedText.between <:+: a.txt :=
  ⟨fun _ _ hm hn => ⟨NodeId.print_injective hm hn, congrArg NodeId.print⟩,
    fun _ _ => ⟨QualifiedName.print_injective, congrArg QualifiedName.print⟩, LocalizedText.print_unique_iff⟩

/-- The locale `a` with the text `b;text=c` is printed like the locale `a;text=b` with the text `c`. -/
example : LocalizedText.print ⟨literal "a", literal "b;text=c"⟩ =
    LocalizedText.print ⟨literal "a;text=b", literal "c"⟩ := by
  decide

end ModernOpc
