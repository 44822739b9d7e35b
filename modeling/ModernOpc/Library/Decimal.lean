import Mathlib.Algebra.Group.Nat.Defs
import Mathlib.Data.List.TakeWhile

/-! Decimal numbers in text, as the C library reads them.

`strtol` skips blanks, takes a sign and as many digits as follow, and leaves the rest.
`strtol_toDigits`: the digits of a number are read as that number, whatever comes after
them but another digit. -/
namespace ModernOpc.Library.Decimal

/-- `isspace`, in the C locale. -/
def isSpace (c : Char) : Bool := c == ' ' || (9 ≤ c.toNat && c.toNat ≤ 13)

/-- The number that the leading digits of a text denote, if it begins with one. -/
def unsigned (s : List Char) : Option Nat :=
  let digits := s.takeWhile Char.isDigit
  if digits = [] then none else some (Nat.ofDigitChars 10 digits 0)

/-- `strtol` in base ten, before its result is brought into the range of a `long`. -/
def strtol (s : List Char) : Option Int :=
  match s.dropWhile isSpace with
  | '-' :: rest => (unsigned rest).map fun n => -(n : Int)
  | '+' :: rest => (unsigned rest).map fun n => (n : Int)
  | rest => (unsigned rest).map fun n => (n : Int)

/-- The `long` of 64 bits of a value: its ends, where it lies beyond them. -/
def toLong (i : Int) : Int :=
  if i < Int64.minValue.toInt then Int64.minValue.toInt
  else if Int64.maxValue.toInt < i then Int64.maxValue.toInt
  else i

/-- The `int` of a value, where it has one. -/
def toInt32 (i : Int) : Option Int32 :=
  if Int32.minValue.toInt ≤ i ∧ i ≤ Int32.maxValue.toInt then some (Int32.ofInt i) else none

/-- The text does not go on with a digit. -/
def Ends (rest : List Char) : Prop := ∀ c ∈ rest.head?, c.isDigit = false

theorem Ends.nil : Ends [] := fun _ hc => by cases hc

theorem isDigit_toNat {c : Char} (h : c.isDigit = true) : 48 ≤ c.toNat ∧ c.toNat ≤ 57 := by
  simp only [Char.isDigit, Bool.and_eq_true, decide_eq_true_eq, UInt32.le_iff_toNat_le] at h
  exact h

theorem takeWhile_digits {digits rest : List Char} (h : ∀ c ∈ digits, c.isDigit = true) (hrest : Ends rest) :
    (digits ++ rest).takeWhile Char.isDigit = digits := by
  rw [List.takeWhile_append_of_pos h]
  cases rest with
  | nil => exact List.append_nil _
  | cons c rest =>
    rw [List.takeWhile_cons_of_neg (by rw [hrest c rfl]; exact Bool.false_ne_true), List.append_nil]

theorem unsigned_digits {digits rest : List Char} (hne : digits ≠ []) (h : ∀ c ∈ digits, c.isDigit = true)
    (hrest : Ends rest) : unsigned (digits ++ rest) = some (Nat.ofDigitChars 10 digits 0) := by
  simp only [unsigned, takeWhile_digits h hrest, if_neg hne]

/-- A digit is neither a blank nor a sign. -/
theorem strtol_of_digit {c : Char} (h : c.isDigit = true) (rest : List Char) :
    strtol (c :: rest) = (unsigned (c :: rest)).map fun n => (n : Int) := by
  have hrange := isDigit_toNat h
  have hspace : isSpace c = false := by
    have hblank : c ≠ ' ' := fun he => absurd (he ▸ hrange.1) (by decide)
    simp [isSpace, hblank]
    omega
  have hminus : c ≠ '-' := fun he => absurd (he ▸ hrange.1) (by decide)
  have hplus : c ≠ '+' := fun he => absurd (he ▸ hrange.1) (by decide)
  unfold strtol
  rw [List.dropWhile_cons_of_neg (by rw [hspace]; exact Bool.false_ne_true)]
  split
  · next heq => exact absurd (List.cons.inj heq).1 hminus
  · next heq => exact absurd (List.cons.inj heq).1 hplus
  · rfl

/-- Digits are read as the number they denote. -/
theorem strtol_digits {digits rest : List Char} (hne : digits ≠ []) (h : ∀ c ∈ digits, c.isDigit = true)
    (hrest : Ends rest) : strtol (digits ++ rest) = some (Nat.ofDigitChars 10 digits 0 : Int) := by
  obtain ⟨c, cs, rfl⟩ := List.exists_cons_of_ne_nil hne
  have hunsigned := unsigned_digits hne h hrest
  rw [List.cons_append] at hunsigned ⊢
  rw [strtol_of_digit (h c (List.mem_cons_self ..)), hunsigned]
  rfl

/-- The digits of a number are read as that number. -/
theorem strtol_toDigits (n : Nat) {rest : List Char} (hrest : Ends rest) :
    strtol (Nat.toDigits 10 n ++ rest) = some (n : Int) := by
  rw [strtol_digits Nat.toDigits_ne_nil
    (fun _ hc => Nat.isDigit_of_mem_toDigits (by decide) (by decide) hc) hrest, Nat.ofDigitChars_ten_toDigits]

theorem strtol_number (n : Nat) : strtol (Nat.toDigits 10 n) = some (n : Int) := by
  have hread := strtol_toDigits n Ends.nil
  rwa [List.append_nil] at hread

theorem toLong_of_range {i : Int} (hmin : Int64.minValue.toInt ≤ i) (hmax : i ≤ Int64.maxValue.toInt) :
    toLong i = i := by
  unfold toLong
  rw [if_neg (Int.not_lt.mpr hmin), if_neg (Int.not_lt.mpr hmax)]

theorem toInt32_natCast (n : Nat) :
    toInt32 (n : Int) = if n < 2 ^ 31 then some (Int32.ofNat n) else none := by
  have hmin : Int32.minValue.toInt = -2147483648 := by decide
  have hmax : Int32.maxValue.toInt = 2147483647 := by decide
  unfold toInt32
  rw [hmin, hmax]
  by_cases h : n < 2 ^ 31
  · rw [if_pos h, if_pos (by omega), Int32.ofInt_eq_ofNat]
  · rw [if_neg h, if_neg (by omega)]

end ModernOpc.Library.Decimal
