import Mathlib.Algebra.Group.Nat.Defs
import Mathlib.Data.List.TakeWhile

/-! Byte strings: what C string functions see of them, and machine words as bytes. -/
namespace ModernOpc

/-- A string with a length of its own: any bytes, zero bytes included. -/
abbrev Bytes := List UInt8

namespace Library.Bytes

/-! ### C strings -/

/-- What `strlen` leaves of a string: the bytes before the first zero byte. -/
def cString (s : Bytes) : Bytes := s.takeWhile (· != 0)

@[simp] theorem cString_eq_self {s : Bytes} : cString s = s ↔ (0 : UInt8) ∉ s := by
  unfold cString
  rw [List.takeWhile_eq_self_iff]
  constructor
  · intro h h0
    simpa using h 0 h0
  · intro h b hb
    rw [bne_iff_ne]
    exact fun hb0 => h (hb0 ▸ hb)

theorem zero_not_mem_cString (s : Bytes) : (0 : UInt8) ∉ cString s := by
  intro h
  simpa using List.mem_takeWhile_imp h

/-- A string literal of ASCII characters. -/
def literal (s : String) : Bytes := s.toList.map fun c => UInt8.ofNat c.toNat

/-- A string as characters, one for each byte. -/
def chars (s : Bytes) : List Char := s.map fun b => Char.ofNat b.toNat

theorem chars_literal {s : String} (h : ∀ c ∈ s.toList, c.toNat < 256) : chars (literal s) = s.toList := by
  have hbyte : ∀ c ∈ s.toList, Char.ofNat (UInt8.ofNat c.toNat).toNat = c := by
    intro c hc
    rw [UInt8.toNat_ofNat', Nat.mod_eq_of_lt (h c hc), Char.ofNat_toNat]
  rw [chars, literal, List.map_map]
  exact (List.map_congr_left hbyte).trans (List.map_id _)

/-! ### Little-endian words -/

/-- The `n` low bytes of a number, least significant first. -/
def leBytes : Nat → Nat → Bytes
  | 0, _ => []
  | n + 1, x => UInt8.ofNat x :: leBytes n (x / 256)

def ofLeBytes : Bytes → Nat
  | [] => 0
  | b :: rest => b.toNat + 256 * ofLeBytes rest

theorem leBytes_length (n x : Nat) : (leBytes n x).length = n := by
  induction n generalizing x with
  | zero => rfl
  | succ n ih => simp [leBytes, ih]

theorem ofLeBytes_leBytes (n x : Nat) : ofLeBytes (leBytes n x) = x % 256 ^ n := by
  induction n generalizing x with
  | zero => simp [leBytes, ofLeBytes, Nat.mod_one]
  | succ n ih =>
    have hpow : 256 ^ (n + 1) = 256 * 256 ^ n := by rw [Nat.pow_succ, Nat.mul_comm]
    simp only [leBytes, ofLeBytes, ih, UInt8.toNat_ofNat', hpow, Nat.mod_mul]

theorem leBytes_inj {n x y : Nat} (hx : x < 256 ^ n) (hy : y < 256 ^ n)
    (h : leBytes n x = leBytes n y) : x = y := by
  have := congrArg ofLeBytes h
  rwa [ofLeBytes_leBytes, ofLeBytes_leBytes, Nat.mod_eq_of_lt hx, Nat.mod_eq_of_lt hy] at this

end Library.Bytes

end ModernOpc
