import ModernOpc.Client.Namespaces
import ModernOpc.Library.Decimal
import ModernOpc.Types.NodeId

/-! Resolving an identifier that names its namespace by uri.

`resolve` looks the uri up and then only at the first character of the identifier: an `i`
sends what stands behind the second character to `std::stoi`, an `s` takes it as it is.
Neither the `=` nor the length is checked, and `std::stoi` has exceptions of its own.

`resolve_wellFormed_iff`: in the namespaces of a first connect every string identifier
resolves, and a number exactly if it fits an `int`; after a reconnect the index is that of
the table in force. `resolve_malformed_iff`: what is malformed is rejected with an
`OpcException` exactly if the uri is unknown or the first character is another one. -/
namespace ModernOpc.Client
open Library Library.Bytes Library.Decimal

structure UnresolvedNodeId where
  namespaceUri : Bytes
  identifier : Bytes
  deriving DecidableEq, Repr

/-- What `resolve` may throw: an `OpcException`, or an exception of the standard library. -/
inductive Thrown where
  | opc (e : OpcException)
  | invalidArgument
  | outOfRange
  deriving DecidableEq, Repr

/-- `std::string::substr` to the end. -/
def substr (s : Bytes) (pos : Nat) : Except Thrown Bytes :=
  if pos ≤ s.length then .ok (s.drop pos) else .error .outOfRange

/-- `std::stoi`. -/
def stoi (s : Bytes) : Except Thrown Int32 :=
  match strtol (chars s) with
  | none => .error .invalidArgument
  | some i =>
    match toInt32 i with
    | some i => .ok i
    | none => .error .outOfRange

/-- `s[0]`: of an empty string, the terminator. -/
def front (s : Bytes) : Char := Char.ofNat (s.headD 0).toNat

/-- `Client::resolve`. -/
def resolve (self : Session) (id : UnresolvedNodeId) : Except Thrown NodeId := do
  let idx ← (resolveNamespaceUri self id.namespaceUri).mapError .opc
  let idx := UInt16.ofNat idx
  match front id.identifier with
  | 'i' => return .ofInt idx (← stoi (← substr id.identifier 2))
  | 's' => return .ofString idx (← substr id.identifier 2) .string
  | _ => throw (.opc ⟨"could not parse nodeId"⟩)

/-- The string `i=`, digits and nothing else, denoting less than `2 ^ 32`; or `s=` and any
string. -/
def WellFormed : Bytes → Prop
  | 0x69 :: 0x3D :: ds =>
    ds ≠ [] ∧ (∀ c ∈ chars ds, c.isDigit = true) ∧ Nat.ofDigitChars 10 (chars ds) 0 < 2 ^ 32
  | 0x73 :: 0x3D :: _ => True
  | _ => False

/-! ### The parts of `resolve` -/

theorem resolve_unknown {self : Session} {uri : Bytes} (h : uri ∉ self.namespaces) (x : Bytes) :
    resolve self ⟨uri, x⟩ = .error (.opc ⟨"namespaceUri of nodeId not found"⟩) := by
  have hnone : self.namespaces.idxOf? uri = none := List.idxOf?_eq_none_iff.mpr h
  have hthrow : resolveNamespaceUri self uri = .error ⟨"namespaceUri of nodeId not found"⟩ := by
    rw [resolveNamespaceUri_eq, expected, hnone]
  unfold resolve
  rw [hthrow]
  rfl

/-- Once the uri is found, the first character decides. -/
theorem resolve_found {self : Session} {uri : Bytes} {k : Nat} (h : self.namespaces.idxOf? uri = some k)
    (x : Bytes) :
    resolve self ⟨uri, x⟩ =
      match front x with
      | 'i' => do return .ofInt (UInt16.ofNat k) (← stoi (← substr x 2))
      | 's' => do return .ofString (UInt16.ofNat k) (← substr x 2) .string
      | _ => .error (.opc ⟨"could not parse nodeId"⟩) := by
  have hfound : resolveNamespaceUri self uri = .ok k := by rw [resolveNamespaceUri_eq, expected, h]
  unfold resolve
  rw [hfound]
  rfl

/-- The digits of a number are a number to `std::stoi` if it fits an `int`. -/
theorem stoi_digits (n : Nat) :
    stoi (literal (toString n)) = if n < 2 ^ 31 then .ok (Int32.ofNat n) else .error .outOfRange := by
  have hdigits : (toString n).toList = Nat.toDigits 10 n := Nat.toList_repr
  have hascii : ∀ c ∈ (toString n).toList, c.toNat < 256 := by
    intro c hc
    rw [hdigits] at hc
    have := isDigit_toNat (Nat.isDigit_of_mem_toDigits (by decide) (by decide) hc)
    omega
  unfold stoi
  rw [chars_literal hascii, hdigits, strtol_number]
  simp only [toInt32_natCast]
  by_cases h : n < 2 ^ 31
  · simp only [if_pos h]
  · simp only [if_neg h]

/-- Behind `i=` everything is left to `std::stoi`. -/
theorem resolve_int {self : Session} {uri : Bytes} {k : Nat} (h : self.namespaces.idxOf? uri = some k)
    (s : Bytes) :
    resolve self ⟨uri, literal "i=" ++ s⟩ = (stoi s).map (NodeId.ofInt (UInt16.ofNat k)) := by
  rw [resolve_found h]
  show (do return NodeId.ofInt (UInt16.ofNat k) (← stoi s)) = _
  cases stoi s <;> rfl

theorem resolve_number {self : Session} {uri : Bytes} {k : Nat} (h : self.namespaces.idxOf? uri = some k)
    (n : Nat) :
    resolve self ⟨uri, literal "i=" ++ literal (toString n)⟩ =
      if n < 2 ^ 31 then .ok (.ofInt (UInt16.ofNat k) (Int32.ofNat n)) else .error .outOfRange := by
  rw [resolve_int h, stoi_digits]
  by_cases hn : n < 2 ^ 31
  · rw [if_pos hn, if_pos hn]
    rfl
  · rw [if_neg hn, if_neg hn]
    rfl

theorem resolve_string {self : Session} {uri : Bytes} {k : Nat} (h : self.namespaces.idxOf? uri = some k)
    (s : Bytes) :
    resolve self ⟨uri, literal "s=" ++ s⟩ = .ok (.ofString (UInt16.ofNat k) s .string) := by
  rw [resolve_found h]
  rfl

/-! ### Well-formed identifiers -/

/-- A number and a string in a namespace resolve to the ids they denote: the one as
open62541 has it, the other as it stands. -/
structure Accepts (client : Session) (uri : Bytes) (k n : Nat) (s : Bytes) : Prop where
  number : ∃ id ns i, resolve client ⟨uri, literal "i=" ++ literal (toString n)⟩ = .ok id ∧
    fromNodeId id = some ⟨ns, .numeric i⟩ ∧ ns.toNat = k ∧ i.toNat = n
  string : ∃ ns, resolve client ⟨uri, literal "s=" ++ s⟩ = .ok (.ofString ns s .string) ∧ ns.toNat = k

/-- The table in force after a connect has the uri at an index that is sent as `k`. -/
def Session.Places (self : Session) (array : List Bytes) (uri : Bytes) (k : Nat) : Prop :=
  ∃ i, (self.namespaces ++ array).idxOf? uri = some i ∧ i % 2 ^ 16 = k

/-- A first connect places every uri where its array has it. -/
theorem places_initial {array : List Bytes} (hlen : array.length ≤ 65536) {uri : Bytes} {k : Nat}
    (hk : array.idxOf? uri = some k) : Session.initial.Places array uri k := by
  have hlt := (List.idxOf?_eq_some_iff.mp hk).1
  exact ⟨k, hk, Nat.mod_eq_of_lt (by omega)⟩

/-- What a uri of the array resolves to, whatever the client had before. -/
theorem accepts_iff (self : Session) (array : List Bytes) {uri : Bytes} (huri : uri ∈ array) (k : Nat) {n : Nat}
    (hn : n < 2 ^ 32) (s : Bytes) :
    Accepts (connect self ⟨.good, .good, array⟩).1 uri k n s ↔ n < 2 ^ 31 ∧ self.Places array uri k := by
  rw [connect_good]
  obtain ⟨i, hi⟩ := Option.isSome_iff_exists.mp
    (List.isSome_idxOf?.mpr (List.mem_append_right self.namespaces huri))
  have hfound : (Session.mk .connected (self.namespaces ++ array)).namespaces.idxOf? uri = some i := hi
  have hindex : (UInt16.ofNat i).toNat = i % 2 ^ 16 := UInt16.toNat_ofNat'
  constructor
  · intro ⟨⟨id, _, _, hid, _⟩, ns, hs, hns⟩
    refine ⟨?_, i, hi, ?_⟩
    · rw [resolve_number hfound] at hid
      by_contra hbig
      rw [if_neg hbig] at hid
      cases hid
    · rw [resolve_string hfound, Except.ok.injEq] at hs
      obtain rfl : UInt16.ofNat i = ns := congrArg NodeId.nsIdx hs
      exact hindex.symm.trans hns
  · intro ⟨hsmall, i', hi', hk⟩
    obtain rfl : i = i' := Option.some.inj (hi.symm.trans hi')
    have hindex := hindex.trans hk
    refine ⟨⟨.ofInt (.ofNat i) (.ofNat n), _, _, ?_, rfl, hindex, ?_⟩, ⟨_, resolve_string hfound s, hindex⟩⟩
    · rw [resolve_number hfound, if_pos hsmall]
    · rw [Int32.toUInt32_ofNat', UInt32.toNat_ofNat', Nat.mod_eq_of_lt hn]

/-- After a connect, identifiers in the namespaces read resolve exactly if the number fits
an `int` and the table in force has the uri where the array has it; after a first connect
it always has. -/
theorem resolve_wellFormed_iff (array : List Bytes) (hlen : array.length ≤ 65536) (uri : Bytes) (k : Nat)
    (hk : array.idxOf? uri = some k) (n : Nat) (hn : n < 2 ^ 32) (s : Bytes) :
    (Accepts (connect .initial ⟨.good, .good, array⟩).1 uri k n s ↔ n < 2 ^ 31) ∧
    ∀ self : Session, Accepts (connect self ⟨.good, .good, array⟩).1 uri k n s ↔
      n < 2 ^ 31 ∧ self.Places array uri k := by
  have huri : uri ∈ array := List.isSome_idxOf?.mp (by rw [hk]; rfl)
  have hall := fun self => accepts_iff self array huri k hn s
  exact ⟨(hall .initial).trans (and_iff_left (places_initial hlen hk)), hall⟩

/-- `i=2255` and `s=ab`, in the second of two namespaces. -/
theorem resolve_wellFormed_small :
    Accepts (connect .initial ⟨.good, .good, [literal "a", literal "b"]⟩).1 (literal "b") 1 2255
      (literal "ab") :=
  (resolve_wellFormed_iff [literal "a", literal "b"] (by decide) (literal "b") 1 (by decide) 2255 (by decide)
    (literal "ab")).1.mpr (by decide)

/-- `i=2147483648` is out of range. -/
theorem resolve_refuses_number : ¬ ∀ (array : List Bytes) (uri : Bytes) (k n : Nat) (s : Bytes),
    array.length ≤ 65536 → array.idxOf? uri = some k → n < 2 ^ 32 →
      Accepts (connect .initial ⟨.good, .good, array⟩).1 uri k n s := by
  intro h
  have haccepts := h [literal "a"] (literal "a") 0 (2 ^ 31) [] (by decide) (by decide) (by decide)
  have hfits := ((accepts_iff .initial [literal "a"] (List.mem_singleton_self _) 0 (by decide) []).mp haccepts).1
  exact absurd hfits (by decide)

/-! ### Malformed identifiers -/

/-- The outcome of a rejection. -/
def Rejects (self : Session) (uri x : Bytes) : Prop := ∃ e, resolve self ⟨uri, x⟩ = .error (.opc e)

/-- No `OpcException` is thrown. -/
def Foreign {α : Type} (r : Except Thrown α) : Prop := ∀ e, r ≠ .error (.opc e)

theorem Foreign.bind {α β : Type} {r : Except Thrown α} {f : α → Except Thrown β} (hr : Foreign r)
    (hf : ∀ a, Foreign (f a)) : Foreign (r >>= f) := by
  cases r with
  | error t =>
    intro e he
    cases he
    exact hr e rfl
  | ok a => exact hf a

theorem Foreign.pure {α : Type} (a : α) : Foreign (.ok a) := by
  intro e he
  cases he

theorem substr_foreign (s : Bytes) (pos : Nat) : Foreign (substr s pos) := by
  intro e he
  unfold substr at he
  split at he <;> cases he

theorem stoi_foreign (s : Bytes) : Foreign (stoi s) := by
  intro e he
  unfold stoi at he
  split at he
  · cases he
  · split at he <;> cases he

/-- Behind an `i` or an `s` nothing is rejected; behind anything else everything is. -/
theorem rejects_iff (self : Session) (uri x : Bytes) :
    Rejects self uri x ↔ uri ∉ self.namespaces ∨ (front x ≠ 'i' ∧ front x ≠ 's') := by
  cases hfind : self.namespaces.idxOf? uri with
  | none =>
    have huri : uri ∉ self.namespaces := List.idxOf?_eq_none_iff.mp hfind
    exact ⟨fun _ => .inl huri, fun _ => ⟨_, resolve_unknown huri x⟩⟩
  | some k =>
    have huri : uri ∈ self.namespaces := by
      by_contra huri
      rw [List.idxOf?_eq_none_iff.mpr huri] at hfind
      cases hfind
    have hresolve := resolve_found hfind x
    unfold Rejects
    rw [hresolve]
    constructor
    · intro ⟨e, he⟩
      refine .inr ⟨fun hi => ?_, fun hs => ?_⟩
      · rw [hi] at he
        exact (substr_foreign x 2).bind (fun s => (stoi_foreign s).bind fun i => .pure _) e he
      · rw [hs] at he
        exact (substr_foreign x 2).bind (fun s => .pure _) e he
    · intro h
      rcases h with h | ⟨hi, hs⟩
      · exact absurd huri h
      · refine ⟨⟨"could not parse nodeId"⟩, ?_⟩
        split
        · next heq => exact absurd heq hi
        · next heq => exact absurd heq hs
        · rfl

/-- What is malformed is rejected exactly if its namespace is unknown or its first
character is neither `i` nor `s`. -/
theorem resolve_malformed_iff (self : Session) (uri x : Bytes) :
    (¬ WellFormed x → Rejects self uri x) ↔
      WellFormed x ∨ uri ∉ self.namespaces ∨ (front x ≠ 'i' ∧ front x ≠ 's') := by
  rw [rejects_iff]
  exact imp_iff_or_not.trans (by rw [not_not]; exact or_comm)

/-- `i=-1` resolves, to the id 4294967295. -/
theorem resolve_takes_sign : ¬ ∀ (self : Session) (uri x : Bytes), ¬ WellFormed x → Rejects self uri x := by
  intro h
  have hminus : ¬ WellFormed (literal "i=-1") := by
    intro hwell
    obtain ⟨_, hdigits, _⟩ : WellFormed [0x69, 0x3D, 0x2D, 0x31] := hwell
    exact absurd (hdigits '-' (List.mem_cons_self ..)) (by decide)
  have hx := h ⟨.connected, [literal "a"]⟩ (literal "a") (literal "i=-1") hminus
  exact absurd ((rejects_iff _ _ _).mp hx) (by decide)

end ModernOpc.Client
