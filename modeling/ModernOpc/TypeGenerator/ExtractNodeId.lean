import ModernOpc.Library.Decimal
import ModernOpc.TypeGenerator.DataType
import Mathlib.Data.String.Basic

/-! Node ids as text: how the generator prints them, and how it reads those of a nodeset.

`extractNodeId` takes a text with a `;` in it for one that begins with a namespace, and one
of less than three characters for none at all. A string is a list of its bytes here, each
as the character of that number.

`extractNodeId_inverts_iff`: what is printed is read back, whatever the identifier is; of
the short forms, which have no namespace, an empty string or one with a `;` is not. -/
namespace ModernOpc.Gen
open Library.Decimal

/-! ### C strings -/

/-- The terminator of a C string. -/
def terminator : Char := Char.ofNat 0

/-- What a C function sees of a string. -/
def cString (s : List Char) : List Char := s.takeWhile (· ≠ terminator)

/-- `&s[n]`; behind the terminator there is nothing to read. -/
def from? (s : List Char) (n : Nat) : Option (List Char) := if n ≤ s.length then some (s.drop n) else none

/-- `strchr`. -/
def strchr (s : List Char) (c : Char) : Option (List Char) :=
  match s.dropWhile (· ≠ c) with
  | [] => none
  | found => some found

/-- `atoi`: the `long` that `strtol` finds, cut to an `int`; no number is 0. -/
def atoi (s : List Char) : Int32 := Int32.ofInt (toLong ((strtol s).getD 0))

/-! ### Text and node id -/

namespace NodeId

/-- `operator==`. -/
def equal (a b : NodeId) : Bool :=
  if a.nsIdx ≠ b.nsIdx then false
  else
    match a.i, b.i with
    | .numeric i, .numeric j => i == j
    | .string s, .string t => s == t
    | _, _ => false

/-- `operator<<`. -/
def print (id : NodeId) : String :=
  "ns=" ++ toString id.nsIdx.toNat ++
    match id.i with
    | .numeric i => ";i=" ++ toString i.toInt
    | .string s => ";s=" ++ s

end NodeId

/-- What a nodeset writes for an identifier of namespace 0. -/
def Identifier.short : Identifier → String
  | numeric i => "i=" ++ toString i.toInt
  | string s => "s=" ++ s

/-- `extractNodeId`. There is no result where it reads behind the terminator. -/
def extractNodeId : Option (List Char) → Option NodeId
  | none => some ⟨0, .numeric 0⟩
  | some s =>
    if s.length < 3 then some ⟨0, .numeric 0⟩
    else
      match strchr s ';' with
      -- namespaceindex zero?
      | none =>
        match s.headD terminator with
        | 'i' => do return ⟨0, .numeric (atoi (← from? s 2))⟩
        | 's' => do return ⟨0, .string (String.ofList (← from? s 2))⟩
        | _ => some ⟨0, .numeric 0⟩
      | some idxSemi =>
        match idxSemi.getD 1 terminator with
        | 'i' => do
          return ⟨(atoi (← from? s 3)).toUInt32.toUInt16, .numeric (atoi (← from? idxSemi 3))⟩
        | 's' => do
          return ⟨(atoi (← from? s 3)).toUInt32.toUInt16, .string (String.ofList (← from? idxSemi 3))⟩
        | _ => some ⟨0, .numeric 0⟩

/-- The text is read as a node id equal to `id`. -/
def ReadAs (text : String) (id : NodeId) : Prop :=
  ∃ id', extractNodeId (some (cString text.toList)) = some id' ∧ id'.equal id = true

namespace NodeId

theorem equal_iff {a b : NodeId} : a.equal b = true ↔ a = b := by
  obtain ⟨k, i⟩ := a
  obtain ⟨k', j⟩ := b
  unfold equal
  by_cases hk : k = k'
  · cases i <;> cases j <;> simp [hk]
  · simp [hk]

/-- A short form is what is printed, less the namespace. -/
theorem print_eq (id : NodeId) :
    id.print.toList = 'n' :: 's' :: '=' :: (Nat.toDigits 10 id.nsIdx.toNat ++ ';' :: id.i.short.toList) := by
  obtain ⟨k, i⟩ := id
  cases i <;> simp [print, Identifier.short, String.toList_append]

end NodeId

theorem short_numeric {n : Nat} (h : n < 2 ^ 31) :
    (Identifier.numeric (Int32.ofNat n)).short.toList = 'i' :: '=' :: Nat.toDigits 10 n := by
  have hdigits : (toString n).toList = Nat.toDigits 10 n := Nat.toList_repr
  have hvalue : (Int32.ofNat n).toInt = n := Int32.toInt_ofNat_of_lt h
  show ("i=" ++ toString (Int32.ofNat n).toInt).toList = _
  rw [hvalue, String.toList_append]
  show "i=".toList ++ (toString n).toList = _
  rw [hdigits]
  rfl

theorem short_string (s : String) : (Identifier.string s).short.toList = 's' :: '=' :: s.toList := by
  show ("s=" ++ s).toList = _
  rw [String.toList_append]
  rfl

/-! ### The C functions -/

theorem cString_eq_self {s : List Char} (h : terminator ∉ s) : cString s = s :=
  List.takeWhile_eq_self_iff.mpr fun c hc => by
    have hne : c ≠ terminator := fun heq => h (heq ▸ hc)
    simp [hne]

theorem strchr_none {s : List Char} {c : Char} (h : c ∉ s) : strchr s c = none := by
  have hnone : s.dropWhile (· ≠ c) = [] := by
    rw [List.dropWhile_eq_nil_iff]
    intro d hd
    have hne : d ≠ c := fun heq => h (heq ▸ hd)
    simp [hne]
  rw [strchr, hnone]

theorem strchr_first {s : List Char} {c : Char} (h : c ∉ s) (rest : List Char) :
    strchr (s ++ c :: rest) c = some (c :: rest) := by
  have hfound : (s ++ c :: rest).dropWhile (· ≠ c) = c :: rest := by
    rw [List.dropWhile_append_of_pos]
    · simp
    · intro d hd
      have hne : d ≠ c := fun heq => h (heq ▸ hd)
      simp [hne]
  rw [strchr, hfound]

theorem atoi_toDigits {n : Nat} (h : n < 2 ^ 31) {rest : List Char} (hrest : Ends rest) :
    atoi (Nat.toDigits 10 n ++ rest) = Int32.ofNat n := by
  have hmin : Int64.minValue.toInt = -9223372036854775808 := by decide
  have hmax : Int64.maxValue.toInt = 9223372036854775807 := by decide
  rw [atoi, strtol_toDigits n hrest, Option.getD_some, toLong_of_range (by omega) (by omega),
    Int32.ofInt_eq_ofNat]

theorem atoi_number {n : Nat} (h : n < 2 ^ 31) : atoi (Nat.toDigits 10 n) = Int32.ofNat n := by
  have hread := atoi_toDigits h Ends.nil
  rwa [List.append_nil] at hread

theorem not_mem_toDigits {c : Char} (h : c.isDigit = false) (n : Nat) : c ∉ Nat.toDigits 10 n := by
  intro hc
  rw [Nat.isDigit_of_mem_toDigits (by decide) (by decide) hc] at h
  cases h

theorem from?_append (s rest : List Char) : from? (s ++ rest) s.length = some rest := by
  rw [from?, if_pos (by simp), List.drop_left]

/-! ### Reading back -/

/-- A number in front of a `;` is the namespace. -/
theorem namespace_read (k : UInt16) (rest : List Char) :
    (atoi (Nat.toDigits 10 k.toNat ++ ';' :: rest)).toUInt32.toUInt16 = k := by
  have hk := k.toNat_lt
  have hends : Ends (';' :: rest) := fun c hc => by
    cases hc
    rfl
  rw [atoi_toDigits (by omega) hends]
  simp

theorem semi_not_mem_namespace (k : UInt16) : ';' ∉ 'n' :: 's' :: '=' :: Nat.toDigits 10 k.toNat := by
  simp [not_mem_toDigits (c := ';') rfl k.toNat]

/-- What follows the namespace is read by its first character. -/
theorem extractNodeId_namespace (k : UInt16) (x : List Char) :
    extractNodeId (some ('n' :: 's' :: '=' :: (Nat.toDigits 10 k.toNat ++ ';' :: x))) =
      match x.headD terminator with
      | 'i' => do return ⟨k, .numeric (atoi (← from? (';' :: x) 3))⟩
      | 's' => do return ⟨k, .string (String.ofList (← from? (';' :: x) 3))⟩
      | _ => some ⟨0, .numeric 0⟩ := by
  have hfound := strchr_first (semi_not_mem_namespace k) x
  simp only [List.cons_append] at hfound
  have hfrom : from? ('n' :: 's' :: '=' :: (Nat.toDigits 10 k.toNat ++ ';' :: x)) 3 =
      some (Nat.toDigits 10 k.toNat ++ ';' :: x) := from?_append ['n', 's', '='] _
  rw [extractNodeId, if_neg (by simp), hfound, hfrom]
  cases x with
  | nil => rfl
  | cons c x => simp [namespace_read k (c :: x)]

/-- A text without a `;` is an identifier of namespace 0. -/
theorem extractNodeId_short {s : List Char} (hlength : 3 ≤ s.length) (h : ';' ∉ s) :
    extractNodeId (some s) =
      match s.headD terminator with
      | 'i' => do return ⟨0, .numeric (atoi (← from? s 2))⟩
      | 's' => do return ⟨0, .string (String.ofList (← from? s 2))⟩
      | _ => some ⟨0, .numeric 0⟩ := by
  rw [extractNodeId, if_neg (by omega), strchr_none h]

/-- On a string in which no byte is zero: the id that is read is the one asked for. -/
theorem readAs_iff {text : String} (h : terminator ∉ text.toList) (id : NodeId) :
    ReadAs text id ↔ extractNodeId (some text.toList) = some id := by
  unfold ReadAs
  rw [cString_eq_self h]
  constructor
  · intro ⟨id', hread, hequal⟩
    rwa [← NodeId.equal_iff.mp hequal]
  · intro hread
    exact ⟨id, hread, NodeId.equal_iff.mpr rfl⟩

theorem terminator_not_mem_print (k : UInt16) {i : Identifier} (h : terminator ∉ i.short.toList) :
    terminator ∉ (NodeId.print ⟨k, i⟩).toList := by
  rw [NodeId.print_eq]
  have hprefix : terminator ∉ ['n', 's', '='] := by decide
  have hsemi : terminator ∉ [';'] := by decide
  have hrest := List.not_mem_append (not_mem_toDigits rfl k.toNat) (List.not_mem_append hsemi h)
  exact List.not_mem_append hprefix hrest

theorem terminator_not_mem_numeric {n : Nat} (hn : n < 2 ^ 31) :
    terminator ∉ (Identifier.numeric (Int32.ofNat n)).short.toList := by
  rw [short_numeric hn]
  have hprefix : terminator ∉ ['i', '='] := by decide
  exact List.not_mem_append hprefix (not_mem_toDigits rfl n)

theorem terminator_not_mem_string {s : String} (h : terminator ∉ s.toList) :
    terminator ∉ (Identifier.string s).short.toList := by
  rw [short_string]
  have hprefix : terminator ∉ ['s', '='] := by decide
  exact List.not_mem_append hprefix h

/-! ### Texts that are read -/

/-- The text is not too short, and ends right behind the letter that follows its first `;`. -/
def CutOff (s : List Char) : Prop :=
  3 ≤ s.length ∧ (strchr s ';' = some [';', 'i'] ∨ strchr s ';' = some [';', 's'])

instance (s : List Char) : Decidable (CutOff s) := inferInstanceAs (Decidable (_ ∧ _))

theorem strchr_cons {s found : List Char} {c : Char} (h : strchr s c = some found) : ∃ rest, found = c :: rest := by
  unfold strchr at h
  cases hd : s.dropWhile (· ≠ c) with
  | nil =>
    rw [hd] at h
    cases h
  | cons d rest =>
    rw [hd] at h
    cases h
    have hne : s.dropWhile (· ≠ c) ≠ [] := by
      rw [hd]
      exact List.cons_ne_nil d rest
    have hhead := List.head_dropWhile_not (· ≠ c) hne
    simp only [hd, List.head_cons, decide_eq_false_iff_not, not_not] at hhead
    exact ⟨rest, by rw [hhead]⟩

theorem from?_isSome {s : List Char} {n : Nat} : (from? s n).isSome ↔ n ≤ s.length := by
  unfold from?
  split <;> simp [*]

/-- Behind a letter there is something to read, if it is not the last. -/
theorem from?_letter (c d : Char) (rest : List Char) {α : Type} (read : List Char → α) :
    ((from? (c :: d :: rest) 3).bind fun t => some (read t)).isSome ↔ rest ≠ [] := by
  have hread : ((from? (c :: d :: rest) 3).bind fun t => some (read t)).isSome ↔
      (from? (c :: d :: rest) 3).isSome := by cases from? (c :: d :: rest) 3 <;> simp
  rw [hread, from?_isSome]
  cases rest <;> simp

/-- A text is read unless it is cut off. -/
theorem extractNodeId_isSome_iff (s : List Char) : (extractNodeId (some s)).isSome ↔ ¬ CutOff s := by
  unfold CutOff
  by_cases hlength : s.length < 3
  · simp [extractNodeId, hlength, Nat.not_le.mpr hlength]
  have hlong : 3 ≤ s.length := Nat.not_lt.mp hlength
  simp only [extractNodeId, if_neg hlength, hlong, true_and]
  cases hfound : strchr s ';' with
  | none =>
    obtain ⟨t, ht⟩ : ∃ t, from? s 2 = some t :=
      Option.isSome_iff_exists.mp (from?_isSome.mpr (Nat.le_of_succ_le hlong))
    simp only [reduceCtorEq, or_self, not_false_eq_true, iff_true]
    split <;> simp [ht]
  | some idxSemi =>
    obtain ⟨t, ht⟩ : ∃ t, from? s 3 = some t := Option.isSome_iff_exists.mp (from?_isSome.mpr hlong)
    obtain ⟨rest, rfl⟩ := strchr_cons hfound
    cases rest with
    | nil => simp [terminator]
    | cons c rest =>
      simp only [List.getD_cons_succ, List.getD_cons_zero, Option.some.injEq, List.cons.injEq, true_and]
      split
      · simpa [ht] using from?_letter ';' 'i' rest _
      · simpa [ht] using from?_letter ';' 's' rest _
      · next hi hs => simp [show c ≠ 'i' from hi, show c ≠ 's' from hs]

/-! ### Round trips -/

theorem print_numeric_read (k : UInt16) {n : Nat} (hn : n < 2 ^ 31) :
    ReadAs (NodeId.print ⟨k, .numeric (Int32.ofNat n)⟩) ⟨k, .numeric (Int32.ofNat n)⟩ := by
  have hfree := terminator_not_mem_print k (terminator_not_mem_numeric hn)
  rw [readAs_iff hfree, NodeId.print_eq, short_numeric hn, extractNodeId_namespace]
  have hfrom : from? (';' :: 'i' :: '=' :: Nat.toDigits 10 n) 3 = some (Nat.toDigits 10 n) :=
    from?_append [';', 'i', '='] _
  simp [hfrom, atoi_number hn]

theorem print_string_read (k : UInt16) {s : String} (hs : terminator ∉ s.toList) :
    ReadAs (NodeId.print ⟨k, .string s⟩) ⟨k, .string s⟩ := by
  have hfree := terminator_not_mem_print k (terminator_not_mem_string hs)
  rw [readAs_iff hfree, NodeId.print_eq, short_string, extractNodeId_namespace]
  have hfrom : from? (';' :: 's' :: '=' :: s.toList) 3 = some s.toList := from?_append [';', 's', '='] _
  simp [hfrom]

theorem short_numeric_read {n : Nat} (hn : n < 2 ^ 31) :
    ReadAs (Identifier.numeric (Int32.ofNat n)).short ⟨0, .numeric (Int32.ofNat n)⟩ := by
  rw [readAs_iff (terminator_not_mem_numeric hn), short_numeric hn]
  have hpos : 0 < (Nat.toDigits 10 n).length := List.length_pos_of_ne_nil Nat.toDigits_ne_nil
  have hsemi := not_mem_toDigits (c := ';') rfl n
  rw [extractNodeId_short (by simp only [List.length_cons]; omega) (by simp [hsemi])]
  have hfrom : from? ('i' :: '=' :: Nat.toDigits 10 n) 2 = some (Nat.toDigits 10 n) :=
    from?_append ['i', '='] _
  simp [hfrom, atoi_number hn]

/-- A string that is read from a text with a `;` stands three characters behind the first one. -/
theorem string_behind_semi {s idxSemi : List Char} (hfound : strchr s ';' = some idxSemi)
    {k : UInt16} {t : String} (h : extractNodeId (some s) = some ⟨k, .string t⟩) :
    from? idxSemi 3 = some t.toList := by
  have hnumber : ∀ {k' : UInt16} {i : Int32}, some (NodeId.mk k' (.numeric i)) ≠ some ⟨k, .string t⟩ := by
    simp
  rw [extractNodeId, hfound] at h
  split at h
  · exact absurd h hnumber
  · simp only at h
    split at h
    · obtain ⟨_, _, h⟩ := Option.bind_eq_some_iff.mp h
      obtain ⟨_, _, h⟩ := Option.bind_eq_some_iff.mp h
      exact absurd h hnumber
    · obtain ⟨_, _, h⟩ := Option.bind_eq_some_iff.mp h
      obtain ⟨rest, hrest, h⟩ := Option.bind_eq_some_iff.mp h
      have hstring : String.ofList rest = t := Identifier.string.inj (NodeId.mk.inj (Option.some.inj h)).2
      rw [hrest, ← hstring, String.toList_ofList]
    · exact absurd h hnumber

/-- So a string with a `;` is never read from its short form. -/
theorem semi_not_read {s : String} (h : ';' ∈ s.toList) (k : UInt16) :
    extractNodeId (some ('s' :: '=' :: s.toList)) ≠ some ⟨k, .string s⟩ := by
  intro hread
  obtain ⟨u, v, heq, hu⟩ := List.eq_append_cons_of_mem h
  have hfound : strchr ('s' :: '=' :: s.toList) ';' = some (';' :: v) := by
    rw [heq]
    exact strchr_first (s := 's' :: '=' :: u) (by simp [hu]) v
  have hbehind := string_behind_semi hfound hread
  unfold from? at hbehind
  split at hbehind
  · have hrest : v.drop 2 = s.toList := Option.some.inj hbehind
    have hlength := congrArg List.length hrest
    rw [heq] at hlength
    simp only [List.length_drop, List.length_append, List.length_cons] at hlength
    omega
  · cases hbehind

theorem short_string_read_iff {s : String} (hs : terminator ∉ s.toList) :
    ReadAs (Identifier.string s).short ⟨0, .string s⟩ ↔ s ≠ "" ∧ ';' ∉ s.toList := by
  rw [readAs_iff (terminator_not_mem_string hs), short_string]
  constructor
  · intro hread
    refine ⟨fun hempty => ?_, fun hsemi => semi_not_read hsemi 0 hread⟩
    rw [hempty] at hread
    exact absurd hread (by decide)
  · intro ⟨hne, hsemi⟩
    have hnil : s.toList ≠ [] := fun h => hne (String.toList_eq_nil_iff.mp h)
    have hpos : 0 < s.toList.length := List.length_pos_of_ne_nil hnil
    rw [extractNodeId_short (by simp only [List.length_cons]; omega) (by simp [hsemi])]
    have hfrom : from? ('s' :: '=' :: s.toList) 2 = some s.toList := from?_append ['s', '='] _
    simp [hfrom]

/-! ### All forms -/

/-- The text forms of the two ids with index `k` are read back, and the short forms of their
identifiers are read in namespace 0. -/
structure Inverts (k : UInt16) (n : Nat) (s : String) : Prop where
  numeric : ReadAs (NodeId.print ⟨k, .numeric (Int32.ofNat n)⟩) ⟨k, .numeric (Int32.ofNat n)⟩
  string : ReadAs (NodeId.print ⟨k, .string s⟩) ⟨k, .string s⟩
  shortNumeric : ReadAs (Identifier.numeric (Int32.ofNat n)).short ⟨0, .numeric (Int32.ofNat n)⟩
  shortString : ReadAs (Identifier.string s).short ⟨0, .string s⟩

/-- `extractNodeId` inverts all four forms exactly if the string is not empty and has no `;`; only
the short form of the string fails otherwise. -/
theorem extractNodeId_inverts_iff (k : UInt16) (n : Nat) (hn : n < 2 ^ 31) (s : String)
    (hs : terminator ∉ s.toList) :
    (Inverts k n s ↔ s ≠ "" ∧ ';' ∉ s.toList) ∧
    ReadAs (NodeId.print ⟨k, .numeric (Int32.ofNat n)⟩) ⟨k, .numeric (Int32.ofNat n)⟩ ∧
    ReadAs (NodeId.print ⟨k, .string s⟩) ⟨k, .string s⟩ ∧
    ReadAs (Identifier.numeric (Int32.ofNat n)).short ⟨0, .numeric (Int32.ofNat n)⟩ := by
  have hnumeric := print_numeric_read k hn
  have hstring := print_string_read k hs
  have hshort := short_numeric_read hn
  refine ⟨⟨fun h => (short_string_read_iff hs).mp h.shortString, fun h => ?_⟩, hnumeric, hstring, hshort⟩
  exact ⟨hnumeric, hstring, hshort, (short_string_read_iff hs).mpr h⟩

theorem extractNodeId_inverts_second : Inverts 1 3002 "Point" :=
  (extractNodeId_inverts_iff 1 3002 (by decide) "Point" (by decide)).1.mpr (by decide)

/-- `s=a;b`: the text behind the `;` begins with neither `i` nor `s`. -/
theorem semi_loses_string :
    ¬ ∀ (k : UInt16) (n : Nat) (s : String), n < 2 ^ 31 → terminator ∉ s.toList → Inverts k n s := by
  intro h
  have hread := (h 0 0 "a;b" (by decide) (by decide)).shortString
  exact ((short_string_read_iff (by decide)).mp hread).2 (by decide)

end ModernOpc.Gen
