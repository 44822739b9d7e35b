import ModernOpc.Client.Namespaces
import ModernOpc.Types.Text

/-! The server's lookup of a namespace, and the client's.

The server counts in sixteen bits and returns 0 for a uri it does not find; the client
counts in an `int` and throws. `lookups_agree_iff`: on one array of namespaces both give
the first index of every uri in it, and no index of the array for any other, exactly
where there is no other uri to ask for or no namespace at all. Namespace 0 is otherwise
what the server answers for an unknown uri. -/
namespace ModernOpc.Server

/-- The loop of `getNamespaceIndex`, with its counter. -/
def searchFrom (uri : Bytes) : List Bytes → UInt16 → Option UInt16
  | [], _ => none
  | ns :: rest, nsIdx => if uri = fromUAString ns then some nsIdx else searchFrom uri rest (nsIdx + 1)

/-- `Server::getNamespaceIndex`, by what the read of the array gives. -/
def getNamespaceIndex (reading : Ua.StatusCode) (namespaces : List Bytes) (uri : Bytes) : UInt16 :=
  if reading ≠ .good then 0
  else match searchFrom uri namespaces 0 with
    | some nsIdx => nsIdx
    | none => 0

/-- The server's loop is the client's, with the counter cut to sixteen bits. -/
theorem searchFrom_eq (uri : Bytes) (namespaces : List Bytes) (idx : Nat) :
    searchFrom uri namespaces (UInt16.ofNat idx) = (Client.search uri namespaces idx).map UInt16.ofNat := by
  induction namespaces generalizing idx with
  | nil => rfl
  | cons ns rest ih =>
    rw [searchFrom, Client.search, fromUAString_eq]
    by_cases h : uri = ns
    · rw [if_pos h, if_pos h]
      rfl
    · rw [if_neg h, if_neg h, ← ih]
      exact congrArg (searchFrom uri rest) (UInt16.ofNat_add idx 1).symm

theorem getNamespaceIndex_eq (namespaces : List Bytes) (uri : Bytes) :
    getNamespaceIndex .good namespaces uri = UInt16.ofNat ((namespaces.idxOf? uri).getD 0) := by
  have hloop : searchFrom uri namespaces 0 = (namespaces.idxOf? uri).map UInt16.ofNat := by
    have := searchFrom_eq uri namespaces 0
    rwa [Client.search_eq, Option.map_map] at this
  unfold getNamespaceIndex
  rw [if_neg (fun h => h rfl), hloop]
  cases namespaces.idxOf? uri <;> rfl

/-- The lookups of a server and of a client that has just connected to it. -/
structure Agree (namespaces : List Bytes) (client : Client.Session) (uri : Bytes) : Prop where
  found : ∀ k, namespaces.idxOf? uri = some k → (getNamespaceIndex .good namespaces uri).toNat = k ∧
    Client.resolveNamespaceUri client uri = .ok k ∧ k < UInt16.size
  absent : uri ∉ namespaces → ¬ (getNamespaceIndex .good namespaces uri).toNat < namespaces.length ∧
    ∀ k, Client.resolveNamespaceUri client uri = .ok k → ¬ k < namespaces.length

/-- The lookups agree on the uris of the array, and on no other unless it is empty. -/
theorem lookups_agree_iff (namespaces : List Bytes) (hlen : namespaces.length ≤ 65536) (uri : Bytes) :
    Agree namespaces (Client.connect .initial ⟨.good, .good, namespaces⟩).1 uri ↔
      uri ∈ namespaces ∨ namespaces = [] := by
  rw [Client.connect_good, show Client.Session.initial.namespaces ++ namespaces = namespaces from rfl]
  have hclient : Client.resolveNamespaceUri ⟨.connected, namespaces⟩ uri = Client.expected namespaces uri :=
    Client.resolveNamespaceUri_eq ..
  constructor
  · intro h
    by_contra hno
    obtain ⟨huri, hne⟩ := not_or.mp hno
    refine (h.absent huri).1 ?_
    rw [getNamespaceIndex_eq, List.idxOf?_eq_none_iff.mpr huri]
    exact List.length_pos_iff.mpr hne
  · intro h
    refine ⟨fun k hk => ?_, fun huri => ?_⟩
    · have hlt : k < namespaces.length := (List.idxOf?_eq_some_iff.mp hk).1
      refine ⟨?_, ?_, Nat.lt_of_lt_of_le hlt hlen⟩
      · rw [getNamespaceIndex_eq, hk]
        exact UInt16.toNat_ofNat_of_lt' (Nat.lt_of_lt_of_le hlt hlen)
      · rw [hclient, Client.expected, hk]
    · rcases h with h | rfl
      · exact absurd h huri
      · exact ⟨Nat.not_lt_zero _, fun _ _ => Nat.not_lt_zero _⟩

/-- The second of two namespaces. -/
theorem lookups_agree_second :
    Agree [[0x61], [0x62]] (Client.connect .initial ⟨.good, .good, [[0x61], [0x62]]⟩).1 [0x62] :=
  (lookups_agree_iff [[0x61], [0x62]] (by decide) [0x62]).mpr (by decide)

/-- An unknown uri has the index of the first namespace. -/
theorem unknown_uri_found : ¬ ∀ (namespaces : List Bytes) (uri : Bytes), namespaces.length ≤ 65536 →
    Agree namespaces (Client.connect .initial ⟨.good, .good, namespaces⟩).1 uri := by
  intro h
  exact ((h [[0x61]] [0x62] (by decide)).absent (by decide)).1 (by decide)

end ModernOpc.Server
