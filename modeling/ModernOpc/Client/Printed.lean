import ModernOpc.Client.Resolve
import ModernOpc.Types.Print

/-! Printed ids, resolved.

What `operator<<` writes behind the namespace index is the form that `resolve` reads, with
the uri in place of the index. The table a client looks the uri up in only grows at its
end, so an index found once is found always.

`resolve_printed_iff`: a printed id is resolved to itself, then and after any connects and
disconnects, exactly if it is a number or a string. -/
namespace ModernOpc.Client
open Library Library.Bytes Library.Decimal

/-- An operation appends to the table. -/
theorem step_appends {s t : State} {op : Op} (h : step s op = some t) :
    ∃ more, t.session.namespaces = s.session.namespaces ++ more := by
  cases op with
  | disconnect =>
    cases h
    exact ⟨[], (List.append_nil _).symm⟩
  | connect answer =>
    rcases connect_cases s.session answer with ⟨⟨e, he⟩, _⟩ | ⟨he, _, _⟩
    · simp only [step, he] at h
      cases h
      exact ⟨[], (List.append_nil _).symm⟩
    · simp only [step, he] at h
      cases h
      exact ⟨answer.namespaceArray, rfl⟩

/-- What was found is found again. -/
theorem found_again {s : State} {uri : Bytes} {k : Nat} (h : s.session.namespaces.idxOf? uri = some k)
    (ops : List Op) : ∀ t ∈ Run.visited step s ops, t.session.namespaces.idxOf? uri = some k := by
  refine Run.holds_of_kept (I := fun t : State => t.session.namespaces.idxOf? uri = some k) (G := fun _ _ => True)
    (fun s op t hs _ hstep => ?_) h fun _ _ => trivial
  obtain ⟨more, hmore⟩ := step_appends hstep
  rw [hmore]
  have happend : (s.session.namespaces ++ more).idxOf? uri =
      (s.session.namespaces.idxOf? uri).or ((more.idxOf? uri).map (· + s.session.namespaces.length)) :=
    List.findIdx?_append
  rw [happend, hs, Option.some_or]

theorem toInt32_toInt (i : Int32) : toInt32 i.toInt = some i := by
  have hle : Int32.minValue.toInt ≤ i.toInt ∧ i.toInt ≤ Int32.maxValue.toInt := ⟨i.le_toInt, i.toInt_le⟩
  rw [toInt32, if_pos hle, Int32.ofInt_toInt]

theorem stoi_signedDecimal (i : Int32) : stoi (signedDecimal i) = .ok i := by
  unfold stoi
  rw [strtol_signedDecimal]
  dsimp only
  rw [toInt32_toInt]

/-- A number and a string come back, and the other kinds are no identifier to `resolve`. -/
theorem resolve_printIdentifier {self : Session} {uri : Bytes} {id : NodeId} (hid : id.Matching)
    (h : self.namespaces.idxOf? uri = some id.nsIdx.toNat) {x : Bytes} (hx : id.printIdentifier = some x) :
    resolve self ⟨uri, x⟩ =
      if id.type = .numeric ∨ id.type = .string then .ok id else .error (.opc ⟨"could not parse nodeId"⟩) := by
  obtain ⟨ns, i, rfl⟩ | ⟨ns, s, rfl⟩ | ⟨ns, s, rfl⟩ | ⟨ns, g, rfl⟩ := hid.cases
  · cases hx
    rw [resolve_int h, stoi_signedDecimal, if_pos (.inl rfl)]
    simp [Except.map, NodeId.ofInt]
  · cases hx
    rw [resolve_string h, if_pos (.inr rfl)]
    simp [NodeId.ofString]
  · cases hx
    rw [resolve_found h, if_neg (by simp [NodeId.ofString])]
    rfl
  · cases hx
    rw [resolve_found h, if_neg (by simp [NodeId.ofGuid])]
    rfl

/-- What is printed behind the namespace index is resolved, together with a uri that stands at that index,
to the id printed, and stays so whatever connects and disconnects follow, exactly if the id is a number or
a string; a guid or a byte string is refused throughout. -/
theorem resolve_printed_iff (s : State) (uri : Bytes) (id : NodeId) (hid : id.Matching)
    (huri : s.session.namespaces.idxOf? uri = some id.nsIdx.toNat) :
    ∃ x, id.print = some (literal "ns=" ++ decimal id.nsIdx.toNat ++ literal ";" ++ x) ∧
      ∀ ops, ∀ t ∈ Run.visited step s ops,
        (resolve t.session ⟨uri, x⟩ = .ok id ↔ id.type = .numeric ∨ id.type = .string) ∧
        (Rejects t.session uri x ↔ id.type = .guid ∨ id.type = .byteString) := by
  obtain ⟨x, hx, hprint⟩ := NodeId.print_eq hid
  refine ⟨x, hprint, fun ops t ht => ?_⟩
  have hresolve := resolve_printIdentifier hid (found_again huri ops t ht) hx
  unfold Rejects
  rw [hresolve]
  cases id.type <;> simp

/-- The id of -5 in the second of two namespaces, printed, and resolved after a connect to another server. -/
theorem resolve_printed_again :
    ∃ x t, Run.final step ⟨⟨.connected, [literal "a", literal "b"]⟩, none⟩
        [.disconnect, .connect ⟨.good, .good, [literal "b"]⟩] = some t ∧
      (NodeId.ofInt 1 (-5)).print = some (literal "ns=1;" ++ x) ∧
      resolve t.session ⟨literal "b", x⟩ = .ok (.ofInt 1 (-5)) := by
  obtain ⟨x, hprint, hresolve⟩ := resolve_printed_iff ⟨⟨.connected, [literal "a", literal "b"]⟩, none⟩ (literal "b")
    (.ofInt 1 (-5)) (by decide) (by decide)
  obtain ⟨t, ht⟩ : ∃ t, Run.final step ⟨⟨.connected, [literal "a", literal "b"]⟩, none⟩
      [.disconnect, .connect ⟨.good, .good, [literal "b"]⟩] = some t := ⟨_, rfl⟩
  exact ⟨x, t, ht, hprint, ((hresolve _ t (Run.final_mem_visited ht)).1).mpr (.inl rfl)⟩

end ModernOpc.Client
