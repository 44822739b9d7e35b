import Mathlib.Data.Fintype.Card
import Mathlib.Data.List.Nodup
import Mathlib.Data.Set.Finite.Basic
import Mathlib.Logic.Relation

/-! Depth-first orders of a graph.

`edge a b` says that `a` needs `b`; the nodes of interest are those with `keep`. A
`Postorder` of some roots lists the kept nodes they reach, each behind the ones it
needs, maybe several times. It is built as a search builds it: nothing for no root
(`nil`), one after the other for several (`append`), and for a node what its children
give and then the node (`node`).

`once` goes through such a list and adds what is new. What was listed before and the
needed nodes come first stays true (`DepsFirst.once`). If finitely many nodes need
anything, a search ends on a graph without cycles (`wellFounded_of_acyclic`), and from one
root exactly where it reaches no cycle (`acc_iff_acyclic`). -/
namespace ModernOpc.Library.Postorder
open Relation

variable {ι : Type}

/-- Each entry has what it needs in front of it. -/
def DepsFirst (needs : ι → ι → Prop) (l : List ι) : Prop :=
  ∀ front a back, l = front ++ a :: back → ∀ b, needs a b → b ∈ front

namespace DepsFirst
variable {needs : ι → ι → Prop} {l l' : List ι}

theorem nil : DepsFirst needs ([] : List ι) := by
  intro front a back h
  cases front <;> cases h

theorem snoc {a : ι} (h : DepsFirst needs l) (ha : ∀ b, needs a b → b ∈ l) : DepsFirst needs (l ++ [a]) := by
  intro front c back heq b hb
  rcases List.eq_nil_or_concat back with rfl | ⟨init, z, rfl⟩
  · obtain ⟨rfl, hc⟩ := List.append_inj' heq rfl
    cases hc
    exact ha b hb
  · rw [List.concat_eq_append, ← List.cons_append, ← List.append_assoc] at heq
    exact h front c init (List.append_inj' heq rfl).1 b hb

theorem append (h : DepsFirst needs l) (h' : DepsFirst needs l') : DepsFirst needs (l ++ l') := by
  intro front a back heq b hb
  rcases List.append_eq_append_iff.mp heq with ⟨mid, rfl, hmid⟩ | ⟨mid, rfl, hmid⟩
  · exact List.mem_append_right l (h' mid a back hmid b hb)
  · cases mid with
    | nil => exact absurd (h' [] a back hmid.symm b hb) List.not_mem_nil
    | cons c mid =>
      obtain ⟨rfl, _⟩ := List.cons.inj hmid
      exact h front a mid rfl b hb

end DepsFirst

/-- The entries of a list that are not there yet, added behind. -/
def once [DecidableEq ι] (done : List ι) : List ι → List ι
  | [] => done
  | a :: rest => if a ∈ done then once done rest else once (done ++ [a]) rest

section Once
variable [DecidableEq ι] {needs : ι → ι → Prop}

theorem mem_once {done l : List ι} {a : ι} : a ∈ once done l ↔ a ∈ done ∨ a ∈ l := by
  induction l generalizing done with
  | nil => simp [once]
  | cons b rest ih =>
    unfold once
    split
    · next hb =>
      rw [ih, List.mem_cons]
      constructor
      · intro h
        exact h.imp_right .inr
      · intro h
        rcases h with h | rfl | h
        · exact .inl h
        · exact .inl hb
        · exact .inr h
    · rw [ih, List.mem_append, List.mem_singleton, List.mem_cons, or_assoc]

theorem nodup_once {done : List ι} (h : done.Nodup) (l : List ι) : (once done l).Nodup := by
  induction l generalizing done with
  | nil => exact h
  | cons a rest ih =>
    unfold once
    split
    · exact ih h
    · next ha =>
      apply ih
      rw [← List.concat_eq_append]
      exact h.concat ha

/-- Going through a list adds each entry after what it needs. -/
theorem DepsFirst.once {done l : List ι} (hdone : DepsFirst needs done) (hl : DepsFirst needs l) :
    DepsFirst needs (once done l) := by
  -- What was gone through already is done.
  suffices h : ∀ gone done, DepsFirst needs (gone ++ l) → DepsFirst needs done → (∀ a ∈ gone, a ∈ done) →
      DepsFirst needs (Postorder.once done l) from
    h [] done hl hdone nofun
  clear hdone hl done
  induction l with
  | nil =>
    intro gone done _ hdone _
    exact hdone
  | cons a rest ih =>
    intro gone done hl hdone hgone
    have hrest : DepsFirst needs ((gone ++ [a]) ++ rest) := by
      rw [List.append_assoc]
      exact hl
    unfold Postorder.once
    split
    · next ha =>
      refine ih (gone ++ [a]) done hrest hdone fun b hb => ?_
      rcases List.mem_append.mp hb with hb | hb
      · exact hgone b hb
      · rw [List.mem_singleton.mp hb]
        exact ha
    · have hneeds : ∀ b, needs a b → b ∈ done := fun b hb => hgone b (hl gone a rest rfl b hb)
      refine ih (gone ++ [a]) (done ++ [a]) hrest (hdone.snoc hneeds) fun b hb => ?_
      rw [List.mem_append] at hb ⊢
      exact hb.imp_left (hgone b)

end Once

/-! ### What a search lists -/

section Search
variable (edge : ι → ι → Prop) (keep : ι → Prop)

/-- What a node needs: the kept nodes it has an edge to. -/
def Needs (a b : ι) : Prop := edge a b ∧ keep b

/-- The kept nodes the roots reach, each behind what it needs. -/
structure Traversal (roots out : List ι) : Prop where
  first : DepsFirst (Needs edge keep) out
  mem : ∀ b, b ∈ out ↔ keep b ∧ ∃ a ∈ roots, ReflTransGen edge a b

variable {edge keep}

namespace Traversal

theorem nil : Traversal edge keep [] [] where
  first := DepsFirst.nil
  mem := by simp

theorem append {roots roots' out out' : List ι} (h : Traversal edge keep roots out)
    (h' : Traversal edge keep roots' out') : Traversal edge keep (roots ++ roots') (out ++ out') where
  first := h.first.append h'.first
  mem b := by
    rw [List.mem_append, h.mem, h'.mem, ← and_or_left]
    simp only [List.mem_append, or_and_right, exists_or]

/-- A node's order: what its children give, and then the node. -/
theorem node [DecidablePred keep] {a : ι} {children out : List ι} (hedge : ∀ b, edge a b ↔ b ∈ children)
    (h : Traversal edge keep children out) :
    Traversal edge keep [a] (if keep a then out ++ [a] else out) where
  first := by
    have hneeds : ∀ b, Needs edge keep a b → b ∈ out := fun b hb =>
      (h.mem b).mpr ⟨hb.2, b, (hedge b).mp hb.1, .refl⟩
    split
    · exact h.first.snoc hneeds
    · exact h.first
  mem b := by
    have hreach : (∃ c ∈ [a], ReflTransGen edge c b) ↔ b = a ∨ ∃ c ∈ children, ReflTransGen edge c b := by
      simp only [List.mem_singleton, exists_eq_left, ← hedge]
      exact ReflTransGen.cases_head_iff.trans (or_congr_left eq_comm)
    rw [hreach]
    split
    · next ha =>
      rw [List.mem_append, List.mem_singleton, h.mem]
      constructor
      · intro hb
        rcases hb with ⟨hb, hc⟩ | rfl
        · exact ⟨hb, .inr hc⟩
        · exact ⟨ha, .inl rfl⟩
      · intro ⟨hb, hc⟩
        exact hc.symm.imp_left fun hc => ⟨hb, hc⟩
    · next ha =>
      rw [h.mem]
      constructor
      · intro ⟨hb, hc⟩
        exact ⟨hb, .inr hc⟩
      · intro ⟨hb, hc⟩
        rcases hc with rfl | hc
        · exact absurd hb ha
        · exact ⟨hb, hc⟩

end Traversal

/-- Without a cycle, a search ends: the nodes with edges are finitely many. -/
theorem wellFounded_of_acyclic {sources : List ι} (hsources : ∀ a b, edge a b → a ∈ sources)
    (hacyclic : ∀ a, ¬ TransGen edge a a) : WellFounded fun b a => edge a b := by
  let below (b a : {a // a ∈ sources}) : Prop := TransGen edge a.1 b.1
  have : Finite {a // a ∈ sources} := (List.finite_toSet sources).to_subtype
  have : IsTrans _ below := ⟨fun _ _ _ h h' => h'.trans h⟩
  have : Std.Irrefl below := ⟨fun a => hacyclic a.1⟩
  have hbelow : WellFounded below := Finite.wellFounded_of_trans_of_irrefl below
  have hsource : ∀ a : {a // a ∈ sources}, Acc (fun b a => edge a b) a.1 := by
    intro a
    induction a using hbelow.induction with
    | _ a ih =>
      refine .intro a.1 fun b hb => ?_
      by_cases h : b ∈ sources
      · exact ih ⟨b, h⟩ (.single hb)
      · exact .intro b fun c hc => absurd (hsources b c hc) h
  refine ⟨fun a => ?_⟩
  by_cases h : a ∈ sources
  · exact hsource ⟨a, h⟩
  · exact .intro a fun b hb => absurd (hsources a b hb) h

/-- A search from a root ends exactly if no cycle can be reached from there. -/
theorem acc_iff_acyclic {sources : List ι} {root : ι} (hsources : ∀ a, ReflTransGen edge root a → a ∈ sources) :
    Acc (fun b a => edge a b) root ↔ ∀ a, ReflTransGen edge root a → ¬ TransGen edge a a := by
  constructor
  · intro hroot a ha hcycle
    have hacc : ∀ a, ReflTransGen edge root a → Acc (fun b a => edge a b) a := by
      intro a ha
      induction ha with
      | refl => exact hroot
      | tail _ hedge ih => exact ih.inv hedge
    have hirrefl : ∀ a, Acc (TransGen fun b a => edge a b) a → ¬ TransGen (fun b a => edge a b) a a := by
      intro a h
      induction h with
      | intro a _ ih => exact fun h => ih a h h
    exact hirrefl a (hacc a ha).transGen (transGen_swap.mpr hcycle)
  · intro h
    let reached (a b : ι) : Prop := ReflTransGen edge root a ∧ edge a b
    have hcycle : ∀ a b, TransGen reached a b → ReflTransGen edge root a ∧ TransGen edge a b := by
      intro a b hab
      induction hab with
      | single hab => exact ⟨hab.1, .single hab.2⟩
      | tail _ hbc ih => exact ⟨ih.1, ih.2.tail hbc.2⟩
    have hwf : WellFounded fun b a => reached a b :=
      wellFounded_of_acyclic (fun a b hab => hsources a hab.1) fun a ha =>
        h a (hcycle a a ha).1 (hcycle a a ha).2
    have hacc : ∀ a, ReflTransGen edge root a → Acc (fun b a => edge a b) a := by
      intro a
      induction a using hwf.induction with
      | _ a ih => exact fun ha => .intro a fun b hb => ih b ⟨ha, hb⟩ (ha.tail hb)
    exact hacc root .refl

end Search

end ModernOpc.Library.Postorder
