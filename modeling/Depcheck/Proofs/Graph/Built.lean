import Depcheck.Graph.Order
import Depcheck.Proofs.Graph.Building

/-!
# Graphs that can be built

A graph of `n` packages grows by requirements, each with one match or with several. In whatever
order they come, every row ascends strictly by primary and no edge leaves the graph.
-/

namespace Depcheck

namespace Graph

/-- The graphs of `n` packages that adding requirements leads to. -/
inductive Built (n : Nat) : Graph → Prop
  | empty : Built n (ofSize n)
  | single {g : Graph} (owner requirement : Nat) (flags : EdgeFlags) (target : Nat) :
      Built n g → owner < n → target < n → Built n (g.addSingle owner requirement flags target)
  | multi {g : Graph} (owner requirement : Nat) (flags : EdgeFlags) (primary : Nat)
      (alternates : List Nat) :
      Built n g → owner < n → primary < n → alternates ≠ [] → (∀ t ∈ alternates, t < n) →
      Built n (g.addMulti owner requirement flags primary alternates)

/-- Every row ascends by primary, and every primary is a package of the graph. -/
structure Tidy (g : Graph) : Prop where
  ascending : ∀ id, Row.Ascending Edge.primary (g.edges id)
  lt : ∀ id, ∀ e ∈ g.edges id, e.primary < g.size

variable {n : Nat} {g : Graph}

theorem tidy_ofSize (n : Nat) : (ofSize n).Tidy := by
  constructor
  case ascending =>
    intro id
    rw [edges_ofSize]
    exact List.Pairwise.nil
  case lt =>
    intro id e he
    rw [edges_ofSize] at he
    cases he

theorem Tidy.upsertEdge (h : g.Tidy) (owner : Nat) (fresh : Edge) (merge : Edge → Edge)
    (hfresh : fresh.primary < g.size) (hmerge : ∀ e, (merge e).primary = e.primary) :
    (g.upsertEdge owner fresh merge).Tidy := by
  have hrow : ∀ id, (g.upsertEdge owner fresh merge).edges id = g.edges id ∨
      (g.upsertEdge owner fresh merge).edges id =
        Row.upsert Edge.primary fresh merge (g.edges id) := by
    intro id
    by_cases hid : id < g.size
    · rw [edges_upsertEdge _ _ hid]
      split
      · exact .inr rfl
      · exact .inl rfl
    · refine .inl ?_
      rw [edges_of_le (Nat.le_of_not_lt hid), edges_of_le]
      rw [size_upsertEdge]
      exact Nat.le_of_not_lt hid
  constructor
  case ascending =>
    intro id
    rcases hrow id with heq | heq
    · rw [heq]
      exact h.ascending id
    · rw [heq]
      exact (h.ascending id).upsert hmerge
  case lt =>
    intro id e he
    rw [size_upsertEdge]
    rcases hrow id with heq | heq
    · rw [heq] at he
      exact h.lt id e he
    · rw [heq] at he
      rcases Row.mem_upsert he with hold | rfl | ⟨a, ha, _, rfl⟩
      · exact h.lt id e hold
      · exact hfresh
      · rw [hmerge]
        exact h.lt id a ha

theorem Tidy.addDependents (h : g.Tidy) (owner : Nat) (targets : List Nat) :
    (g.addDependents owner targets).Tidy := by
  constructor
  case ascending =>
    intro id
    rw [edges_addDependents]
    exact h.ascending id
  case lt =>
    intro id e he
    rw [edges_addDependents] at he
    rw [size_addDependents]
    exact h.lt id e he

theorem Built.size_eq (h : Built n g) : g.size = n := by
  induction h with
  | empty => exact size_ofSize n
  | single owner requirement flags target _ _ _ ih => rw [size_addSingle, ih]
  | multi owner requirement flags primary alternates _ _ _ _ _ ih => rw [size_addMulti, ih]

theorem Built.tidy (h : Built n g) : g.Tidy := by
  induction h with
  | empty => exact tidy_ofSize n
  | single owner requirement flags target hg _ htarget ih =>
    rw [← hg.size_eq] at htarget
    apply Tidy.addDependents
    exact ih.upsertEdge owner _ _ htarget fun _ => rfl
  | multi owner requirement flags primary alternates hg _ hprimary _ _ ih =>
    rw [← hg.size_eq] at hprimary
    apply Tidy.addDependents
    exact ih.upsertEdge owner _ _ hprimary fun _ => rfl

/-! ## Selected edges -/

/-- Some selected edge leads from `p` to `t`. -/
def Selects (g : Graph) (select : Edge → Bool) (p t : Nat) : Prop :=
  ∃ e ∈ g.edges p, select e = true ∧ e.primary = t

variable {select : Edge → Bool} {p t : Nat}

theorem mem_selected : t ∈ g.selected select p ↔ g.Selects select p t := by
  rw [selected, List.mem_map, Selects]
  simp only [List.mem_filter, and_assoc]

theorem Tidy.nodup_selected (h : g.Tidy) (p : Nat) : (g.selected select p).Nodup := by
  have hrow : ((g.edges p).filter select).Pairwise fun a b => a.primary < b.primary :=
    (h.ascending p).filter select
  exact (List.pairwise_map.2 hrow).imp Nat.ne_of_lt

theorem Tidy.selects_lt (h : g.Tidy) (hs : g.Selects select p t) : p < g.size ∧ t < g.size := by
  obtain ⟨e, he, _, rfl⟩ := hs
  exact ⟨lt_size_of_mem_edges he, h.lt p e he⟩

end Graph

end Depcheck
