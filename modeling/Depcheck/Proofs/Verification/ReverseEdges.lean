import Depcheck.Proofs.Graph.Closure
import Depcheck.Proofs.Verification.ForwardEdges

/-!
# Who depends on a package

A run notes the owner of a requirement with every package that the requirement leads to, unless it was
noted there last. Owners come in ascending order, so an owner that was noted at all was noted last:
the dependents of a package ascend strictly (`ascendingTo_requirementGraph`). They are the packages
with a requirement that it matches, also where a later requirement took its place on the edge
(`dependents_determined`).
-/

namespace Depcheck

/-! ## Rows that ascend up to an owner -/

/-- The row ascends strictly and ends with the owner at the latest. -/
structure AscendingTo (owner : Nat) (row : List Nat) : Prop where
  ascending : row.Pairwise (· < ·)
  le : ∀ p ∈ row, p ≤ owner

theorem AscendingTo.nil (owner : Nat) : AscendingTo owner [] where
  ascending := List.Pairwise.nil
  le := fun _ hp => by cases hp

theorem AscendingTo.mono {owner later : Nat} {row : List Nat} (h : AscendingTo owner row)
    (hle : owner ≤ later) : AscendingTo later row where
  ascending := h.ascending
  le := fun p hp => (h.le p hp).trans hle

/-- In a row that does not end with the owner, all stand before it. -/
theorem AscendingTo.lt_of_getLast?_ne {owner : Nat} {row : List Nat} (h : AscendingTo owner row)
    (hlast : row.getLast? ≠ some owner) {p : Nat} (hp : p ∈ row) : p < owner := by
  rcases List.eq_nil_or_concat row with rfl | ⟨front, last, rfl⟩
  · cases hp
  · have hne : last ≠ owner := by simpa using hlast
    have hle : last ≤ owner := h.le last (by simp)
    obtain ⟨_, _, hfront⟩ := List.pairwise_append.1 (List.concat_eq_append ▸ h.ascending)
    rw [List.concat_eq_append] at hp
    rcases List.mem_append.1 hp with hp | hp
    · have := hfront p hp last List.mem_cons_self
      omega
    · rw [List.mem_singleton] at hp
      omega

theorem AscendingTo.addDependent {owner : Nat} {n : Node} (h : AscendingTo owner n.dependents) :
    AscendingTo owner (n.addDependent owner).dependents := by
  rw [Node.addDependent]
  split
  · exact h
  · next hlast =>
    constructor
    · show (n.dependents ++ [owner]).Pairwise (· < ·)
      rw [List.pairwise_append]
      refine ⟨h.ascending, List.pairwise_singleton _ _, ?_⟩
      intro p hp q hq
      rw [List.mem_singleton] at hq
      subst hq
      exact h.lt_of_getLast?_ne hlast hp
    · intro p hp
      rcases List.mem_append.1 hp with hp | hp
      · exact h.le p hp
      · rw [List.mem_singleton] at hp
        exact Nat.le_of_eq hp

namespace Graph

variable {g : Graph} {owner : Nat}

theorem ascendingTo_addDependents (h : ∀ id, AscendingTo owner (g.dependents id))
    (targets : List Nat) (id : Nat) :
    AscendingTo owner ((g.addDependents owner targets).dependents id) := by
  induction targets generalizing g with
  | nil => exact h id
  | cons t rest ih =>
    rw [addDependents, List.foldl_cons, ← addDependents]
    apply ih
    intro id
    by_cases hid : id < g.size
    · rw [dependents, node_modify g t id _ hid]
      split
      · exact (h id).addDependent
      · exact h id
    · rw [dependents, node_modify_of_le _ _ _ (Nat.le_of_not_lt hid)]
      exact h id

/-- Adding the matches of a requirement keeps every row ascending up to its owner. -/
theorem ascendingTo_addMatches {requirement : Nat} {flags : EdgeFlags}
    (h : ∀ id, AscendingTo owner (g.dependents id)) (ids : List Nat) (id : Nat) :
    AscendingTo owner ((g.addMatches owner requirement flags ids).dependents id) := by
  cases ids with
  | nil => exact h id
  | cons primary alternates =>
    rw [addMatches_cons]
    apply ascendingTo_addDependents
    intro id
    rw [dependents_upsertEdge]
    exact h id

end Graph

namespace Context

variable {ctx : Context} {passes : Passes} {states : Array PackageState}

/-- Where the owners of the outcomes never descend, every row of dependents ascends. -/
theorem ascendingTo_requirementGraph {table : List Outcome}
    (hordered : table.Pairwise fun a b => a.owner ≤ b.owner) {owner : Nat}
    (hle : ∀ o ∈ table, o.owner ≤ owner) (id : Nat) :
    AscendingTo owner ((ctx.requirementGraph table).dependents id) := by
  induction table using List.reverseRecOn generalizing owner id with
  | nil =>
    show AscendingTo owner ((Graph.ofSize ctx.packages.size).dependents id)
    rw [Graph.dependents_ofSize]
    exact AscendingTo.nil owner
  | append_singleton table o ih =>
    obtain ⟨hordered, _, hlast⟩ := List.pairwise_append.1 hordered
    rw [requirementGraph_append]
    -- up to this owner all rows ascend, so it can be noted at their ends
    have hrows : ∀ id, AscendingTo o.owner ((ctx.requirementGraph table).dependents id) :=
      ih hordered fun a ha => hlast a ha o List.mem_cons_self
    exact (Graph.ascendingTo_addMatches hrows _ id).mono (hle o (by simp))

theorem dependents_verify_pairwise (q : Nat) :
    ((ctx.verify passes states).1.graph.dependents q).Pairwise (· < ·) := by
  have hordered : ctx.outcomes.table.Pairwise fun a b => a.owner ≤ b.owner := by
    refine table_pairwise.imp ?_
    rintro a b (hlt | ⟨heq, _⟩)
    · exact Nat.le_of_lt hlt
    · exact Nat.le_of_eq heq
  have hle : ∀ o ∈ ctx.outcomes.table, o.owner ≤ ctx.packages.size :=
    fun o ho => Nat.le_of_lt (owner_lt_of_mem_table ho)
  rw [(graph_verify passes states q).2]
  exact (ascendingTo_requirementGraph hordered hle q).ascending

/-- The requirements of all packages determine the dependents of a package. The outcomes say for
every requirement once how it was resolved. The dependents ascend strictly, and they are the packages
with a requirement that was matched to packages among which is this one, and not the requirer. -/
theorem dependents_determined (ctx : Context) (passes : Passes) (states : Array PackageState)
    {q : Nat} (hq : q < ctx.packages.size) :
    (ctx.verify passes states).1.outcomes.map Outcome.toDemand = demands ctx.packages ∧
      ((ctx.verify passes states).1.graph.dependents q).Pairwise (· < ·) ∧
      ∀ p, p ∈ (ctx.verify passes states).1.graph.dependents q ↔
        ∃ j r ids, (ctx.package p).requires[j]? = some r ∧
          ⟨⟨p, j, r⟩, .matched ids⟩ ∈ (ctx.verify passes states).1.outcomes ∧ q ∈ ids ∧ p ∉ ids := by
  refine ⟨toDemand_table, dependents_verify_pairwise q, ?_⟩
  intro p
  rw [(graph_verify passes states q).2, mem_dependents_requirementGraph _ hq]
  constructor
  · rintro ⟨o, ho, rfl, hq⟩
    obtain ⟨hres, hself⟩ := Outcome.resolution_of_mem_targets hq
    refine ⟨o.position, o.requirement, o.targets, requires_of_mem_table ho, ?_, hq, hself⟩
    rw [← hres]
    exact ho
  · rintro ⟨j, r, ids, _, ho, hq, hself⟩
    refine ⟨_, ho, rfl, ?_⟩
    rw [Outcome.targets_of_not_mem rfl hself]
    exact hq

/-- The only edge of the application leads no more to the oldest version, which its first requirement
was matched to. The application is a dependent of that version all the same. -/
theorem dependents_determined_merging :
    3 < mergingContext.packages.size ∧
      ((mergingContext.verify {} (Array.replicate 4 {})).1.graph.edges 0).map Edge.targets =
        [[1, 2]] ∧
      (mergingContext.verify {} (Array.replicate 4 {})).1.graph.dependents 3 = [0] ∧
      ∃ j r ids, (mergingContext.package 0).requires[j]? = some r ∧
        ⟨⟨0, j, r⟩, .matched ids⟩ ∈
          (mergingContext.verify {} (Array.replicate 4 {})).1.outcomes ∧ 3 ∈ ids ∧ 0 ∉ ids := by
  have hq : 3 < mergingContext.packages.size := by decide
  have hdependents : (mergingContext.verify {} (Array.replicate 4 {})).1.graph.dependents 3 = [0] := by
    cbv
  obtain ⟨_, _, hiff⟩ := dependents_determined mergingContext {} (Array.replicate 4 {}) hq
  refine ⟨hq, by cbv, hdependents, (hiff 0).1 ?_⟩
  rw [hdependents]
  exact List.mem_cons_self

end Context

end Depcheck
