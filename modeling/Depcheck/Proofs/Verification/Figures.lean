import Depcheck.Proofs.Verification.Diagnostics

/-!
# The figures of a run

A run counts while it works: unmet requirements in the table of outcomes, flags in the tables of
states. Here each count is the number of what it stands for.
-/

namespace Depcheck

theorem Graph.allConflicts_eq (g : Graph) :
    g.allConflicts = (List.range g.size).flatMap g.conflicts := by
  rw [allConflicts, toList_eq_map_range g.nodes {}, List.flatMap_map]
  rfl

/-- The requirements that a run left unmet, each with its package and its position there. -/
def Verification.unmetPairs (v : Verification) : Set (Nat × Nat) :=
  {d | ∃ o ∈ v.outcomes, (o.owner, o.position) = d ∧
    (o.resolution = .absent ∨ o.resolution = .mismatch)}

namespace Context

variable {ctx : Context} {passes : Passes} {states : Array PackageState}

theorem length_unmetOf (ctx : Context) (table : List Outcome) :
    (ctx.unmetOf table).length = (table.filter fun o => o.unmet?.isSome).length := by
  rw [unmetOf, List.length_filterMap_eq_countP, List.countP_eq_length_filter]
  simp only [Option.isSome_map]

theorem unmet_verify_eq_zero_iff :
    (ctx.verify passes states).1.unmet = 0 ↔ ∀ o ∈ ctx.outcomes.table, o.unmet? = none := by
  show (ctx.unmetOf ctx.outcomes.table).length = 0 ↔ _
  rw [List.length_eq_zero_iff, unmetOf, List.filterMap_eq_nil_iff]
  simp only [Option.map_eq_none_iff]

/-- Each unmet requirement is counted once. -/
theorem encard_unmetPairs :
    (ctx.verify passes states).1.unmetPairs.encard = (ctx.verify passes states).1.unmet := by
  let pair : Outcome → Nat × Nat := fun o => (o.owner, o.position)
  let unmet := ctx.outcomes.table.filter fun o => o.unmet?.isSome
  have hnodup : (unmet.map pair).Nodup := by
    rw [List.Nodup, List.pairwise_map]
    refine (table_pairwise.filter _).imp ?_
    intro a b hbefore heq
    obtain ⟨howner, hposition⟩ := Prod.mk.inj heq
    unfold Demand.Before at hbefore
    omega
  have hlength : (ctx.verify passes states).1.unmet = (unmet.map pair).length := by
    rw [List.length_map]
    exact length_unmetOf ctx ctx.outcomes.table
  rw [hlength]
  refine encard_eq_length hnodup ?_
  intro d
  show (∃ o ∈ ctx.outcomes.table, pair o = d ∧ _) ↔ _
  simp only [unmet, List.mem_map, List.mem_filter, Outcome.isSome_unmet?]
  constructor
  · rintro ⟨o, ho, heq, hunmet⟩
    exact ⟨o, ⟨ho, hunmet⟩, heq⟩
  · rintro ⟨o, ⟨ho, hunmet⟩, heq⟩
    exact ⟨o, ho, heq, hunmet⟩

/-- The packages that cannot be installed are those that bear the flag at the end. -/
theorem tainted_verify_eq_length :
    (ctx.verify passes states).1.tainted =
      ((List.range states.size).filter fun id =>
        ((ctx.verify passes states).2.getD id {}).unmet).length := by
  show ((ctx.requirementGraph ctx.outcomes.table).taint (states.map PackageState.clearDerived)
    (unmetOwners ctx.outcomes.table)).countP PackageState.unmet = _
  rw [PackageState.countP_flag, Graph.size_taint, Array.size_map]
  congr 2
  funext id
  rw [Bool.eq_iff_iff]
  exact tainted_verify.symm

theorem obsoleted_verify_eq_length :
    (ctx.verify passes states).1.obsoleted =
      ((List.range states.size).filter fun id =>
        ((ctx.verify passes states).2.getD id {}).obsoleted).length := by
  rw [← size_verify passes states]
  exact PackageState.countP_flag PackageState.obsoleted _

/-- Where nothing is unmet, nothing is flagged. -/
theorem tainted_verify_eq_zero (h : (ctx.verify passes states).1.unmet = 0) :
    (ctx.verify passes states).1.tainted = 0 := by
  have hnone : unmetOwners ctx.outcomes.table = [] := by
    rw [List.eq_nil_iff_forall_not_mem]
    intro p hp
    obtain ⟨o, ho, _, hunmet⟩ := mem_unmetOwners.1 hp
    have hsome := Outcome.isSome_unmet?.2 hunmet
    rw [unmet_verify_eq_zero_iff.1 h o ho] at hsome
    cases hsome
  rw [tainted_verify_eq_length, List.length_eq_zero_iff, List.filter_eq_nil_iff]
  intro id _ htainted
  have hwalk := tainted_verify.1 htainted
  rw [hnone, Graph.taint] at hwalk
  exact not_tainted_clearDerived states id hwalk

end Context

end Depcheck
