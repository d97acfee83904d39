import Depcheck.Proofs.Graph.Plans
import Depcheck.Proofs.PackageSet.Reachable
import Depcheck.Proofs.Verification.Hits
import Depcheck.Proofs.Verification.Spread

/-!
# A run stays in its arena

Whatever a run names by id is a package of the list that it verified: the targets of its edges, the
dependents, the packages that conflicts hit, and the members of both orders and of all loops. No
package is a target of its own edges.
-/

open Relation (TransGen)

namespace Depcheck

/-- The members of the order and of all loops are among the `n` packages. -/
structure Plan.InRange (plan : Plan) (n : Nat) : Prop where
  order : ∀ id ∈ plan.order, id < n
  loops : ∀ l ∈ plan.loops, ∀ id ∈ l.broken :: l.cycle, id < n

/-- All ids of a run are ids of the `n` packages, and no edge leads back to its owner. -/
structure Verification.InRange (v : Verification) (n : Nat) : Prop where
  size : v.graph.size = n
  targets : ∀ p, ∀ e ∈ v.graph.edges p, ∀ t ∈ e.targets, t < n ∧ t ≠ p
  dependents : ∀ p, ∀ q ∈ v.graph.dependents p, q < n
  conflicts : ∀ p, ∀ c ∈ v.graph.conflicts p, c.target < n ∧ c.target ≠ p
  install : v.install.InRange n
  removal : v.removal.InRange n

/-- The packages of a loop are those that its relation knows. -/
theorem IsLoop.lt {R : Nat → Nat → Prop} {n : Nat} {l : Loop} (h : IsLoop R l)
    (hR : ∀ p t, R p t → p < n ∧ t < n) : ∀ id ∈ l.broken :: l.cycle, id < n := by
  have hcycle : ∀ id ∈ l.cycle, id < n := by
    have hends : ∀ p t, TransGen R p t → p < n ∧ t < n := by
      intro p t hpt
      obtain ⟨_, hfirst, _⟩ := TransGen.head'_iff.1 hpt
      obtain ⟨_, _, hlast⟩ := TransGen.tail'_iff.1 hpt
      exact ⟨(hR _ _ hfirst).1, (hR _ _ hlast).2⟩
    have hpaths : l.cycle.Pairwise (TransGen R) :=
      (h.steps.imp fun _ _ hstep => TransGen.single hstep).pairwise
    have hbroken := h.broken
    revert hpaths hbroken
    rcases l.cycle with _ | ⟨x, _ | ⟨y, rest⟩⟩
    · intro _ hbroken
      cases hbroken
    · intro _ hbroken
      cases hbroken
    · intro hpaths _ id hid
      have hx := (List.pairwise_cons.1 hpaths).1
      rcases List.mem_cons.1 hid with rfl | hid
      · exact (hends _ _ (hx y List.mem_cons_self)).1
      · exact (hends _ _ (hx id hid)).2
  intro id hid
  rcases List.mem_cons.1 hid with rfl | hid
  · exact hcycle _ (List.mem_of_mem_dropLast (List.mem_of_getLast? h.broken))
  · exact hcycle id hid

namespace Graph

variable {g : Graph}

theorem inRange_planBy (h : g.Tidy) (select : Edge → Bool) :
    (g.planBy select).InRange g.size where
  order := fun _ hid => List.mem_range.1 ((perm_order_planBy h select).mem_iff.1 hid)
  loops := fun l hl => ((loopsExact_planBy h select).genuine l hl).lt fun _ _ => h.selects_lt

theorem inRange_removalPlan (h : g.Tidy) : g.removalPlan.InRange g.size where
  order := fun id hid => (inRange_planBy h _).order id (List.mem_reverse.1 hid)
  loops := (inRange_planBy h _).loops

end Graph

namespace Context

variable {ctx : Context} {passes : Passes} {states : Array PackageState}

theorem graph_verify_eq :
    (ctx.verify passes states).1.graph =
      if passes.conflicts then ctx.addConflicts (ctx.requirementGraph ctx.outcomes.table)
      else ctx.requirementGraph ctx.outcomes.table := rfl

theorem conflicts_requirementGraph (table : List Outcome) (p : Nat) :
    (ctx.requirementGraph table).conflicts p = [] := by
  induction table using List.reverseRecOn with
  | nil => exact Graph.conflicts_ofSize _ p
  | append_singleton table o ih =>
    rw [requirementGraph_append, Graph.addOutcome, Graph.conflicts_addMatches, ih]

theorem size_graph_verify : (ctx.verify passes states).1.graph.size = ctx.packages.size := by
  rw [graph_verify_eq]
  split
  · rw [addConflicts_eq_addHits, Graph.size_addHits, size_requirementGraph]
  · exact size_requirementGraph _

/-- No package is a target of its own requirements. -/
theorem ne_of_mem_targets_verify {p : Nat} {e : Edge}
    (he : e ∈ (ctx.verify passes states).1.graph.edges p) {t : Nat} (ht : t ∈ e.targets) :
    t ≠ p := by
  obtain ⟨_, o, ho, htargets⟩ := outcomes_of_mem_edges (lt_of_mem_edges_verify he) he
  rw [htargets] at ht
  rintro rfl
  have howner : o.owner = t := (mem_outcomesFor.1 (mem_of_settling? ho)).2.1
  exact (Outcome.resolution_of_mem_targets ht).2 (howner ▸ ht)

theorem lt_of_mem_dependents {table : List Outcome}
    (howner : ∀ o ∈ table, o.owner < ctx.packages.size) {p q : Nat}
    (hq : q ∈ (ctx.requirementGraph table).dependents p) : q < ctx.packages.size := by
  have hp : p < ctx.packages.size := by
    rw [← size_requirementGraph table]
    exact Graph.lt_size_of_mem_dependents hq
  obtain ⟨o, ho, rfl, _⟩ := (mem_dependents_requirementGraph table hp).1 hq
  exact howner o ho

theorem of_mem_conflicts_verify (hidx : ctx.Indexed) {p : Nat} {c : ConflictEdge}
    (hc : c ∈ (ctx.verify passes states).1.graph.conflicts p) :
    c.target < ctx.packages.size ∧ c.target ≠ p := by
  rw [graph_verify_eq] at hc
  split at hc
  · have hhits := (mem_conflicts_addConflicts hidx (conflicts_requirementGraph _) hc).1.1
    exact ⟨hhits.2.1, hhits.1⟩
  · rw [conflicts_requirementGraph] at hc
    cases hc

theorem tidy_verify (hidx : ctx.Indexed) : (ctx.verify passes states).1.graph.Tidy where
  ascending := by
    intro p
    rw [(graph_verify passes states p).1]
    exact ascending_requirementGraph _ p
  lt := by
    intro p e he
    rw [size_graph_verify]
    exact within_verify hidx p e he e.primary List.mem_cons_self

theorem inRange_listed : ctx.listed.InRange ctx.packages.size where
  order := fun _ hid => List.mem_range.1 hid
  loops := fun l hl => by cases hl

theorem inRange_planned {g : Graph} (hsize : g.size = ctx.packages.size) {wanted : Bool}
    {plan : Plan} (hplan : plan.InRange g.size) :
    (if wanted then plan else ctx.listed).InRange ctx.packages.size := by
  split
  · exact hsize ▸ hplan
  · exact inRange_listed

theorem inRange_verify (hidx : ctx.Indexed) :
    (ctx.verify passes states).1.InRange ctx.packages.size := by
  have hsize : (ctx.verify passes states).1.graph.size = ctx.packages.size := size_graph_verify
  have htidy : (ctx.verify passes states).1.graph.Tidy := tidy_verify hidx
  refine ⟨hsize, ?_, ?_, fun p c => of_mem_conflicts_verify hidx, ?_, ?_⟩
  · intro p e he t ht
    exact ⟨within_verify hidx p e he t ht, ne_of_mem_targets_verify he ht⟩
  · intro p q hq
    rw [(graph_verify passes states p).2] at hq
    exact lt_of_mem_dependents (fun o => owner_lt_of_mem_table) hq
  · exact inRange_planned hsize (Graph.inRange_planBy htidy _)
  · exact inRange_planned hsize (Graph.inRange_removalPlan htidy)

end Context

end Depcheck
