import Depcheck.Proofs.Verification.Hits
import Depcheck.Proofs.Verification.InRange

/-!
# Obsolete packages

After the unmet requirements have spread, a run goes through the conflict edges of the packages that
can be installed, and flags the targets of those that come from an obsoletes record. No merging of
records hides one: a package is flagged exactly when an obsoletes record of such a package hits it
(`obsoleted_iff_hit`).
-/

namespace Depcheck

/-- Is the package flagged as obsolete? -/
def Obsoleted (states : Array PackageState) (id : Nat) : Prop :=
  (states.getD id {}).obsoleted = true

namespace Graph

variable {g : Graph} {states : Array PackageState}

theorem mem_obsoletedBy {q : Nat} :
    q ∈ g.obsoletedBy states ↔
      ∃ p < g.size, ¬Tainted states p ∧
        ∃ e ∈ g.conflicts p, e.flags.obsolete = true ∧ e.target = q := by
  unfold obsoletedBy
  simp only [List.mem_flatMap, List.mem_range]
  refine exists_congr fun p => and_congr_right fun _ => ?_
  by_cases ht : (states.getD p {}).unmet = true
  · rw [if_pos ht]
    exact iff_of_false List.not_mem_nil fun h => h.1 ht
  · rw [if_neg ht, and_iff_right (show ¬Tainted states p from ht)]
    simp only [List.mem_map, List.mem_filter, and_assoc]

theorem obsoleted_markObsoleted {q : Nat} :
    Obsoleted (g.markObsoleted states) q ↔
      Obsoleted states q ∨ q ∈ g.obsoletedBy states ∧ q < states.size :=
  PackageState.flag_foldl_modify_iff PackageState.obsoleted rfl fun _ => rfl

/-- The walk over the dependents makes nothing obsolete. -/
theorem not_obsoleted_taint (states : Array PackageState) (stack : List Nat) (q : Nat) :
    ¬Obsoleted (g.taint (states.map PackageState.clearDerived) stack) q := by
  rw [Obsoleted, flag_taint PackageState.obsoleted fun _ => rfl,
    PackageState.flag_map_eq_false PackageState.obsoleted rfl fun _ => rfl]
  exact Bool.noConfusion

end Graph

namespace Context

variable {ctx : Context} {passes : Passes} {states : Array PackageState} {p q : Nat}

/-- The package `p` declares a record that makes `q` obsolete. -/
def MakesObsolete (ctx : Context) (p q : Nat) : Prop :=
  ∃ c ∈ (ctx.package p).conflicts, c.flags.obsoletes = true ∧
    (ctx.package p).Hits ctx.strict c (ctx.package q)

theorem exists_hitsAsObsolete_iff :
    (∃ j, ctx.HitsAsObsolete p j q) ↔
      q ≠ p ∧ q < ctx.packages.size ∧ ctx.MakesObsolete p q := by
  constructor
  · rintro ⟨j, ⟨hne, hlt, c, hc, hhits⟩, c', hc', hobsolete⟩
    obtain rfl : c = c' := Option.some.inj (hc.symm.trans hc')
    exact ⟨hne, hlt, c, List.mem_of_getElem? hc, hobsolete, hhits⟩
  · rintro ⟨hne, hlt, c, hc, hobsolete, hhits⟩
    obtain ⟨j, hj⟩ := List.mem_iff_getElem?.1 hc
    exact ⟨j, ⟨hne, hlt, c, hj, hhits⟩, c, hj, hobsolete⟩

/-- The obsolete edges of a package lead to what its obsoletes records hit. -/
theorem exists_obsolete_conflict_iff (hidx : ctx.Indexed) {g : Graph}
    (hsize : g.size = ctx.packages.size) (hempty : ∀ id, g.conflicts id = []) :
    (∃ e ∈ (ctx.addConflicts g).conflicts p, e.flags.obsolete = true ∧ e.target = q) ↔
      ∃ j, ctx.HitsAsObsolete p j q := by
  constructor
  · rintro ⟨e, he, hobsolete, rfl⟩
    exact (mem_conflicts_addConflicts hidx hempty he).2.1 hobsolete
  · rintro ⟨j, hhits⟩
    obtain ⟨e, he, rfl⟩ := (exists_conflict_iff hidx hsize hempty).2 ⟨j, hhits.1⟩
    exact ⟨e, he, (mem_conflicts_addConflicts hidx hempty he).2.2 ⟨j, hhits⟩, rfl⟩

/-- The flags of a run come from its conflict edges and from the taint that it leaves. -/
theorem obsoleted_verify_iff (hconflicts : passes.conflicts = true) :
    Obsoleted (ctx.verify passes states).2 q ↔
      q < states.size ∧ ∃ p < ctx.packages.size, ¬Tainted (ctx.verify passes states).2 p ∧
        ∃ e ∈ (ctx.verify passes states).1.graph.conflicts p,
          e.flags.obsolete = true ∧ e.target = q := by
  have hgraph : (ctx.verify passes states).1.graph =
      ctx.addConflicts (ctx.requirementGraph ctx.outcomes.table) := by
    rw [graph_verify_eq, if_pos hconflicts]
  have hfinal : (ctx.verify passes states).2 =
      (ctx.verify passes states).1.graph.markObsoleted
        ((ctx.requirementGraph ctx.outcomes.table).taint
          (states.map PackageState.clearDerived) (unmetOwners ctx.outcomes.table)) := by
    rw [hgraph, verify]
    simp only [hconflicts, if_true]
  rw [hfinal, Graph.obsoleted_markObsoleted, or_iff_right (Graph.not_obsoleted_taint _ _ _),
    Graph.mem_obsoletedBy, Graph.size_taint, Array.size_map, size_graph_verify, and_comm]
  simp only [tainted_markObsoleted]

/-- When conflicts are verified, exactly those packages are flagged as obsolete which an obsoletes
record of another package hits that can be installed, and the run counts them. -/
theorem obsoleted_iff_hit (hidx : ctx.Indexed) (hsize : states.size = ctx.packages.size)
    (hconflicts : passes.conflicts = true) :
    (∀ q, Obsoleted (ctx.verify passes states).2 q ↔
      q < ctx.packages.size ∧ ∃ p < ctx.packages.size, p ≠ q ∧
        ¬Tainted (ctx.verify passes states).2 p ∧ ctx.MakesObsolete p q) ∧
    {q | Obsoleted (ctx.verify passes states).2 q}.encard =
      (ctx.verify passes states).1.obsoleted := by
  constructor
  · intro q
    rw [obsoleted_verify_iff hconflicts, hsize]
    refine and_congr_right fun hq => exists_congr fun p => and_congr_right fun _ => ?_
    have hedge := exists_obsolete_conflict_iff (p := p) (q := q) hidx
      (size_requirementGraph ctx.outcomes.table) (conflicts_requirementGraph _)
    rw [graph_verify_eq, if_pos hconflicts, hedge, exists_hitsAsObsolete_iff]
    constructor
    · rintro ⟨hclean, hne, _, hmakes⟩
      exact ⟨hne.symm, hclean, hmakes⟩
    · rintro ⟨hne, hclean, hmakes⟩
      exact ⟨hclean, hne.symm, hq, hmakes⟩
  · exact PackageState.encard_flag PackageState.obsoleted rfl _

/-- A package that conflicts with any version of another one and makes the first version obsolete, and
a package that makes the former obsolete but needs the latter in a version that there is not. -/
def supersedingPackages : Array Package :=
  #[{ name := "server", evr := { version := "2" },
      conflicts :=
        [.ofParts "daemon" (by decide) none { conflict := true },
         .ofParts "daemon" (by decide) (some (.exactly { version := "1" }))
           { conflict := true, obsoletes := true }] },
    { name := "daemon", evr := { version := "1" } },
    { name := "broken", evr := { version := "1" },
      requires := [.ofParts "daemon" (by decide) (some (.exactly { version := "3" })) {}],
      conflicts := [.ofParts "server" (by decide) none { conflict := true, obsoletes := true }] }]

def supersedingContext : Context where
  packages := supersedingPackages
  index := .build supersedingPackages none
  platform := {}
  manager := "rpm"
  strict := true

def supersedingRun : Verification × Array PackageState :=
  supersedingContext.verify {} (Array.replicate 3 {})

theorem obsoleted_superseding :
    supersedingRun.2.map PackageState.obsoleted = #[false, true, false] := by
  cbv

/-- The conflict comes before the obsoletes record and does not hide it. The record of the last
package hits and counts for nothing. -/
theorem obsoleted_iff_hit_superseding :
    supersedingContext.Indexed ∧
      (Array.replicate 3 ({} : PackageState)).size = supersedingContext.packages.size ∧
      ({} : Passes).conflicts = true ∧
      (∃ p < 3, p ≠ 1 ∧ ¬Tainted supersedingRun.2 p ∧ supersedingContext.MakesObsolete p 1) ∧
      supersedingContext.MakesObsolete 2 0 ∧ ¬Obsoleted supersedingRun.2 0 ∧
      Tainted supersedingRun.2 2 ∧ supersedingRun.1.obsoleted = 1 := by
  have hidx : supersedingContext.Indexed := ⟨none, rfl⟩
  have hsize : (Array.replicate 3 ({} : PackageState)).size = supersedingContext.packages.size := rfl
  have hflag : ∀ id, Obsoleted supersedingRun.2 id ↔ id = 1 := by
    intro id
    rw [Obsoleted, PackageState.flag_of_map PackageState.obsoleted rfl obsoleted_superseding]
    rcases id with _ | _ | _ | id <;> simp
  have hmakes : supersedingContext.MakesObsolete 2 0 := by
    refine ⟨.ofParts "server" (by decide) none { conflict := true, obsoletes := true },
      List.mem_cons_self, rfl, by cbv, ?_, ?_⟩
    · intro h
      cases h
    · intro h
      have hname : "broken" = "server" := h.1
      exact absurd hname (by decide)
  obtain ⟨hiff, hencard⟩ := @obsoleted_iff_hit supersedingContext {} _ hidx hsize rfl
  have hserver : ¬Obsoleted supersedingRun.2 0 := fun h => absurd ((hflag 0).1 h) (by decide)
  refine ⟨hidx, hsize, rfl, ((hiff 1).1 ((hflag 1).2 rfl)).2, hmakes, hserver, ?_, ?_⟩
  · -- otherwise its record would make the first package obsolete
    by_contra hclean
    exact hserver ((hiff 0).2 ⟨by decide, 2, by decide, by decide, hclean, hmakes⟩)
  · have hset : {q | Obsoleted supersedingRun.2 q} = {1} := Set.ext hflag
    have hcount : ({1} : Set Nat).encard = supersedingRun.1.obsoleted := hset ▸ hencard
    rw [Set.encard_singleton] at hcount
    exact (Nat.cast_inj.1 hcount).symm

end Context

end Depcheck
