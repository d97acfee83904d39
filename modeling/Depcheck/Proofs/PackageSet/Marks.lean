import Mathlib
import Depcheck.Proofs.PackageSet.Reachable

/-!
# What marking brings along

Marking follows the edges of a run, and an edge stands for all requirements of its owner that prefer
one provider. A marked package brings along a match of one of its requirements, whatever else is
selected, exactly when the graph forces it to. It does so when nothing but matches of the
requirement can stand on the shared edge (`forced_of_unshared`).
-/

namespace Depcheck

namespace PackageSet

variable {s s' : PackageSet} {v : Verification} {p : Nat} {r : Capability} {m : List Nat}

theorem lt_of_mem_requires (hr : r ∈ (s.package p).requires) : p < s.packages.size := by
  apply Nat.lt_of_not_le
  intro hge
  rw [package, Array.getD_eq_getD_getElem?, Array.getElem?_eq_none hge] at hr
  cases hr

/-- The packages that meet a requirement are its matches, if there are any. -/
theorem resolve_of_matchRequirement {a : Analysis} (ha : s.analysis = some a)
    (hm : s.matchRequirement r = .ok m) (hne : m ≠ []) :
    ((s.context a.index).resolve r).1 = .matched m := by
  rw [matchRequirement, analyzed, ha] at hm
  simp only [bind, Except.bind] at hm
  cases hres : ((s.context a.index).resolve r).1 with
  | absent =>
    rw [hres] at hm
    cases hm
  | mismatch =>
    rw [hres] at hm
    cases hm
  | builtin =>
    rw [hres] at hm
    cases hm
    exact absurd rfl hne
  | matched ids =>
    rw [hres] at hm
    cases hm
    rfl

/-- A requirement whose text is answered alike throughout the set has its own matches in the
outcomes of the run. -/
theorem exists_outcome_of_match (hs : s.Reachable) (hv : s.run = .ok v)
    (hr : r ∈ (s.package p).requires) (hm : s.matchRequirement r = .ok m) (hne : m ≠ [])
    (halike : ∀ d ∈ demands s.packages, d.requirement.text = r.text →
      s.matchRequirement d.requirement = s.matchRequirement r) :
    ∃ o ∈ v.outcomes, o.owner = p ∧ o.resolution = .matched m := by
  obtain ⟨a, ha, rfl⟩ := run_eq_ok hv
  obtain ⟨_, states, _, hrun⟩ := hs.invariant.knows a ha
  have hlt := lt_of_mem_requires hr
  obtain ⟨j, hj⟩ := List.mem_iff_getElem?.1 hr
  have hdemand : (⟨p, j, r⟩ : Demand) ∈ demands (s.context a.index).packages := by
    refine mem_demands.2 ⟨s.package p, ?_, hj⟩
    show s.packages[p]? = some (s.packages.getD p default)
    rw [Array.getD_eq_getD_getElem?, Array.getElem?_eq_getElem hlt, Option.getD_some]
  obtain ⟨res, _, ho⟩ := Context.exists_outcome hdemand
  obtain ⟨d, hd, htext, hres⟩ := Context.exists_resolve_of_mem_table ho
  have hsame : s.matchRequirement d.requirement = .ok m := (halike d hd htext).trans hm
  refine ⟨⟨⟨p, j, r⟩, res⟩, ?_, rfl, ?_⟩
  · rw [hrun]
    exact ho
  · exact hres.symm.trans (resolve_of_matchRequirement ha hsame hne)

/-- A package is forced to bring along a match when its requirements that prefer the same provider
lead to nothing but these matches. -/
theorem forced_of_unshared (hs : s.Reachable) (hv : s.run = .ok v)
    (hr : r ∈ (s.package p).requires) (hm : s.matchRequirement r = .ok m) (hne : m ≠ [])
    (hself : p ∉ m)
    (halike : ∀ d ∈ demands s.packages, d.requirement.text = r.text →
      s.matchRequirement d.requirement = s.matchRequirement r)
    (hshared : ∀ o ∈ v.outcomes, o.owner = p → o.targets.head? = m.head? → ∀ q ∈ o.targets, q ∈ m) :
    v.graph.Forced m p := by
  obtain ⟨o, ho, hown, hres⟩ := exists_outcome_of_match hs hv hr hm hne halike
  obtain ⟨a, ha, rfl⟩ := run_eq_ok hv
  obtain ⟨_, states, _, hrun⟩ := hs.invariant.knows a ha
  rw [hrun] at ho hshared ⊢
  have hlt : p < (s.context a.index).packages.size := lt_of_mem_requires hr
  have htargets : o.targets = m := Outcome.targets_of_not_mem hres (by rw [hown]; exact hself)
  obtain ⟨t, rest, rfl⟩ := List.exists_cons_of_ne_nil hne
  -- the edge to the first match may have been settled by another requirement, but only by one
  -- that prefers the same provider
  obtain ⟨e, he, hprimary⟩ := Context.exists_edge_of_mem_table hlt ho hown (t := t)
    (by rw [htargets]; rfl)
  obtain ⟨_, settling, hsettling, heq⟩ := Context.outcomes_of_mem_edges hlt he
  have hset := mem_outcomesFor.1 (mem_of_settling? hsettling)
  refine .edge he ?_
  intro q hq
  rw [heq] at hq
  refine .goal (hshared settling hset.1 hset.2.1 ?_ q hq)
  rw [hset.2.2, hprimary]
  rfl

/-- Marking a package brings along a match of its requirement, whatever else is selected and was
marked before, exactly when the graph forces it to; and it does when all requirements of the text
are resolved alike and those that share the edge lead to nothing else. -/
theorem marks_match_iff_forced (hs : s.Reachable) (hv : s.run = .ok v)
    (hr : r ∈ (s.package p).requires) (hm : s.matchRequirement r = .ok m) (hne : m ≠ [])
    (hself : p ∉ m) :
    ((∀ selection marking s', (∀ i ∈ selection, i < s.size) →
        s.mark selection = .ok (marking, s') → Marked s'.states p → ∃ q ∈ m, Marked s'.states q) ↔
      v.graph.Forced m p) ∧
    ((∀ d ∈ demands s.packages, d.requirement.text = r.text →
        s.matchRequirement d.requirement = s.matchRequirement r) →
      (∀ o ∈ v.outcomes, o.owner = p → o.targets.head? = m.head? → ∀ q ∈ o.targets, q ∈ m) →
      v.graph.Forced m p) := by
  have hsize := hs.invariant.size_states
  have hlt : p < s.states.size := by
    rw [hsize]
    exact lt_of_mem_requires hr
  have hwithin : v.graph.Within s.states.size := by
    obtain ⟨a, ha, rfl⟩ := run_eq_ok hv
    obtain ⟨hidx, states, _, hrun⟩ := hs.invariant.knows a ha
    rw [hrun, hsize]
    exact Context.within_verify hidx
  refine ⟨?_, forced_of_unshared hs hv hr hm hne hself⟩
  rw [← Graph.forall_mark_iff_forced hwithin hlt]
  constructor
  · intro h selection hsel hmarked
    refine h selection (v.graph.mark s.states selection).1
      { s with states := (v.graph.mark s.states selection).2 } ?_ ?_ hmarked
    · intro i hi
      rw [size, ← hsize]
      exact hsel i hi
    · rw [mark, hv]
      rfl
  · intro h selection marking s' hsel hmark hmarked
    obtain ⟨v', hv', _, rfl⟩ := mark_eq_ok hmark
    rw [hv] at hv'
    cases hv'
    refine h selection ?_ hmarked
    intro i hi
    rw [hsize]
    exact hsel i hi

/-- An application that needs version 2 of a library, and the library in any version. -/
def sharedSet : PackageSet :=
  (addAll { config := {}, platform := {} } Context.sharedPackages.toList).prepare

theorem reachable_sharedSet : sharedSet.Reachable :=
  ((((Reachable.empty {} {}).add _).add _).add _).prepare

theorem requires_sharedSet :
    (sharedSet.package 0).requires =
      [.ofParts "lib" (by decide) (some (.exactly { version := "2" })) {},
       .ofParts "lib" (by decide) none {}] := by
  cbv

/-- With version 1 selected, the application does not bring version 2 along. -/
theorem unmarked_match_shared :
    sharedSet.Reachable ∧
      .ofParts "lib" (by decide) (some (.exactly { version := "2" })) {} ∈
        (sharedSet.package 0).requires ∧
      sharedSet.matchRequirement
          (.ofParts "lib" (by decide) (some (.exactly { version := "2" })) {}) = .ok [1] ∧
      (sharedSet.mark [2, 0]).map (fun marks => marks.2.states.map PackageState.isMarked) =
        .ok #[true, false, true] := by
  refine ⟨reachable_sharedSet, ?_, ?_, ?_⟩
  · rw [requires_sharedSet]
    exact List.mem_cons_self
  · cbv
  · cbv

theorem marks_match_iff_forced_shared :
    ∃ v, sharedSet.run = .ok v ∧
      ((∀ selection marking s', (∀ i ∈ selection, i < sharedSet.size) →
          sharedSet.mark selection = .ok (marking, s') → Marked s'.states 0 →
            ∃ q ∈ [1, 2], Marked s'.states q) ↔
        v.graph.Forced [1, 2] 0) ∧
      ((∀ d ∈ demands sharedSet.packages, d.requirement.text = "lib" →
          sharedSet.matchRequirement d.requirement =
            sharedSet.matchRequirement (.ofParts "lib" (by decide) none {})) →
        (∀ o ∈ v.outcomes, o.owner = 0 → o.targets.head? = [1, 2].head? →
          ∀ q ∈ o.targets, q ∈ [1, 2]) →
        v.graph.Forced [1, 2] 0) := by
  obtain ⟨v, hv⟩ : ∃ v, sharedSet.run = .ok v := ⟨_, rfl⟩
  have hr : .ofParts "lib" (by decide) none {} ∈ (sharedSet.package 0).requires := by
    rw [requires_sharedSet]
    exact List.mem_cons_of_mem _ List.mem_cons_self
  have hm : sharedSet.matchRequirement (.ofParts "lib" (by decide) none {}) = .ok [1, 2] := by
    cbv
  exact ⟨v, hv, marks_match_iff_forced reachable_sharedSet hv hr hm (by decide) (by decide)⟩

end PackageSet

end Depcheck
