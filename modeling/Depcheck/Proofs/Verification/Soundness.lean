import Mathlib
import Depcheck.Proofs.Verification.RequirementGraph
import Depcheck.Proofs.Verification.Targets

/-!
# Packages that can be installed

A package that a run leaves unflagged can be installed. The flags go up from unmet requirements:
the owner of one is flagged (`tainted_of_unmet`), and so is whatever a requirement leads to a
flagged package (`tainted_of_target`). Read backwards, every requirement of an unflagged package is
met, and by nothing but unflagged packages.
-/

namespace Depcheck

namespace Context

variable {ctx : Context} {passes : Passes} {states : Array PackageState}

/-- A package with an unmet requirement is flagged. -/
theorem tainted_of_unmet {o : Outcome} (ho : o ∈ ctx.outcomes.table)
    (hunmet : o.resolution.unmetKind?.isSome = true) (howner : o.owner < states.size) :
    Tainted (ctx.verify passes states).2 o.owner := by
  rw [tainted_verify]
  apply Graph.tainted_of_mem_stack
  · rw [unmetOwners, mem_eraseReps]
    exact List.mem_map.2 ⟨o, List.mem_filter.2 ⟨ho, hunmet⟩, rfl⟩
  · rw [Array.size_map]
    exact howner

/-- A package with a requirement that leads to a flagged package is flagged. -/
theorem tainted_of_target {o : Outcome} (ho : o ∈ ctx.outcomes.table) {q : Nat}
    (hq : q ∈ o.targets) (hlt : q < ctx.packages.size)
    (htaint : Tainted (ctx.verify passes states).2 q) (howner : o.owner < states.size) :
    Tainted (ctx.verify passes states).2 o.owner := by
  rw [tainted_verify] at htaint ⊢
  have hdep : o.owner ∈ (ctx.requirementGraph ctx.outcomes.table).dependents q :=
    (mem_dependents_requirementGraph _ hlt).2 ⟨o, ho, rfl, hq⟩
  apply Graph.tainted_of_dependent (not_tainted_clearDerived states) htaint hdep
  rw [Array.size_map]
  exact howner

/-- Every requirement of a package that is not flagged is met: without a package, by the package
itself, or by packages none of which is flagged. -/
theorem met_of_not_tainted (hidx : ctx.Indexed) (hsize : states.size = ctx.packages.size)
    {p : Nat} {pkg : Package} (hp : ctx.packages[p]? = some pkg) {j : Nat} {r : Capability}
    (hr : pkg.requires[j]? = some r) (hclean : ¬Tainted (ctx.verify passes states).2 p) :
    ∃ res, ctx.kept? r.text = some res ∧
      ⟨⟨p, j, r⟩, res⟩ ∈ (ctx.verify passes states).1.outcomes ∧
      (res = .builtin ∨
        ∃ m, res = .matched m ∧
          (p ∈ m ∨ m ≠ [] ∧
            ∀ q ∈ m, q < ctx.packages.size ∧ ¬Tainted (ctx.verify passes states).2 q)) := by
  have howner : p < states.size := by
    rw [hsize]
    exact lt_of_getElem? hp
  have hdemand : (⟨p, j, r⟩ : Demand) ∈ demands ctx.packages := mem_demands.2 ⟨pkg, hp, hr⟩
  obtain ⟨res, hkept, ho⟩ := exists_outcome hdemand
  refine ⟨res, hkept, ho, ?_⟩
  cases hres : res with
  | absent =>
    subst hres
    exact absurd (tainted_of_unmet ho rfl howner) hclean
  | mismatch =>
    subst hres
    exact absurd (tainted_of_unmet ho rfl howner) hclean
  | builtin => exact .inl rfl
  | matched m =>
    right
    refine ⟨m, rfl, ?_⟩
    by_cases hself : p ∈ m
    · exact .inl hself
    · right
      obtain ⟨hne, hlt⟩ := matched_of_mem_table hidx ho hres
      refine ⟨hne, ?_⟩
      intro q hq
      refine ⟨hlt q hq, ?_⟩
      -- a flagged match would have reached `p`, which is among its dependents
      intro htaint
      have htarget : q ∈ Outcome.targets ⟨⟨p, j, r⟩, res⟩ := by
        rw [Outcome.targets_of_not_mem hres hself]
        exact hq
      exact hclean (tainted_of_target ho htarget (hlt q hq) htaint howner)

/-- An application and its data that need each other, a library in two versions, and a package
that needs a third one. -/
def loopPackages : Array Package :=
  #[{ name := "app", evr := { version := "1" },
      requires := [.ofParts "base" (by decide) none {}, .ofParts "data" (by decide) none {}] },
    { name := "data", evr := { version := "1" },
      requires := [.ofParts "app" (by decide) none {}] },
    { name := "base", evr := { version := "1" } },
    { name := "base", evr := { version := "2" } },
    { name := "stray", evr := { version := "1" },
      requires := [.ofParts "base" (by decide) (some (.exactly { version := "3" })) {}] }]

def loopContext : Context where
  packages := loopPackages
  index := .build loopPackages none
  platform := {}
  manager := "rpm"
  strict := false

/-- The application can be installed, the last package cannot. -/
theorem met_of_not_tainted_loop :
    ¬Tainted (loopContext.verify {} (Array.replicate 5 {})).2 0 ∧
      Tainted (loopContext.verify {} (Array.replicate 5 {})).2 4 ∧
      ∃ res, loopContext.kept? "base" = some res ∧
        ⟨⟨0, 0, .ofParts "base" (by decide) none {}⟩, res⟩ ∈
          (loopContext.verify {} (Array.replicate 5 {})).1.outcomes ∧
        (res = .builtin ∨
          ∃ m, res = .matched m ∧
            (0 ∈ m ∨ m ≠ [] ∧
              ∀ q ∈ m, q < 5 ∧ ¬Tainted (loopContext.verify {} (Array.replicate 5 {})).2 q)) := by
  have hclean : ¬Tainted (loopContext.verify {} (Array.replicate 5 {})).2 0 := by
    have h : ((loopContext.verify {} (Array.replicate 5 {})).2.getD 0 {}).unmet = false := by cbv
    rw [Tainted, h]
    exact Bool.noConfusion
  have hstray : Tainted (loopContext.verify {} (Array.replicate 5 {})).2 4 := by
    show ((loopContext.verify {} (Array.replicate 5 {})).2.getD 4 {}).unmet = true
    cbv
  refine ⟨hclean, hstray, ?_⟩
  have hp : loopContext.packages[0]? = some loopPackages[0] := rfl
  have hr : loopPackages[0].requires[0]? = some (.ofParts "base" (by decide) none {}) := rfl
  exact met_of_not_tainted ⟨none, rfl⟩ rfl hp hr hclean

end Context

end Depcheck
