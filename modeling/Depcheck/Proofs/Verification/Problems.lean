import Depcheck.Verification.Run

/-!
# The problems of a run

A run lists its unmet requirements, its violations, the loops of the installation and the file
conflicts. The list is made apart from the counts; here is what it holds of each kind.
-/

namespace Depcheck

theorem Resolution.isSome_unmetKind? {res : Resolution} :
    res.unmetKind?.isSome = true ↔ res = .absent ∨ res = .mismatch := by
  cases res <;> simp [Resolution.unmetKind?]

theorem Outcome.isSome_unmet? {o : Outcome} :
    o.unmet?.isSome = true ↔ o.resolution = .absent ∨ o.resolution = .mismatch := by
  rw [unmet?, Option.isSome_map, Resolution.isSome_unmetKind?]

namespace Problem

/-- The unmet requirement that the problem reports, with the text of its package. -/
def unmet? : Problem → Option (String × Unmet)
  | .unmet package u => some (package, u)
  | _ => none

/-- Is the problem a foreign provider of an `rpmlib(...)` name? -/
def isViolation : Problem → Bool
  | .rpmlibViolation .. => true
  | _ => false

/-- Is the problem a loop of prerequisites? -/
def isPrereqLoop : Problem → Bool
  | .prereqLoop .. => true
  | _ => false

theorem isSome_unmet? {p : Problem} : p.unmet?.isSome = p.isUnmet := by
  cases p <;> rfl

/-- An error is an unmet requirement, a loop or a violation. -/
theorem isError_imp_isViolation_iff {p : Problem} :
    (p.isError = true → p.isViolation = true) ↔ p.unmet? = none ∧ p.isPrereqLoop = false := by
  cases p <;> simp [isError, isViolation, unmet?, isPrereqLoop]

end Problem

namespace Context

variable {ctx : Context} {passes : Passes} {states : Array PackageState}

theorem problems_verify (passes : Passes) (states : Array PackageState) :
    (ctx.verify passes states).1.problems =
      (ctx.unmetOf ctx.outcomes.table).map (fun (package, u) => .unmet package u) ++
        ctx.outcomes.violations.map ctx.violationProblem ++
        (ctx.verify passes states).1.install.loops.map ctx.loopProblem ++
        (ctx.verify passes states).1.fileConflicts.map ctx.fileProblem := rfl

/-- The listed unmet requirements are those of the table, in order. -/
theorem filterMap_unmet?_verify :
    (ctx.verify passes states).1.problems.filterMap Problem.unmet? =
      ctx.unmetOf ctx.outcomes.table := by
  rw [problems_verify]
  simp only [List.filterMap_append, List.filterMap_map]
  have hunmet : (Problem.unmet? ∘ fun (package, u) => .unmet package u) = some := rfl
  have hviolation : Problem.unmet? ∘ ctx.violationProblem = fun _ => none := rfl
  have hloop : Problem.unmet? ∘ ctx.loopProblem = fun _ => none := rfl
  have hfile : Problem.unmet? ∘ ctx.fileProblem = fun _ => none := rfl
  rw [hunmet, hviolation, hloop, hfile]
  simp

theorem countP_isUnmet_verify :
    (ctx.verify passes states).1.problems.countP Problem.isUnmet =
      (ctx.verify passes states).1.unmet := by
  have hlength := congrArg List.length (@filterMap_unmet?_verify ctx passes states)
  rw [List.length_filterMap_eq_countP] at hlength
  simp only [Problem.isSome_unmet?] at hlength
  exact hlength

theorem countP_isPrereqLoop_verify :
    (ctx.verify passes states).1.problems.countP Problem.isPrereqLoop =
      (ctx.verify passes states).1.install.loops.length := by
  rw [problems_verify]
  simp only [List.countP_append, List.countP_map]
  have hunmet : (Problem.isPrereqLoop ∘ fun (package, u) => .unmet package u) =
      fun _ => false := rfl
  have hviolation : Problem.isPrereqLoop ∘ ctx.violationProblem = fun _ => false := rfl
  have hloop : Problem.isPrereqLoop ∘ ctx.loopProblem = fun _ => true := rfl
  have hfile : Problem.isPrereqLoop ∘ ctx.fileProblem = fun _ => false := rfl
  rw [hunmet, hviolation, hloop, hfile]
  simp

/-- A listed violation is one that a resolution found. -/
theorem exists_violation_of_mem_problems {provider capability : String}
    (h : .rpmlibViolation provider capability ∈ (ctx.verify passes states).1.problems) :
    ∃ v ∈ ctx.outcomes.violations,
      v.capability = capability ∧ ctx.idText v.provider = provider := by
  rw [problems_verify] at h
  simp only [List.mem_append, List.mem_map] at h
  rcases h with ((⟨_, _, heq⟩ | ⟨v, hv, heq⟩) | ⟨_, _, heq⟩) | ⟨_, _, heq⟩
  · cases heq
  · cases heq
    exact ⟨v, hv, rfl, rfl⟩
  · cases heq
  · cases heq

theorem mem_problems_iff_violation {provider capability : String} :
    .rpmlibViolation provider capability ∈ (ctx.verify passes states).1.problems ↔
      ∃ v ∈ ctx.outcomes.violations,
        v.capability = capability ∧ ctx.idText v.provider = provider := by
  constructor
  · exact exists_violation_of_mem_problems
  · rintro ⟨v, hv, rfl, rfl⟩
    rw [problems_verify]
    simp only [List.mem_append]
    exact .inl (.inl (.inr (List.mem_map_of_mem hv)))

end Context

end Depcheck
