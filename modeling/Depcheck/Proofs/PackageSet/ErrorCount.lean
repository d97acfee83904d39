import Depcheck.Command.Run
import Depcheck.Proofs.Capability.Text
import Depcheck.Proofs.PackageSet.Reachable
import Depcheck.Proofs.Verification.Figures
import Depcheck.Proofs.Verification.Violations

/-!
# What the error count leaves out

A run counts unmet requirements, packages that cannot be installed and loops of prerequisites. Of
the problems that it calls errors, the violations alone are not counted. One shows in the count all
the same when the requirement that it robs of its candidates ends up unmet; where the platform meets
this requirement, the error is listed and the count may be zero (`errorCount_eq_zero_iff`).
-/

namespace Depcheck

namespace Context

variable {ctx : Context} {passes : Passes} {states : Array PackageState}

theorem errorCount_verify_eq_zero_iff :
    (ctx.verify passes states).1.errorCount = 0 ↔
      (ctx.verify passes states).1.unmet = 0 ∧
        (ctx.verify passes states).1.install.loops.length = 0 := by
  rw [Verification.errorCount]
  constructor
  · intro h
    omega
  · rintro ⟨hunmet, hloops⟩
    rw [hunmet, hloops, tainted_verify_eq_zero hunmet]

/-- Nothing is counted when all listed errors are violations. -/
theorem errorCount_verify_eq_zero_iff_violations :
    (ctx.verify passes states).1.errorCount = 0 ↔
      ∀ p ∈ (ctx.verify passes states).1.problems, p.isError = true → p.isViolation = true := by
  simp only [errorCount_verify_eq_zero_iff, Problem.isError_imp_isViolation_iff,
    ← countP_isUnmet_verify, ← countP_isPrereqLoop_verify, List.countP_eq_zero,
    ← Problem.isSome_unmet?]
  constructor
  · rintro ⟨hunmet, hloops⟩ p hp
    exact ⟨by simpa using hunmet p hp, by simpa using hloops p hp⟩
  · intro h
    exact ⟨fun p hp => by simp [(h p hp).1], fun p hp => by simp [(h p hp).2]⟩

/-- The requirement behind a violation is met by the platform, or counted. -/
theorem exists_outcome_of_violation {provider capability : String}
    (h : .rpmlibViolation provider capability ∈ (ctx.verify passes states).1.problems) :
    ∃ o ∈ ctx.outcomes.table, o.requirement.name = capability ∧
      (ctx.platform.provides o.requirement = true ∧ o.resolution = .builtin ∨
        ctx.platform.provides o.requirement = false ∧ o.resolution = .absent ∧
          0 < (ctx.verify passes states).1.errorCount) := by
  obtain ⟨v, hv, rfl, _⟩ := exists_violation_of_mem_problems h
  obtain ⟨o, ho, hown, hfound⟩ := exists_outcome_of_mem_violations hv
  have hname : v.capability = o.requirement.name := (mem_violations.1 hfound).2.1
  rw [resolve_of_mem_violations hfound] at hown
  refine ⟨o, ho, hname.symm, ?_⟩
  cases hprov : ctx.platform.provides o.requirement with
  | true =>
    rw [hprov] at hown
    exact .inl ⟨rfl, hown⟩
  | false =>
    rw [hprov] at hown
    refine .inr ⟨rfl, hown, Nat.pos_of_ne_zero ?_⟩
    intro hzero
    have hunmet := unmet_verify_eq_zero_iff.1 (errorCount_verify_eq_zero_iff.1 hzero).1 o ho
    rw [Outcome.unmet?, hown] at hunmet
    cases hunmet

end Context

namespace PackageSet

variable {s : PackageSet}

/-- A verification on the command line answers with the status that the error count calls for. -/
theorem exists_answer_runVerify {v : Verification} (hv : s.run = .ok v) {format : String}
    (hformat : format ∈ ["text", "json"]) (quiet : Bool) :
    ∃ answer, Command.runVerify (.ok s) format quiet = .ok answer ∧
      (answer.status = 0 ↔ v.errorCount = 0) := by
  have hknown : ¬(format ≠ "text" ∧ format ≠ "json") := by
    rintro ⟨htext, hjson⟩
    simp only [List.mem_cons, List.not_mem_nil, or_false] at hformat
    exact hformat.elim htext hjson
  obtain ⟨r, hr, hcount⟩ : ∃ r, Report.ofPackageSet s = .ok r ∧ r.errorCount = v.errorCount :=
    ⟨_, by rw [Report.ofPackageSet, hv]; rfl, rfl⟩
  refine ⟨_, by simp only [Command.runVerify, if_neg hknown, bind, Except.bind, hr]; rfl, ?_⟩
  show (if r.errorCount = 0 then 0 else 1) = 0 ↔ _
  rw [hcount]
  split
  · next hzero => exact iff_of_true rfl hzero
  · next hcount => exact iff_of_false Nat.one_ne_zero hcount

/-- The error count of a run is zero exactly when all errors of its list are violations, so it tells
whether there are errors unless violations are all there is. -/
theorem errorCount_eq_zero_iff (hs : s.Reachable) {v : Verification} (hv : s.run = .ok v) :
    (v.errorCount = 0 ↔ ∀ p ∈ v.problems, p.isError = true → p.isViolation = true) ∧
    ((∀ p ∈ v.problems, p.isViolation = false) →
      (v.errorCount = 0 ↔ ∀ p ∈ v.problems, p.isError = false)) ∧
    (∀ provider capability, .rpmlibViolation provider capability ∈ v.problems →
      ∃ o ∈ v.outcomes, o.requirement.name = capability ∧
        (s.platform.provides o.requirement = true ∧ o.resolution = .builtin ∨
          s.platform.provides o.requirement = false ∧ o.resolution = .absent ∧
            0 < v.errorCount)) ∧
    ∀ format ∈ ["text", "json"], ∀ quiet,
      ∃ answer, Command.runVerify (.ok s) format quiet = .ok answer ∧
        (answer.status = 0 ↔ v.errorCount = 0) := by
  obtain ⟨index, states, hrun⟩ := hs.exists_verify hv
  have hcount : v.errorCount = 0 ↔ ∀ p ∈ v.problems, p.isError = true → p.isViolation = true := by
    rw [hrun]
    exact Context.errorCount_verify_eq_zero_iff_violations
  refine ⟨hcount, ?_, ?_, ?_⟩
  · intro hnone
    rw [hcount]
    refine forall₂_congr fun p hp => ?_
    rw [hnone p hp]
    cases p.isError with
    | true => simp
    | false => simp
  · intro provider capability h
    rw [hrun] at h ⊢
    exact Context.exists_outcome_of_violation h
  · intro format hformat quiet
    exact exists_answer_runVerify hv hformat quiet

/-- A package needs a feature of the package manager, and another one claims to have it. -/
def impostorPackages : List Package :=
  [{ name := "app", evr := { version := "1" },
     requires := [.ofParts "rpmlib(FileDigests)" (by decide) none {}] },
   { name := "impostor", evr := { version := "1" },
     provides := [.ofParts "rpmlib(FileDigests)" (by decide) none {}] }]

def impostorSet : PackageSet := (byDefault.addAll impostorPackages).prepare

theorem fromRecords_impostor : FromRecords impostorPackages.toArray :=
  .of_mapM
    [{ name := "app", version := "1", requires := ["rpmlib(FileDigests)"] },
     { name := "impostor", version := "1", provides := ["rpmlib(FileDigests)"] }]
    rfl

theorem run_impostor :
    impostorSet.run.map (fun v => (v.errorCount, v.problems)) =
      .ok (0, [.rpmlibViolation "impostor-1" "rpmlib(FileDigests)"]) := by
  cbv

/-- With the default configuration there is one error, and neither the count nor the status of the
verification shows it. -/
theorem error_uncounted_impostor :
    FromRecords impostorPackages.toArray ∧
      ofConfig {} = .ok byDefault ∧ ∃ v, impostorSet.run = .ok v ∧ v.errorCount = 0 ∧
        (∃ p ∈ v.problems, p.isError = true) ∧
        ∃ answer, Command.runVerify (.ok impostorSet) "text" false = .ok answer ∧
          answer.status = 0 := by
  obtain ⟨v, hv, hfound⟩ := map_eq_ok run_impostor
  obtain ⟨hcount, hproblems⟩ := Prod.mk.inj hfound
  obtain ⟨answer, hanswer, hstatus⟩ := exists_answer_runVerify hv List.mem_cons_self false
  refine ⟨fromRecords_impostor, ofConfig_default, v, hv, hcount, ?_, answer, hanswer,
    hstatus.2 hcount⟩
  rw [hproblems]
  exact ⟨_, List.mem_cons_self, rfl⟩

/-- The platform meets the requirement that the violation robbed of its candidate. -/
theorem errorCount_eq_zero_iff_impostor :
    impostorSet.Reachable ∧ ∃ v, impostorSet.run = .ok v ∧ v.errorCount = 0 ∧
      (∀ p ∈ v.problems, p.isError = true → p.isViolation = true) ∧
      ∃ o ∈ v.outcomes, o.requirement.name = "rpmlib(FileDigests)" ∧
        impostorSet.platform.provides o.requirement = true ∧ o.resolution = .builtin := by
  have hreach : impostorSet.Reachable := ((reachable_byDefault.add _).add _).prepare
  obtain ⟨v, hv, hfound⟩ := map_eq_ok run_impostor
  obtain ⟨hcount, hproblems⟩ := Prod.mk.inj hfound
  obtain ⟨hzero, _, hviolations, _⟩ := errorCount_eq_zero_iff hreach hv
  have hlisted : .rpmlibViolation "impostor-1" "rpmlib(FileDigests)" ∈ v.problems := by
    rw [hproblems]
    exact List.mem_cons_self
  obtain ⟨o, ho, hname, ⟨hprov, hbuiltin⟩ | ⟨_, _, hpos⟩⟩ := hviolations _ _ hlisted
  · exact ⟨hreach, v, hv, hcount, hzero.1 hcount, o, ho, hname, hprov, hbuiltin⟩
  · exact absurd hcount hpos.ne'

end PackageSet

end Depcheck
