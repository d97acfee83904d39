import Mathlib
import Depcheck.Package.Basic

/-!
# What a package satisfies

A package answers a requirement for its own name by comparing its version with the constraint, and
no capability is built for that. The answer is the one that the capability "this name at exactly
this version" would give: a constraint on exactly one version overlaps with another constraint when
the version passes it (`Constraint.overlaps_exactly`). So a package satisfies what one of its
capabilities satisfies, its name at its version among them
(`Package.satisfies_iff_exists_capability`).
-/

namespace Depcheck

/-- The room that one version leaves is this version. -/
theorem Constraint.overlaps_exactly (e : Evr) (k : Constraint) :
    (exactly e).overlaps k = k.isSatisfiedBy e := by
  rw [overlaps, isSatisfiedBy, exactly]
  cases e.compareMatching k.evr with
  | lt => exact Bool.false_or _
  | eq =>
    show (true && k.relation.equal || false && k.relation.less || false && k.relation.greater) =
      k.relation.equal
    rw [Bool.true_and, Bool.false_and, Bool.false_and, Bool.or_false, Bool.or_false]
  | gt => exact Bool.false_or _

namespace Package

variable {p : Package}

/-- The name at exactly the version answers as name and version do, and strictness does not
matter. -/
theorem isSatisfiedBy_selfCapability (h : p.name ≠ "") (req : Capability) (strict : Bool) :
    req.isSatisfiedBy (p.selfCapability h) strict = p.satisfiesByName req := by
  have hname : (p.selfCapability h).name = p.name := rfl
  have hconstraint : (p.selfCapability h).constraint = some (.exactly p.evr) := rfl
  rw [Capability.isSatisfiedBy, satisfiesByName, hname, hconstraint, BEq.comm]
  cases req.constraint with
  | none => rfl
  | some k =>
    rw [Option.all_some, ← Constraint.overlaps_exactly]

/-- A package satisfies a requirement by name and version exactly when its name at its version does
as a capability: it satisfies what this or a capability that it declares satisfies. -/
theorem satisfies_iff_exists_capability (h : p.name ≠ "") :
    (∀ k : Constraint, (Constraint.exactly p.evr).overlaps k = k.isSatisfiedBy p.evr) ∧
      ∀ (req : Capability) (strict : Bool), p.satisfies req strict = true ↔
        ∃ c ∈ p.selfCapability h :: p.provides, req.isSatisfiedBy c strict = true := by
  refine ⟨Constraint.overlaps_exactly p.evr, ?_⟩
  intro req strict
  rw [satisfies, ← isSatisfiedBy_selfCapability h req strict]
  show ((p.selfCapability h :: p.provides).any fun c => req.isSatisfiedBy c strict) = true ↔ _
  exact List.any_eq_true

/-- The package `openssl-1:3.1.1-4`, which also provides `libssl = 3.1-2` and `libcrypto`. -/
def openssl : Package where
  name := "openssl"
  evr := { epoch := some 1, version := "3.1.1", release := some "4" }
  provides :=
    [.ofParts "libssl" (by decide) (some (.exactly { version := "3.1", release := some "2" })) {},
     .ofParts "libcrypto" (by decide) none {}]

/-- The requirement `openssl >= 1:3.1.1-5`, one release after that of the package. -/
def nextOpenssl : Capability :=
  .ofParts "openssl" (by decide)
    (some ⟨.ge, { epoch := some 1, version := "3.1.1", release := some "5" }, rfl⟩) {}

/-- The requirement `libcrypto <= 3`. -/
def earlyLibcrypto : Capability :=
  .ofParts "libcrypto" (by decide) (some ⟨.le, { version := "3" }, rfl⟩) {}

/-- No capability of the package satisfies the first requirement, and one without a version
satisfies the second when this is allowed. -/
theorem satisfies_iff_exists_capability_openssl :
    ∃ h : openssl.name ≠ "",
      (¬∃ c ∈ openssl.selfCapability h :: openssl.provides,
          nextOpenssl.isSatisfiedBy c false = true) ∧
        openssl.satisfies earlyLibcrypto true = false ∧
        ∃ c ∈ openssl.selfCapability h :: openssl.provides,
          earlyLibcrypto.isSatisfiedBy c false = true := by
  have h : openssl.name ≠ "" := by decide
  obtain ⟨_, hiff⟩ := satisfies_iff_exists_capability h
  refine ⟨h, ?_, by decide +kernel, ?_⟩
  · rw [← hiff]
    decide +kernel
  · rw [← hiff]
    decide +kernel

end Package

end Depcheck
