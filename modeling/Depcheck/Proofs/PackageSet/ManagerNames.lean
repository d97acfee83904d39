import Depcheck.Proofs.Capability.Text
import Depcheck.Proofs.PackageSet.FileIndexing
import Depcheck.Proofs.Resolution.Scan
import Depcheck.Proofs.Verification.Hits

/-!
# The names of the package manager

An `rpmlib(...)` requirement asks for a feature of the package manager. Of the packages that provide
the name only their own names are looked at: when all of them are the package manager, the requirement
is met, in whatever version they provide it, and otherwise the platform decides, version included
(`rpmlib_met_iff_managed`).
-/

namespace Depcheck

namespace Context

variable {ctx : Context} {req : Capability}

/-- There are candidates, and each of them is the package manager. -/
def Managed (ctx : Context) (req : Capability) : Prop :=
  ctx.scanned req ≠ [] ∧ ∀ id ∈ ctx.scanned req, (ctx.package id).name = ctx.manager

/-- An `rpmlib(...)` requirement is met without a package or not at all. -/
theorem resolve_rpmlib (hidx : ctx.FullyIndexed) (hrpm : req.flags.rpmlib = true) :
    (ctx.platform.provides req = true ∨ ctx.Managed req → (ctx.resolve req).1 = .builtin) ∧
      (¬(ctx.platform.provides req = true ∨ ctx.Managed req) → (ctx.resolve req).1 = .absent) := by
  have hscan : ctx.Scan req (ctx.resolve req).1 := scan_resolve hidx
  generalize (ctx.resolve req).1 = res at hscan ⊢
  cases hscan with
  | manager hne _ hall => exact ⟨fun _ => rfl, fun h => absurd (.inr ⟨hne, hall⟩) h⟩
  | platform _ hprov => exact ⟨fun _ => rfl, fun h => absurd (.inl hprov) h⟩
  | absent hlacks hmissing =>
    refine ⟨?_, fun _ => rfl⟩
    rintro (hprov | ⟨hne, hall⟩)
    · rw [hmissing] at hprov
      cases hprov
    · rcases hlacks with hnone | ⟨_, id, hid, hother⟩
      · exact absurd hnone hne
      · exact absurd (hall id hid) hother
  | mismatch hhas _ =>
    rw [hhas.2] at hrpm
    cases hrpm
  | matched hhas _ _ _ _ =>
    rw [hhas.2] at hrpm
    cases hrpm

/-- Without a version to compare, a candidate by name satisfies the requirement. -/
theorem Managed.exists_satisfies (h : ctx.Managed req) (hpath : req.isPath = false)
    (hversion : req.isVersioned = false) :
    ∃ id < ctx.packages.size, (ctx.package id).name = ctx.manager ∧
      (ctx.package id).satisfies req ctx.strict = true := by
  obtain ⟨hne, hall⟩ := h
  obtain ⟨id, hid⟩ := List.exists_mem_of_ne_nil _ hne
  have hcarrier : id ∈ ctx.carriers req.name := by
    rwa [scanned, if_pos (.inr hpath)] at hid
  obtain ⟨hlt, hname⟩ := mem_carriers.1 hcarrier
  exact ⟨id, hlt, hall id hid, Package.satisfies_of_mem_providedNames hversion hname⟩

end Context

namespace PackageSet

variable {s : PackageSet}

/-- An `rpmlib(...)` requirement that was resolved itself is met exactly when the platform provides
it or all packages that provide the name are the package manager. It is never unmet for its version.
When it is met and has no version, the platform provides it or the package manager satisfies it. -/
theorem rpmlib_met_iff_managed (hs : s.Reachable) {a : Analysis} (ha : s.analysis = some a)
    {o : Outcome} (ho : o ∈ a.run.outcomes) (hrpm : o.requirement.flags.rpmlib = true)
    (hown : o.resolution = ((s.context a.index).resolve o.requirement).1) :
    (o.unmet? = none ↔ s.platform.provides o.requirement = true ∨
      (s.context a.index).Managed o.requirement) ∧
    (o.unmet? ≠ none → o.unmet? = some ⟨o.requirement.text, .absent⟩) ∧
    (o.requirement.isPath = false → o.requirement.isVersioned = false → o.unmet? = none →
      s.platform.provides o.requirement = true ∨
        ∃ id < s.size, (s.package id).name = s.config.manager ∧
          (s.package id).satisfies o.requirement s.config.strict = true) := by
  -- the whole index answers as the set's own does, and `Managed` mentions no index
  let whole := s.context (.build s.packages none)
  have hidx : whole.FullyIndexed := rfl
  obtain ⟨hmet, hunmet⟩ := Context.resolve_rpmlib hidx hrpm
  rw [hs.resolve_outcome_eq ha ho] at hown
  have hbuiltin : s.platform.provides o.requirement = true ∨ whole.Managed o.requirement →
      o.unmet? = none := by
    intro h
    rw [Outcome.unmet?, hown, hmet h]
    rfl
  have habsent : ¬(s.platform.provides o.requirement = true ∨ whole.Managed o.requirement) →
      o.unmet? = some ⟨o.requirement.text, .absent⟩ := by
    intro h
    rw [Outcome.unmet?, hown, hunmet h]
    rfl
  have hiff : o.unmet? = none ↔
      s.platform.provides o.requirement = true ∨ whole.Managed o.requirement := by
    refine ⟨fun h => ?_, hbuiltin⟩
    by_contra hnot
    rw [habsent hnot] at h
    cases h
  refine ⟨hiff, fun h => habsent fun hmet => h (hbuiltin hmet), ?_⟩
  intro hpath hversion h
  rcases hiff.1 h with hprov | hmanaged
  · exact .inl hprov
  · exact .inr (hmanaged.exists_satisfies hpath hversion)

/-- A package that needs a feature in one version and in any, and the package manager with another
version of it. -/
def featurePackages : List Package :=
  [{ name := "app", evr := { version := "1" },
     requires :=
       [.ofParts "rpmlib(Custom)" (by decide) (some (.exactly { version := "2" })) {},
        .ofParts "rpmlib(Custom)" (by decide) none {}] },
   { name := "rpm", evr := { version := "4" },
     provides :=
       [.ofParts "rpmlib(Custom)" (by decide) (some (.exactly { version := "1" })) {}] }]

def featureSet : PackageSet := (byDefault.addAll featurePackages).prepare

theorem fromRecords_feature : FromRecords featurePackages.toArray :=
  .of_mapM
    [{ name := "app", version := "1", requires := ["rpmlib(Custom) = 2", "rpmlib(Custom)"] },
     { name := "rpm", version := "4", provides := ["rpmlib(Custom) = 1"] }]
    rfl

/-- Version 2 is needed. -/
def versionedFeature : Outcome :=
  ⟨⟨0, 0, .ofParts "rpmlib(Custom)" (by decide) (some (.exactly { version := "2" })) {}⟩, .builtin⟩

/-- Any version will do. -/
def anyFeature : Outcome := ⟨⟨0, 1, .ofParts "rpmlib(Custom)" (by decide) none {}⟩, .builtin⟩

theorem packages_feature : featureSet.packages = featurePackages.toArray := by
  show (arrange false featurePackages).toArray = _
  cbv

theorem run_feature :
    featureSet.run.map (fun v => (v.unmet, v.diagnostics, v.outcomes)) =
      .ok (0, [], [versionedFeature, anyFeature]) := by
  cbv

/-- No package satisfies the requirement of version 2. -/
theorem not_satisfies_feature (id : Nat) (hid : id < featureSet.size) :
    (featureSet.package id).satisfies versionedFeature.requirement true = false := by
  rw [size, packages_feature] at hid
  rw [package, packages_feature]
  have hid : id < 2 := hid
  obtain rfl | rfl : id = 0 ∨ id = 1 := by omega
  · cbv
  · cbv

/-- The package manager is the only candidate. -/
theorem scanned_feature (index : Index) {o : Outcome} (ho : o ∈ [versionedFeature, anyFeature]) :
    (featureSet.context index).scanned o.requirement = [1] := by
  have hpackages : (featureSet.context index).packages = featurePackages.toArray :=
    packages_feature
  simp only [Context.scanned, Context.carriers, hpackages]
  rcases List.mem_cons.1 ho with rfl | ho
  · rfl
  · rw [List.mem_singleton.1 ho]
    rfl

theorem managed_feature (index : Index) {o : Outcome} (ho : o ∈ [versionedFeature, anyFeature]) :
    (featureSet.context index).Managed o.requirement := by
  rw [Context.Managed, scanned_feature index ho]
  refine ⟨List.cons_ne_nil _ _, ?_⟩
  intro id hid
  rw [List.mem_singleton.1 hid]
  show (featureSet.packages.getD 1 default).name = "rpm"
  rw [packages_feature]
  rfl

/-- Nothing is unmet, although neither the platform nor a package provides the version that is
needed. -/
theorem rpmlib_met_in_other_version :
    FromRecords featurePackages.toArray ∧ ofConfig {} = .ok byDefault ∧
      featureSet.run.map (fun v => (v.unmet, v.diagnostics)) = .ok (0, []) ∧
      ∃ r ∈ (featureSet.package 0).requires, r.flags.rpmlib = true ∧
        featureSet.platform.provides r = false ∧
        ∀ id < featureSet.size, (featureSet.package id).name = featureSet.config.manager →
          (featureSet.package id).satisfies r featureSet.config.strict = false := by
  obtain ⟨v, hv, hfound⟩ := map_eq_ok run_feature
  obtain ⟨hunmet, hrest⟩ := Prod.mk.inj hfound
  obtain ⟨hdiagnostics, _⟩ := Prod.mk.inj hrest
  have hrequires : versionedFeature.requirement ∈ (featureSet.package 0).requires := by
    rw [package, packages_feature]
    exact List.mem_cons_self
  have hprov : featureSet.platform.provides versionedFeature.requirement = false := by cbv
  refine ⟨fromRecords_feature, ofConfig_default, ?_, _, hrequires, rfl, hprov, ?_⟩
  · rw [hv, ← hunmet, ← hdiagnostics]
    rfl
  · exact fun id hid _ => not_satisfies_feature id hid

theorem reachable_feature : featureSet.Reachable := ((reachable_byDefault.add _).add _).prepare

/-- Both requirements are met as they are resolved on their own. -/
theorem resolution_feature {a : Analysis} (ha : featureSet.analysis = some a)
    (houtcomes : a.run.outcomes = [versionedFeature, anyFeature]) {o : Outcome}
    (ho : o ∈ a.run.outcomes) :
    o.requirement.flags.rpmlib = true ∧
      o.resolution = ((featureSet.context a.index).resolve o.requirement).1 := by
  rw [reachable_feature.resolve_outcome_eq ha ho]
  rw [houtcomes] at ho
  obtain ⟨hrpm, hbuiltin⟩ : o.requirement.flags.rpmlib = true ∧ o.resolution = .builtin := by
    rcases List.mem_cons.1 ho with rfl | ho
    · exact ⟨rfl, rfl⟩
    · rw [List.mem_singleton.1 ho]
      exact ⟨rfl, rfl⟩
  have hidx : (featureSet.context (.build featureSet.packages none)).FullyIndexed := rfl
  rw [hbuiltin]
  exact ⟨hrpm, ((Context.resolve_rpmlib hidx hrpm).1 (.inr (managed_feature _ ho))).symm⟩

/-- The package manager meets both requirements, and satisfies one of them. -/
theorem rpmlib_met_iff_managed_feature :
    featureSet.Reachable ∧ ∃ a, featureSet.analysis = some a ∧
      a.run.outcomes = [versionedFeature, anyFeature] ∧
      (∀ o ∈ a.run.outcomes, o.requirement.flags.rpmlib = true ∧
        o.resolution = ((featureSet.context a.index).resolve o.requirement).1 ∧
        (featureSet.context a.index).Managed o.requirement ∧ o.unmet? = none) ∧
      (featureSet.platform.provides anyFeature.requirement = true ∨
        ∃ id < featureSet.size, (featureSet.package id).name = featureSet.config.manager ∧
          (featureSet.package id).satisfies anyFeature.requirement featureSet.config.strict =
            true) := by
  obtain ⟨v, hv, hfound⟩ := map_eq_ok run_feature
  obtain ⟨a, ha, rfl⟩ := run_eq_ok hv
  have houtcomes : a.run.outcomes = [versionedFeature, anyFeature] :=
    (Prod.mk.inj (Prod.mk.inj hfound).2).2
  refine ⟨reachable_feature, a, ha, houtcomes, ?_, ?_⟩
  · intro o ho
    obtain ⟨hrpm, hown⟩ := resolution_feature ha houtcomes ho
    have hmanaged : (featureSet.context a.index).Managed o.requirement :=
      managed_feature a.index (houtcomes ▸ ho)
    exact ⟨hrpm, hown, hmanaged,
      (rpmlib_met_iff_managed reachable_feature ha ho hrpm hown).1.2 (.inr hmanaged)⟩
  · have ho : anyFeature ∈ a.run.outcomes := by
      rw [houtcomes]
      exact List.mem_cons_of_mem _ List.mem_cons_self
    obtain ⟨hrpm, hown⟩ := resolution_feature ha houtcomes ho
    exact (rpmlib_met_iff_managed reachable_feature ha ho hrpm hown).2.2 rfl rfl rfl

end PackageSet

end Depcheck
