import Depcheck.Proofs.Capability.Text
import Depcheck.Proofs.PackageSet.FileIndexing
import Depcheck.Proofs.Resolution.Scan

/-!
# Requirements that the platform meets

The platform is asked last, when the packages have been looked through. A requirement that it meets
is met all the same unless packages stand before it: candidates by name or path, none of which
satisfies the version (`unmet_iff_overshadowed`).
-/

namespace Depcheck

namespace Context

variable {ctx : Context} {req : Capability}

/-- Some packages are candidates, and none of them fits. -/
def Overshadowed (ctx : Context) (req : Capability) : Prop :=
  ctx.HasCandidates req ∧ ∀ id, ¬ctx.Fits req id

/-- What the platform meets is a mismatch where it is overshadowed, and met everywhere else. -/
theorem resolve_of_provides (hidx : ctx.FullyIndexed) (hprov : ctx.platform.provides req = true) :
    (ctx.Overshadowed req → (ctx.resolve req).1 = .mismatch) ∧
      (¬ctx.Overshadowed req → (ctx.resolve req).1.unmetKind? = none) := by
  constructor
  · rintro ⟨hhas, hnone⟩
    exact resolve_of_scan hidx (.mismatch hhas hnone)
  · intro hclear
    have hscan : ctx.Scan req (ctx.resolve req).1 := scan_resolve hidx
    generalize (ctx.resolve req).1 = res at hscan ⊢
    cases hscan with
    | manager => rfl
    | platform => rfl
    | matched => rfl
    | absent _ hmissing =>
      rw [hprov] at hmissing
      cases hmissing
    | mismatch hhas hnone => exact absurd ⟨hhas, hnone⟩ hclear

end Context

namespace PackageSet

variable {s : PackageSet}

/-- A requirement that the platform meets, and that was resolved itself, is recorded as unmet
exactly where packages of the set overshadow the platform, and then for its version. -/
theorem unmet_iff_overshadowed (hs : s.Reachable) {a : Analysis} (ha : s.analysis = some a)
    {o : Outcome} (ho : o ∈ a.run.outcomes) (hprov : s.platform.provides o.requirement = true)
    (hown : o.resolution = ((s.context a.index).resolve o.requirement).1) :
    ((s.context a.index).Overshadowed o.requirement →
        o.unmet? = some ⟨o.requirement.text, .versionMismatch⟩) ∧
      (¬(s.context a.index).Overshadowed o.requirement → o.unmet? = none) := by
  obtain ⟨_, _, _, hrun⟩ := hs.invariant.knows a ha
  rw [hrun] at ho
  have hd : o.toDemand ∈ demands s.packages := Context.mem_demands_of_mem_table ho
  -- the whole index answers as the set's own does, and `Overshadowed` mentions no index
  let whole := s.context (.build s.packages none)
  have hown : o.resolution = (whole.resolve o.requirement).1 := by
    rw [hown, hs.resolve_eq ha hd]
  have hidx : whole.FullyIndexed := rfl
  obtain ⟨hover, hclear⟩ := Context.resolve_of_provides hidx hprov
  constructor
  · intro h
    rw [Outcome.unmet?, hown, hover h]
    rfl
  · intro h
    rw [Outcome.unmet?, hown, hclear h]
    rfl

/-- A driver that needs some and a certain version of an interface, and a kernel with a newer one. -/
def abiPackages : List Package :=
  [{ name := "driver", evr := { version := "1" },
     requires :=
       [.ofParts "kernel(abi)" (by decide) none {},
        .ofParts "kernel(abi)" (by decide) (some (.exactly { version := "6.8" })) {}] },
   { name := "kernel", evr := { version := "6.9" },
     provides := [.ofParts "kernel(abi)" (by decide) (some (.exactly { version := "6.9" })) {}] }]

/-- The platform has the version that is needed. -/
def abiPlatform : Platform where
  caps := [.ofParts "kernel(abi)" (by decide) (some (.exactly { version := "6.8" })) {}]

def abiSet : PackageSet := (addAll { config := {}, platform := abiPlatform } abiPackages).prepare

theorem fromRecords_abi : FromRecords abiPackages.toArray :=
  .of_mapM
    [{ name := "driver", version := "1", requires := ["kernel(abi)", "kernel(abi) = 6.8"] },
     { name := "kernel", version := "6.9", provides := ["kernel(abi) = 6.9"] }]
    rfl

theorem ofTexts_abi : Platform.ofTexts false ["kernel(abi) = 6.8"] = .ok abiPlatform := by
  have hread : ["kernel(abi) = 6.8"].mapM Capability.parse = .ok abiPlatform.caps := rfl
  rw [Platform.ofTexts, hread]
  cbv

/-- The platform meets both requirements, and the second one is unmet: the kernel provides the name in
another version. -/
theorem platform_overshadowed_abi :
    FromRecords abiPackages.toArray ∧
      Platform.ofTexts false ["kernel(abi) = 6.8"] = .ok abiPlatform ∧
      (demands abiSet.packages).map (fun d => (d.requirement.text,
          abiSet.platform.provides d.requirement)) =
        [("kernel(abi)", true), ("kernel(abi) = 6.8", true)] ∧
      abiSet.run.map (fun v => (v.unmet, v.diagnostics)) =
        .ok (1, [("driver-1", [⟨"kernel(abi) = 6.8", .versionMismatch⟩])]) := by
  refine ⟨fromRecords_abi, ofTexts_abi, ?_, ?_⟩
  · cbv
  · cbv

/-- Any version of the interface is met. -/
def abiMet : Outcome := ⟨⟨0, 0, .ofParts "kernel(abi)" (by decide) none {}⟩, .matched [1]⟩

/-- The version that the platform has is not. -/
def abiUnmet : Outcome :=
  ⟨⟨0, 1, .ofParts "kernel(abi)" (by decide) (some (.exactly { version := "6.8" })) {}⟩, .mismatch⟩

theorem unmet_iff_overshadowed_abi :
    abiSet.Reachable ∧ ∃ a, abiSet.analysis = some a ∧ a.run.outcomes = [abiMet, abiUnmet] ∧
      abiSet.platform.provides abiMet.requirement = true ∧
      abiMet.resolution = ((abiSet.context a.index).resolve abiMet.requirement).1 ∧
      ¬(abiSet.context a.index).Overshadowed abiMet.requirement ∧ abiMet.unmet? = none ∧
      abiSet.platform.provides abiUnmet.requirement = true ∧
      abiUnmet.resolution = ((abiSet.context a.index).resolve abiUnmet.requirement).1 ∧
      (abiSet.context a.index).Overshadowed abiUnmet.requirement ∧
      abiUnmet.unmet? = some ⟨"kernel(abi) = 6.8", .versionMismatch⟩ := by
  have hreach : abiSet.Reachable := (((Reachable.empty {} abiPlatform).add _).add _).prepare
  obtain ⟨a, ha⟩ : ∃ a, abiSet.analysis = some a := ⟨_, rfl⟩
  have htable : a.run.outcomes = [abiMet, abiUnmet] := by
    cases ha
    cbv
  have hmet : abiMet ∈ a.run.outcomes := by
    rw [htable]
    exact List.mem_cons_self
  have hunmet : abiUnmet ∈ a.run.outcomes := by
    rw [htable]
    exact List.mem_cons_of_mem _ List.mem_cons_self
  have hprov : abiSet.platform.provides abiMet.requirement = true := by cbv
  have hprov' : abiSet.platform.provides abiUnmet.requirement = true := by cbv
  have hown : abiMet.resolution = ((abiSet.context a.index).resolve abiMet.requirement).1 := by
    cases ha
    cbv
  have hown' : abiUnmet.resolution = ((abiSet.context a.index).resolve abiUnmet.requirement).1 := by
    cases ha
    cbv
  have hcandidate : (abiSet.context a.index).scanned abiMet.requirement = [1] := by cbv
  have hcandidate' : (abiSet.context a.index).scanned abiUnmet.requirement = [1] := by cbv
  have hclear : ¬(abiSet.context a.index).Overshadowed abiMet.requirement := by
    rintro ⟨_, hnone⟩
    refine hnone 1 ⟨?_, fun hversion => Bool.noConfusion hversion⟩
    rw [hcandidate]
    exact List.mem_singleton_self 1
  have hover : (abiSet.context a.index).Overshadowed abiUnmet.requirement := by
    refine ⟨⟨?_, rfl⟩, ?_⟩
    · rw [hcandidate']
      exact List.cons_ne_nil _ _
    · rintro id ⟨hid, hfit⟩
      rw [hcandidate', List.mem_singleton] at hid
      subst hid
      have hkernel : ((abiSet.context a.index).package 1).satisfies abiUnmet.requirement true =
        false := by cbv
      exact Bool.noConfusion (hkernel.symm.trans (hfit rfl))
  exact ⟨hreach, a, ha, htable, hprov, hown, hclear,
    (unmet_iff_overshadowed hreach ha hmet hprov hown).2 hclear, hprov', hown', hover,
    (unmet_iff_overshadowed hreach ha hunmet hprov' hown').1 hover⟩

end PackageSet

end Depcheck
