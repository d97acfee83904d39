import Depcheck.Proofs.PackageSet.Arrange
import Depcheck.Proofs.PackageSet.Reachable
import Depcheck.Proofs.Verification.Reindexing

/-!
# Preparing with few files and with all

A set that looks for file conflicts indexes all files of its packages, and one that does not indexes
only those in directories that some requirement refers to. Apart from the file conflicts both find
the same (`prepare_regardless_of_fileConflicts`).
-/

namespace Depcheck

/-- The same configuration, with or without the pass over the file conflicts. -/
def Config.checkingFiles (config : Config) (on : Bool) : Config :=
  { config with passes := { config.passes with fileConflicts := on } }

namespace Index

/-- For the requirements of the packages the smaller index is as good as the whole one. -/
theorem agreesOn_dependencyDirs {packages : Array Package} {d : Demand}
    (hd : d ∈ demands packages) :
    (build packages (some (dependencyDirs packages))).AgreesOn (build packages none)
      d.requirement := by
  obtain ⟨p, hp, hr⟩ := mem_demands.1 hd
  exact owners_dependencyDirs (Array.mem_of_getElem? hp) (List.mem_of_getElem? hr)

theorem provided_build_eq (packages : Array Package) (only only' : Option (List String)) :
    (build packages only).provided = (build packages only').provided := by
  rw [provided_build, provided_build]

end Index

namespace PackageSet

/-- What a set is that was filled under a configuration, put into order and not yet verified. -/
theorem arranged_addAll (config : Config) (platform : Oracle) (ps : List Package) :
    (addAll { config, platform } ps).arranged =
      let packages := (arrange config.uniqueNames ps).toArray
      { config, platform, packages
        states := Array.replicate packages.size {}
        dependencyDirs := Depcheck.dependencyDirs packages } := by
  obtain ⟨hpackages, hconfig, hplatform⟩ := addAll_eq { config, platform } ps
  unfold arranged
  rw [hpackages, hconfig, hplatform]
  simp

/-- With the pass over the file conflicts and without it, preparing leaves the same packages and states
and finds the same, apart from the conflicts themselves; and the owners of every required path are the
same in both file indexes. -/
theorem prepare_regardless_of_fileConflicts (config : Config) (platform : Oracle)
    (ps : List Package) :
    let plain := (addAll { config := config.checkingFiles false, platform } ps).prepare
    let full := (addAll { config := config.checkingFiles true, platform } ps).prepare
    full.packages = plain.packages ∧ full.states = plain.states ∧
      ∃ a b, plain.analysis = some a ∧ full.analysis = some b ∧
        b.run.withoutFileConflicts = a.run ∧
        a.index = .build plain.packages (some (Depcheck.dependencyDirs plain.packages)) ∧
        b.index = .build plain.packages none ∧
        ∀ p ∈ plain.packages, ∀ r ∈ p.requires, r.isPath = true →
          a.index.files.fileOwners r.name = b.index.files.fileOwners r.name ∧
            a.index.files.dirOwners r.name = b.index.files.dirOwners r.name := by
  intro plain full
  let packages := (arrange config.uniqueNames ps).toArray
  let states : Array PackageState := Array.replicate packages.size {}
  let whole : Context :=
    { packages, index := .build packages none, platform
      manager := config.manager, strict := config.strict }
  let small : Context := whole.reindexed (.build packages (some (Depcheck.dependencyDirs packages)))
  have hsmall : small.verify config.passes.withoutFileConflicts states =
      whole.verify config.passes.withoutFileConflicts states :=
    Context.verify_reindexed (Index.provided_build_eq packages _ _)
      (fun d hd => Index.agreesOn_dependencyDirs hd) config.passes states
  obtain ⟨hrun, hstates⟩ :=
    whole.withoutFileConflicts_verify (config.checkingFiles true).passes states
  simp only [plain, full, prepare_eq, arranged_addAll]
  refine ⟨rfl, ?_, _, _, rfl, rfl, ?_, rfl, rfl, ?_⟩
  · exact hstates.trans (congrArg Prod.snd hsmall.symm)
  · exact hrun.trans (congrArg Prod.fst hsmall.symm)
  · intro p hp r hr hpath
    exact Index.owners_dependencyDirs hp hr hpath

/-! ## The indexes of a prepared set -/

/-- Verifying and marking leave the indexes as they were built. -/
theorem Reachable.index_eq {s : PackageSet} (h : s.Reachable) {a : Analysis}
    (ha : s.analysis = some a) :
    a.index = s.freshIndex ∧ s.dependencyDirs = Depcheck.dependencyDirs s.packages := by
  induction h generalizing a with
  | empty config platform => cases ha
  | add p _ _ => cases ha
  | prepare _ _ =>
    cases ha
    exact ⟨rfl, rfl⟩
  | verify _ hs ih =>
    obtain ⟨known, hknown, rfl⟩ := map_eq_ok hs
    have hbefore := ih (analyzed_eq_ok.1 hknown)
    cases ha
    exact hbefore
  | mark _ hs ih =>
    obtain ⟨v, _, _, rfl⟩ := mark_eq_ok hs
    exact ih ha

/-- Whatever a prepared set has indexed, its requirements are resolved as if it were everything. -/
theorem Reachable.resolve_eq {s : PackageSet} (h : s.Reachable) {a : Analysis}
    (ha : s.analysis = some a) {d : Demand} (hd : d ∈ demands s.packages) :
    (s.context a.index).resolve d.requirement =
      (s.context (.build s.packages none)).resolve d.requirement := by
  obtain ⟨hindex, hdirs⟩ := h.index_eq ha
  let whole := s.context (.build s.packages none)
  rw [hindex, freshIndex, hdirs]
  split
  · rfl
  · show (whole.reindexed _).resolve d.requirement = whole.resolve d.requirement
    exact Context.resolve_reindexed (Context.candidates?_reindexed
      (Index.provided_build_eq s.packages _ _) (Index.agreesOn_dependencyDirs hd))

/-- So it is with every outcome of the run. -/
theorem Reachable.resolve_outcome_eq {s : PackageSet} (h : s.Reachable) {a : Analysis}
    (ha : s.analysis = some a) {o : Outcome} (ho : o ∈ a.run.outcomes) :
    (s.context a.index).resolve o.requirement =
      (s.context (.build s.packages none)).resolve o.requirement := by
  obtain ⟨_, _, _, hrun⟩ := h.invariant.knows a ha
  rw [hrun] at ho
  exact h.resolve_eq ha (Context.mem_demands_of_mem_table ho)

end PackageSet

end Depcheck
