import Depcheck.Proofs.Index.Buckets
import Depcheck.Proofs.Package.Paths

/-!
# The directories that requirements refer to

An index can leave out all directories but those that some requirement refers to. What a required
path is looked up under is always among them (`dir_mem_dirsOfPath`), whatever slashes it ends in, so
the smaller index gives the same owners for every path that the packages require
(`owners_dependencyDirs`).
-/

namespace Depcheck

/-- A path refers to the directory under which it is looked up. -/
theorem dir_mem_dirsOfPath {path : String} (habs : Path.isAbsolute path = true) :
    (Path.split path).1 ∈ dirsOfPath path := by
  rw [dirsOfPath]
  split
  · next hdir =>
    -- a path without a directory is one of slashes only, and so it refers to that directory itself
    have hnone : Path.normalizeChars path.toList = [] := by
      by_contra hne
      refine Path.slash_not_mem_of_splitChars ?_ (Path.slash_mem_normalizeChars habs hne)
      simpa [Path.split] using hdir
    have hnormal : Path.normalize path = "" := by
      rw [Path.normalize, hnone]
    rw [hdir, hnormal]
    exact List.mem_singleton_self _
  · exact List.mem_cons_self

theorem mem_dependencyDirs {packages : Array Package} {dir : String} :
    dir ∈ dependencyDirs packages ↔
      ∃ p ∈ packages, ∃ r ∈ p.requires, r.isPath = true ∧ dir ∈ dirsOfPath r.name := by
  rw [dependencyDirs, mem_eraseReps, List.mem_mergeSort]
  simp only [List.mem_flatMap, List.mem_filter, Array.mem_toList_iff, and_assoc]

namespace Index

variable {packages : Array Package} {p : Package} {r : Capability}

theorem covers_dependencyDirs (hp : p ∈ packages) (hr : r ∈ p.requires) (hpath : r.isPath = true) :
    FileIndex.covers (some (dependencyDirs packages)) (Path.split r.name).1 = true :=
  List.contains_iff_mem.2 (mem_dependencyDirs.2 ⟨p, hp, r, hr, hpath, dir_mem_dirsOfPath hpath⟩)

/-- Leaving out the other directories changes the owners of no path that is required. -/
theorem owners_dependencyDirs (hp : p ∈ packages) (hr : r ∈ p.requires)
    (hpath : r.isPath = true) :
    (build packages (some (dependencyDirs packages))).files.fileOwners r.name =
        (build packages none).files.fileOwners r.name ∧
      (build packages (some (dependencyDirs packages))).files.dirOwners r.name =
        (build packages none).files.dirOwners r.name := by
  have hcovers := covers_dependencyDirs hp hr hpath
  rw [fileOwners_build_only, dirOwners_build_only, fileOwners_build, dirOwners_build, hcovers]
  exact ⟨rfl, rfl⟩

end Index

end Depcheck
