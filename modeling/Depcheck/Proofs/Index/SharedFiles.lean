import Mathlib.Data.Set.Function
import Depcheck.Proofs.Index.Buckets
import Depcheck.Proofs.Index.FileConflicts

/-!
# Shared files

The conflicts of a file index are the places that packages of different names install a file at
(`mem_conflicts_build`). This rests on a file index of all directories, where the bucket of a place
holds whoever installs an entry there, and on absolute paths, which lead back to their places.
-/

namespace Depcheck

/-- Does the package install a file, and not a directory, at a place? -/
def Package.installs (p : Package) (place : Place) : Bool :=
  p.files.entries.contains (place.1, ⟨place.2, false⟩)

/-- Do packages of different names install a file at the place? -/
def SharedFile (packages : Array Package) (place : Place) : Prop :=
  ∃ p ∈ packages, ∃ q ∈ packages,
    p.name ≠ q.name ∧ p.installs place = true ∧ q.installs place = true

/-- The path of a place, with all packages that install a file there. -/
def conflictOf (packages : Array Package) (place : Place) : FileConflict :=
  ⟨Path.join place.1 place.2, idsWhere packages fun p => p.installs place⟩

variable {packages : Array Package} {place : Place}

theorem Package.installs_eq_lists (h : Path.IsPlace place) (p : Package) :
    p.installs place = p.lists (Path.join place.1 place.2) false := by
  unfold installs lists
  rw [Path.split_join h, Bool.eq_iff_iff, List.contains_iff_mem, decide_eq_true_iff]

theorem SharedFile.isPlace (hfiles : ∀ p ∈ packages, p.FilesAbsolute)
    (h : SharedFile packages place) : Path.IsPlace place := by
  obtain ⟨p, hp, _, _, _, hfile, _⟩ := h
  exact (hfiles p hp).isPlace (List.contains_iff_mem.1 hfile)

/-- Names differ when one of them is not the first one. -/
theorem any_ne_headD {names : List String} :
    (names.any fun n => n != names.headD "") = true ↔ ∃ a ∈ names, ∃ b ∈ names, a ≠ b := by
  rw [List.any_eq_true]
  constructor
  · rintro ⟨a, ha, hne⟩
    cases names with
    | nil => cases ha
    | cons first rest => exact ⟨a, ha, first, List.mem_cons_self, by simpa using hne⟩
  · rintro ⟨a, ha, b, hb, hne⟩
    by_cases hfirst : a = names.headD ""
    · refine ⟨b, hb, ?_⟩
      rw [← hfirst]
      simpa using hne.symm
    · exact ⟨a, ha, by simpa using hfirst⟩

theorem SharedFile.iff_idsWhere :
    SharedFile packages place ↔
      ∃ i ∈ idsWhere packages fun p => p.installs place,
        ∃ j ∈ idsWhere packages fun p => p.installs place,
          (packages.getD i default).name ≠ (packages.getD j default).name := by
  constructor
  · rintro ⟨p, hp, q, hq, hne, hfile, hfile'⟩
    obtain ⟨i, hi⟩ := Array.mem_iff_getElem?.1 hp
    obtain ⟨j, hj⟩ := Array.mem_iff_getElem?.1 hq
    refine ⟨i, mem_idsWhere.2 ⟨p, hi, hfile⟩, j, mem_idsWhere.2 ⟨q, hj, hfile'⟩, ?_⟩
    rw [Array.getD_eq_getD_getElem?, Array.getD_eq_getD_getElem?, hi, hj]
    exact hne
  · rintro ⟨i, hi, j, hj, hne⟩
    obtain ⟨p, hp, hfile⟩ := mem_idsWhere.1 hi
    obtain ⟨q, hq, hfile'⟩ := mem_idsWhere.1 hj
    rw [Array.getD_eq_getD_getElem?, Array.getD_eq_getD_getElem?, hp, hq] at hne
    exact ⟨p, Array.mem_of_getElem? hp, q, Array.mem_of_getElem? hq, hne, hfile, hfile'⟩

namespace FileIndex

theorem conflictAt?_eq_some_iff {owners : List Owner} {c : FileConflict} :
    conflictAt? packages place owners = some c ↔
      (∃ i ∈ (owners.filter (!·.isDir)).map Owner.id,
        ∃ j ∈ (owners.filter (!·.isDir)).map Owner.id,
          (packages.getD i default).name ≠ (packages.getD j default).name) ∧
      ⟨Path.join place.1 place.2, (owners.filter (!·.isDir)).map Owner.id⟩ = c := by
  unfold conflictAt?
  rw [Option.ite_none_right_eq_some, any_ne_headD, Option.some.injEq]
  simp only [List.mem_map (f := fun id => (packages.getD id default).name),
    exists_exists_and_eq_and]

end FileIndex

namespace Index

/-- The bucket of a place holds whoever installs a file there, in the order of the packages. -/
theorem ids_owners_build_of_isPlace (packages : Array Package) (h : Path.IsPlace place) :
    (((build packages none).files.owners place).filter (!·.isDir)).map Owner.id =
      idsWhere packages fun p => p.installs place := by
  have hlisted := fileOwners_build packages (Path.join place.1 place.2)
  unfold FileIndex.fileOwners at hlisted
  rw [Path.split_join h] at hlisted
  rw [hlisted]
  simp only [Package.installs_eq_lists h]

/-- The conflicts of an index of all directories are the shared files. -/
theorem mem_conflicts_build (hfiles : ∀ p ∈ packages, p.FilesAbsolute) {c : FileConflict} :
    c ∈ (build packages none).files.conflicts packages ↔
      ∃ place, SharedFile packages place ∧ conflictOf packages place = c := by
  unfold FileIndex.conflicts
  rw [List.mem_mergeSort, List.mem_filterMap]
  constructor
  · rintro ⟨⟨place, owners⟩, hbucket, hc⟩
    obtain rfl := FileIndex.mem_toList_buckets hbucket
    obtain ⟨_, _, hne⟩ := FileIndex.of_conflictAt? hc
    have hplace : Path.IsPlace place :=
      FileIndex.isPlace_of_mem_toList (fun _ _ ho => isPlace_of_mem_owners hfiles ho) place _
        hbucket hne
    obtain ⟨hnames, rfl⟩ := FileIndex.conflictAt?_eq_some_iff.1 hc
    rw [ids_owners_build_of_isPlace packages hplace] at hnames ⊢
    exact ⟨place, SharedFile.iff_idsWhere.2 hnames, rfl⟩
  · rintro ⟨place, hshared, rfl⟩
    have hnames := SharedFile.iff_idsWhere.1 hshared
    have hids := ids_owners_build_of_isPlace packages (hshared.isPlace hfiles)
    rw [← hids] at hnames
    -- somebody is in the bucket, so there is one
    have hne : (build packages none).files.owners place ≠ [] := by
      intro hnil
      rw [hnil] at hnames
      obtain ⟨_, hi, _⟩ := hnames
      cases hi
    refine ⟨_, FileIndex.mem_toList_of_owners_ne_nil hne, ?_⟩
    refine FileIndex.conflictAt?_eq_some_iff.2 ⟨hnames, ?_⟩
    rw [hids]
    rfl

/-- With absolute paths and an index of all directories there is one conflict for each shared file
and no other; its owners are all packages that list its path as a file, ascending, and the conflicts
ascend by their paths. -/
theorem file_conflicts_are_shared_files (hfiles : ∀ p ∈ packages, p.FilesAbsolute) :
    Set.BijOn (conflictOf packages) {place | SharedFile packages place}
        {c | c ∈ (build packages none).files.conflicts packages} ∧
      ((build packages none).files.conflicts packages).Pairwise (fun a b => a.path < b.path) ∧
      ∀ c ∈ (build packages none).files.conflicts packages,
        (∀ id, id ∈ c.owners ↔ ∃ p, packages[id]? = some p ∧ p.lists c.path false = true) ∧
          c.owners.Pairwise (· < ·) := by
  refine ⟨⟨?_, ?_, ?_⟩, ?_, ?_⟩
  · intro place hshared
    exact (mem_conflicts_build hfiles).2 ⟨place, hshared, rfl⟩
  · intro place hshared place' hshared' heq
    have hpath : Path.join place.1 place.2 = Path.join place'.1 place'.2 :=
      congrArg FileConflict.path heq
    rw [← Path.split_join (hshared.isPlace hfiles), hpath,
      Path.split_join (hshared'.isPlace hfiles)]
  · intro c hc
    exact (mem_conflicts_build hfiles).1 hc
  · exact FileIndex.conflicts_pairwise fun _ _ ho => isPlace_of_mem_owners hfiles ho
  · intro c hc
    obtain ⟨place, hshared, rfl⟩ := (mem_conflicts_build hfiles).1 hc
    refine ⟨?_, idsWhere_pairwise packages fun p => p.installs place⟩
    intro id
    show id ∈ idsWhere packages (fun p => p.installs place) ↔
      ∃ p, packages[id]? = some p ∧ p.lists (Path.join place.1 place.2) false = true
    rw [mem_idsWhere]
    simp only [Package.installs_eq_lists (hshared.isPlace hfiles)]

/-- Three packages install a file in the root directory, one of them by a path with a slash too
many. What else two of them have in common is a file to one and a directory to the other, or the
file of two packages of one name. -/
def initPackages : Array Package :=
  #[{ name := "base", evr := { version := "1" },
      files := .ofPaths ["/init", "/srv/data/", "/etc/base.conf"] },
    { name := "boot", evr := { version := "1" }, files := .ofPaths ["//init", "/srv/data"] },
    { name := "base", evr := { version := "2" }, files := .ofPaths ["/etc/base.conf", "/init"] }]

theorem filesAbsolute_init : ∀ p ∈ initPackages, p.FilesAbsolute := by
  intro p hp
  have hp : p = initPackages[0] ∨ p = initPackages[1] ∨ p = initPackages[2] := by
    simpa [initPackages] using hp
  rcases hp with rfl | rfl | rfl
  · exact ⟨["/init", "/srv/data/", "/etc/base.conf"], rfl, by decide⟩
  · exact ⟨["//init", "/srv/data"], rfl, by decide⟩
  · exact ⟨["/etc/base.conf", "/init"], rfl, by decide⟩

theorem sharedFile_init : SharedFile initPackages ("/", "init") := by
  refine ⟨initPackages[0], Array.getElem_mem _, initPackages[1], Array.getElem_mem _, ?_, ?_, ?_⟩
  · decide
  · decide
  · decide

theorem file_conflicts_are_shared_files_init :
    (∀ p ∈ initPackages, p.FilesAbsolute) ∧
      ⟨"/init", [0, 1, 2]⟩ ∈ (build initPackages none).files.conflicts initPackages := by
  obtain ⟨⟨hmaps, _, _⟩, _, _⟩ := file_conflicts_are_shared_files filesAbsolute_init
  have hconflict : conflictOf initPackages ("/", "init") = ⟨"/init", [0, 1, 2]⟩ := by decide
  refine ⟨filesAbsolute_init, ?_⟩
  rw [← hconflict]
  exact hmaps sharedFile_init

example : (build initPackages none).files.conflicts initPackages = [⟨"/init", [0, 1, 2]⟩] := by
  cbv

end Index

end Depcheck
