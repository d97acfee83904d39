import Depcheck.Proofs.Capability.Text
import Depcheck.Proofs.PackageSet.FileIndexing

/-!
# Who provides a path

Asked for the providers of a path, a prepared set names the packages that carry the path as a name
and, from the file index, its owners. The file index holds a directory only when file conflicts are
looked for or when some requirement refers to it, and other owners stay unnamed
(`whatProvides_names_owners_iff`).
-/

namespace Depcheck

/-- Does the package install `path` as a file, or declare it as a directory? -/
def Package.owns (p : Package) (path : String) : Bool := p.lists path false || p.lists path true

namespace PackageSet

variable {s : PackageSet} {path : String}

/-- Are the entries of the directory `dir` indexed? -/
def IndexesDir (s : PackageSet) (dir : String) : Prop :=
  s.config.passes.fileConflicts = true ∨
    ∃ p ∈ s.packages, ∃ r ∈ p.requires, r.isPath = true ∧ dir ∈ dirsOfPath r.name

theorem Reachable.covers_iff (h : s.Reachable) {a : Analysis} (ha : s.analysis = some a)
    (dir : String) :
    ∃ only, a.index = .build s.packages only ∧
      (FileIndex.covers only dir = true ↔ s.IndexesDir dir) := by
  obtain ⟨hindex, hdirs⟩ := h.index_eq ha
  refine ⟨_, hindex, ?_⟩
  rw [hdirs, IndexesDir]
  by_cases hfiles : s.config.passes.fileConflicts = true
  · simp [hfiles, FileIndex.covers]
  · rw [if_neg hfiles, FileIndex.covers, Option.all_some, List.contains_iff_mem,
      mem_dependencyDirs]
    simp [hfiles]

/-- What is asked of the three indexes. -/
theorem whatProvides_eq {a : Analysis} (ha : s.analysis = some a)
    (habs : Path.isAbsolute path = true) :
    s.whatProvides path = .ok (ascending (a.index.provided.ids path ++
      a.index.files.fileOwners path ++ a.index.files.dirOwners path)) := by
  rw [whatProvides, analyzed_eq_ok.2 ha]
  show Except.ok (if Path.isAbsolute path = true then _ else _) = _
  rw [if_pos habs]

theorem mem_owners_iff {only : Option (List String)} {id : Nat} :
    id ∈ (Index.build s.packages only).files.fileOwners path ∨
        id ∈ (Index.build s.packages only).files.dirOwners path ↔
      id < s.size ∧ FileIndex.covers only (Path.split path).1 = true ∧
        (s.package id).owns path = true := by
  rw [Index.fileOwners_build_only, Index.dirOwners_build_only, idsWhere, idsWhere,
    List.mem_filter, List.mem_filter, List.mem_range, Package.owns, Bool.or_eq_true,
    Bool.and_eq_true, Bool.and_eq_true]
  show _ ↔ id < s.packages.size ∧ _
  rw [package]
  tauto

theorem mem_provided_iff {only : Option (List String)} {id : Nat} :
    id ∈ (Index.build s.packages only).provided.ids path ↔
      id < s.size ∧ path ∈ (s.package id).providedNames := by
  rw [Index.provided_build, NameIndex.ids_finish_ofPackages, idsWhere, List.mem_filter,
    List.mem_range, decide_eq_true_iff]
  rfl

/-- The answer to an absolute path names, each once and in ascending order, the packages that carry it
as a name and the owners of it where its directory is indexed. So it names all owners exactly when
the directory is indexed or all of them carry the path as a name as well. -/
theorem whatProvides_names_owners_iff (hs : s.Reachable) (hprepared : s.analysis.isSome)
    (habs : Path.isAbsolute path = true) :
    ∃ ids, s.whatProvides path = .ok ids ∧ ids.Pairwise (· < ·) ∧
      (∀ id, id ∈ ids ↔ id < s.size ∧ (path ∈ (s.package id).providedNames ∨
        s.IndexesDir (Path.split path).1 ∧ (s.package id).owns path = true)) ∧
      ((∀ id < s.size, (s.package id).owns path = true → id ∈ ids) ↔
        s.IndexesDir (Path.split path).1 ∨
          ∀ id < s.size, (s.package id).owns path = true →
            path ∈ (s.package id).providedNames) := by
  obtain ⟨a, ha⟩ := Option.isSome_iff_exists.1 hprepared
  obtain ⟨only, hindex, hcovers⟩ := hs.covers_iff ha (Path.split path).1
  refine ⟨_, whatProvides_eq ha habs, ascending_pairwise _, ?_⟩
  have hmem : ∀ id, id ∈ ascending (a.index.provided.ids path ++
      a.index.files.fileOwners path ++ a.index.files.dirOwners path) ↔
        id < s.size ∧ (path ∈ (s.package id).providedNames ∨
          s.IndexesDir (Path.split path).1 ∧ (s.package id).owns path = true) := by
    intro id
    rw [mem_ascending, List.mem_append, List.mem_append, or_assoc, hindex, mem_owners_iff,
      mem_provided_iff, hcovers]
    tauto
  refine ⟨hmem, ?_⟩
  simp only [hmem]
  constructor
  · intro hall
    by_cases hdir : s.IndexesDir (Path.split path).1
    · exact .inl hdir
    · right
      intro id hid howns
      rcases (hall id hid howns).2 with hname | ⟨hindexed, _⟩
      · exact hname
      · exact absurd hindexed hdir
  · rintro (hdir | hall) id hid howns
    · exact ⟨hid, .inr ⟨hdir, howns⟩⟩
    · exact ⟨hid, .inl (hall id hid howns)⟩

/-- A file that nothing requires. -/
def unaskedPackages : List Package :=
  [{ name := "app", evr := { version := "1" }, files := .ofPaths ["/etc/app.conf"] }]

def unaskedSet : PackageSet := (addAll { config := {}, platform := {} } unaskedPackages).prepare

theorem fromRecords_unasked : FromRecords unaskedPackages.toArray :=
  .of_mapM [{ name := "app", version := "1", files := ["/etc/app.conf"] }] rfl

/-- The owner is not named. -/
theorem whatProvides_omits_owner :
    FromRecords unaskedPackages.toArray ∧ unaskedSet.packages = unaskedPackages.toArray ∧
      Path.split "/etc/app.conf" = ("/etc", "app.conf") ∧
      (unaskedSet.package 0).owns "/etc/app.conf" = true ∧
      unaskedSet.whatProvides "/etc/app.conf" = .ok [] := by
  refine ⟨fromRecords_unasked, ?_, ?_, ?_, ?_⟩
  · cbv
  · cbv
  · cbv
  · cbv

/-- The same file, the same path as a directory, and a requirement that refers to another file beside
them. -/
def askedPackages : List Package :=
  [{ name := "app", evr := { version := "1" }, files := .ofPaths ["/etc/app.conf"] },
   { name := "layout", evr := { version := "1" }, files := .ofPaths ["/etc/app.conf/"] },
   { name := "user", evr := { version := "1" },
     requires := [.ofParts "/etc/passwd" (by decide) none {}] }]

def askedSet : PackageSet := (addAll { config := {}, platform := {} } askedPackages).prepare

theorem whatProvides_names_owners_iff_asked :
    askedSet.Reachable ∧ askedSet.analysis.isSome ∧ Path.isAbsolute "/etc/app.conf" = true ∧
      ∃ ids, askedSet.whatProvides "/etc/app.conf" = .ok ids ∧ 0 ∈ ids ∧ 1 ∈ ids ∧ 2 ∉ ids := by
  have hreach : askedSet.Reachable := ((((Reachable.empty {} {}).add _).add _).add _).prepare
  have hpackages : askedSet.packages = askedPackages.toArray := by cbv
  have hindexed : askedSet.IndexesDir (Path.split "/etc/app.conf").1 := by
    refine .inr ⟨askedPackages[2], ?_, .ofParts "/etc/passwd" (by decide) none {},
      List.mem_singleton_self _, rfl, ?_⟩
    · rw [hpackages]
      exact Array.mem_toList_iff.1 (List.getElem_mem (by decide))
    · decide
  obtain ⟨ids, hids, _, hmem, hall⟩ :=
    whatProvides_names_owners_iff hreach rfl (show Path.isAbsolute "/etc/app.conf" = true by decide)
  have hsize : askedSet.size = 3 := by
    rw [size, hpackages]
    rfl
  have howners := hall.2 (.inl hindexed)
  refine ⟨hreach, rfl, by decide, ids, hids, howners 0 (by omega) ?_, howners 1 (by omega) ?_, ?_⟩
  · cbv
  · cbv
  · intro h2
    have howns : (askedSet.package 2).owns "/etc/app.conf" = false := by cbv
    have hnames : (askedSet.package 2).providedNames = ["user"] := by cbv
    have hcases := ((hmem 2).1 h2).2
    rw [howns, hnames] at hcases
    simp at hcases

end PackageSet

end Depcheck
