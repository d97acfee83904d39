import Mathlib.Data.String.Basic
import Depcheck.Proofs.Index.Membership
import Depcheck.Proofs.Package.Paths
import Depcheck.Proofs.Sorting

/-!
# The order in which buckets are visited

The conflicts of a file index are looked for bucket by bucket. The buckets come from a map, whose
order means nothing, and the conflicts are put into the order of their paths afterwards; when all
paths are absolute no two conflicts have one path (`distinct_paths`), so the list ascends strictly
and any order of the buckets gives the same one (`conflictsAmong_eq_conflicts`).
-/

namespace Depcheck

open Std (TransCmp)

theorem isLE_compareOn_path (a b : FileConflict) :
    (compareOn FileConflict.path a b).isLE = decide (a.path ≤ b.path) := by
  rw [Bool.eq_iff_iff, decide_eq_true_iff, compareOn, Ordering.isLE_iff_ne_gt]
  exact compare_le_iff_le

namespace FileIndex

/-- The conflicts found by visiting buckets one after the other. -/
def conflictsAmong (packages : Array Package) (buckets : List (Place × List Owner)) :
    List FileConflict :=
  (buckets.filterMap fun (place, owners) => conflictAt? packages place owners).mergeSort
    fun a b => decide (a.path ≤ b.path)

theorem conflicts_eq (idx : FileIndex) (packages : Array Package) :
    idx.conflicts packages = conflictsAmong packages idx.buckets.toList := rfl

/-- A conflict is written by the path of its place, and somebody installs a file there. -/
theorem of_conflictAt? {packages : Array Package} {place : Place} {owners : List Owner}
    {c : FileConflict} (h : conflictAt? packages place owners = some c) :
    c.path = Path.join place.1 place.2 ∧
      c.owners = (owners.filter (!·.isDir)).map Owner.id ∧ owners ≠ [] := by
  unfold conflictAt? at h
  dsimp only at h
  split at h
  · cases h
    refine ⟨rfl, rfl, ?_⟩
    rintro rfl
    simp at *
  · cases h

/-- Two conflicts with one path would come from one place. -/
theorem distinct_paths {packages : Array Package} {buckets : List (Place × List Owner)}
    (hplace : ∀ place owners, (place, owners) ∈ buckets → owners ≠ [] → Path.IsPlace place)
    (hkeys : buckets.Pairwise fun a b => a.1 ≠ b.1) :
    (buckets.filterMap fun (place, owners) => conflictAt? packages place owners).Pairwise
      fun a b => compareOn FileConflict.path a b ≠ .eq := by
  rw [List.pairwise_filterMap]
  refine hkeys.imp_of_mem ?_
  rintro ⟨place, owners⟩ ⟨place', owners'⟩ hmem hmem' hne c hc c' hc' heq
  obtain ⟨hpath, _, howners⟩ := of_conflictAt? hc
  obtain ⟨hpath', _, howners'⟩ := of_conflictAt? hc'
  have hsame : Path.join place.1 place.2 = Path.join place'.1 place'.2 := by
    rw [← hpath, ← hpath']
    exact Std.LawfulEqCmp.eq_of_compare heq
  apply hne
  rw [← Path.split_join (hplace place owners hmem howners), hsame,
    Path.split_join (hplace place' owners' hmem' howners')]

theorem conflictsAmong_perm {packages : Array Package} {buckets visited : List (Place × List Owner)}
    (hplace : ∀ place owners, (place, owners) ∈ buckets → owners ≠ [] → Path.IsPlace place)
    (hkeys : buckets.Pairwise fun a b => a.1 ≠ b.1) (hperm : buckets.Perm visited) :
    conflictsAmong packages buckets = conflictsAmong packages visited := by
  unfold conflictsAmong
  simp only [← isLE_compareOn_path]
  exact mergeSort_eq_of_perm (hperm.filterMap _) (distinct_paths hplace hkeys)

theorem conflictsAmong_pairwise {packages : Array Package} {buckets : List (Place × List Owner)}
    (hplace : ∀ place owners, (place, owners) ∈ buckets → owners ≠ [] → Path.IsPlace place)
    (hkeys : buckets.Pairwise fun a b => a.1 ≠ b.1) :
    (conflictsAmong packages buckets).Pairwise fun a b => a.path < b.path := by
  unfold conflictsAmong
  simp only [← isLE_compareOn_path]
  refine (pairwise_lt_mergeSort (distinct_paths hplace hkeys)).imp ?_
  intro a b hlt
  exact compare_lt_iff_lt.1 hlt

theorem mem_toList_buckets {idx : FileIndex} {place : Place} {owners : List Owner}
    (h : (place, owners) ∈ idx.buckets.toList) : idx.owners place = owners := by
  rw [Std.TreeMap.mem_toList_iff_getElem?_eq_some] at h
  rw [FileIndex.owners, h]
  rfl

theorem mem_toList_of_owners_ne_nil {idx : FileIndex} {place : Place} (h : idx.owners place ≠ []) :
    (place, idx.owners place) ∈ idx.buckets.toList := by
  rw [Std.TreeMap.mem_toList_iff_getElem?_eq_some]
  unfold owners at h ⊢
  cases hbucket : idx.buckets[place]? with
  | none =>
    rw [hbucket] at h
    exact absurd rfl h
  | some bucket => rfl

theorem isPlace_of_mem_toList {idx : FileIndex}
    (hplace : ∀ place, ∀ o ∈ idx.owners place, Path.IsPlace place) (place : Place)
    (owners : List Owner) (hmem : (place, owners) ∈ idx.buckets.toList) (howners : owners ≠ []) :
    Path.IsPlace place := by
  obtain ⟨o, rest, hcons⟩ := List.exists_cons_of_ne_nil howners
  apply hplace place o
  rw [mem_toList_buckets hmem, hcons]
  exact List.mem_cons_self

theorem distinct_places (idx : FileIndex) : idx.buckets.toList.Pairwise fun a b => a.1 ≠ b.1 := by
  refine Std.TreeMap.distinct_keys_toList.imp ?_
  intro a b hab heq
  exact hab (Std.LawfulEqCmp.compare_eq_iff_eq.2 heq)

/-- Whatever the order of the buckets, the conflicts are the same. -/
theorem conflictsAmong_eq_conflicts {idx : FileIndex} {packages : Array Package}
    {visited : List (Place × List Owner)}
    (hplace : ∀ place, ∀ o ∈ idx.owners place, Path.IsPlace place)
    (hperm : visited.Perm idx.buckets.toList) :
    conflictsAmong packages visited = idx.conflicts packages := by
  rw [conflicts_eq]
  exact (conflictsAmong_perm (isPlace_of_mem_toList hplace) (distinct_places idx) hperm.symm).symm

/-- The conflicts ascend strictly by their paths. -/
theorem conflicts_pairwise {idx : FileIndex} {packages : Array Package}
    (hplace : ∀ place, ∀ o ∈ idx.owners place, Path.IsPlace place) :
    (idx.conflicts packages).Pairwise fun a b => a.path < b.path := by
  rw [conflicts_eq]
  exact conflictsAmong_pairwise (isPlace_of_mem_toList hplace) (distinct_places idx)

theorem mem_entries_of_mem_indexed {only : Option (List String)} {p : Package}
    {entry : String × FileEntry} (h : entry ∈ indexed only p) : entry ∈ p.files.entries :=
  (mem_indexed.1 h).2

end FileIndex

namespace Index

/-- The indexed entries of packages with absolute paths are at places. -/
theorem isPlace_of_mem_owners {packages : Array Package} {only : Option (List String)}
    (hfiles : ∀ p ∈ packages, p.FilesAbsolute) {place : Place} {o : Owner}
    (ho : o ∈ (build packages only).files.owners place) : Path.IsPlace place := by
  obtain ⟨p, hp, he⟩ := mem_owners_build.1 ho
  have hentry : (place.1, (⟨place.2, o.isDir⟩ : FileEntry)) ∈ p.files.entries :=
    FileIndex.mem_entries_of_mem_indexed he
  exact (hfiles p (Array.mem_of_getElem? hp)).isPlace hentry

end Index

end Depcheck
