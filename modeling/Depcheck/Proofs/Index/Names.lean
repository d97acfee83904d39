import Depcheck.Proofs.Index.Buckets
import Depcheck.Proofs.Lists

/-!
# Name indexes

Names are entered for provided, required and obsoleted capabilities in one pass over the packages.
Each of the three indexes that come out `Mirrors` the package list for its kind of record: it knows
the names that some package carries, and under each of them the packages that carry it, in order.
-/

namespace Depcheck

namespace NameIndex

/-- The index tells which packages carry which name, and nothing else. -/
structure Mirrors (idx : NameIndex) (packages : Array Package)
    (carries : Package → String → Prop) : Prop where
  unknown_iff : ∀ name, idx.lookup? name = none ↔ ∀ p ∈ packages, ¬carries p name
  ascending : ∀ name ids, idx.lookup? name = some ids → ids.Pairwise (· < ·)
  mem_iff : ∀ name ids, idx.lookup? name = some ids →
    ∀ id, id ∈ ids ↔ ∃ p, packages[id]? = some p ∧ carries p name
  size_eq : (idx.size : ℕ∞) = {name | ∃ p ∈ packages, carries p name}.encard

/-- The size of an index is the number of names that it knows. -/
theorem size_eq_encard (idx : NameIndex) :
    (idx.size : ℕ∞) = {name | idx.lookup? name ≠ none}.encard := by
  have hkeys : ∀ name, name ∈ {name | idx.lookup? name ≠ none} ↔ name ∈ idx.buckets.keys := by
    intro name
    rw [Std.TreeMap.mem_keys, Std.TreeMap.mem_iff_isSome_getElem?, ← lookup?,
      Option.isSome_iff_ne_none]
    rfl
  rw [encard_eq_length Std.TreeMap.nodup_keys hkeys, Std.TreeMap.length_keys, size]

variable {packages : Array Package}

theorem idsWhere_eq_nil_iff {test : Package → Bool} :
    idsWhere packages test = [] ↔ ∀ p ∈ packages, ¬test p = true := by
  rw [List.eq_nil_iff_forall_not_mem]
  simp only [mem_idsWhere]
  constructor
  · intro h p hp htest
    obtain ⟨id, hid⟩ := Array.mem_iff_getElem?.1 hp
    exact h id ⟨p, hid, htest⟩
  · rintro h id ⟨p, hid, htest⟩
    exact h p (Array.mem_of_getElem? hid) htest

theorem lookup?_finish_ofPackages (names : Package → List String) (packages : Array Package)
    (name : String) :
    (ofPackages names packages.toList.zipIdx).finish.lookup? name =
      let ids := idsWhere packages fun p => decide (name ∈ names p)
      if ids = [] then none else some ids := by
  rw [lookup?_eq_of_filled (filled_finish (filled_ofPackages names _)), ids_finish_ofPackages]

/-- The finished index of one kind of record mirrors the packages. -/
theorem mirrors_finish (names : Package → List String) (packages : Array Package) :
    (ofPackages names packages.toList.zipIdx).finish.Mirrors packages
      fun p name => name ∈ names p := by
  have hunknown : ∀ name, (ofPackages names packages.toList.zipIdx).finish.lookup? name = none ↔
      ∀ p ∈ packages, ¬name ∈ names p := by
    intro name
    rw [lookup?_finish_ofPackages]
    simp [idsWhere_eq_nil_iff]
  have hids : ∀ name ids,
      (ofPackages names packages.toList.zipIdx).finish.lookup? name = some ids →
        ids = idsWhere packages fun p => decide (name ∈ names p) := by
    intro name ids h
    rw [← ids_finish_ofPackages, NameIndex.ids, h, Option.getD_some]
  constructor
  case unknown_iff => exact hunknown
  case ascending =>
    intro name ids h
    rw [hids name ids h]
    exact idsWhere_pairwise packages _
  case mem_iff =>
    intro name ids h id
    rw [hids name ids h, mem_idsWhere]
    simp only [decide_eq_true_eq]
  case size_eq =>
    rw [size_eq_encard]
    congr 1
    ext name
    rw [Set.mem_ofPred_eq, Set.mem_ofPred_eq, Ne, hunknown]
    simp

theorem Mirrors.congr {idx : NameIndex} {carries carries' : Package → String → Prop}
    (h : idx.Mirrors packages carries) (heq : ∀ p name, carries p name ↔ carries' p name) :
    idx.Mirrors packages carries' := by
  have : carries = carries' := funext fun p => funext fun name => propext (heq p name)
  exact this ▸ h

end NameIndex

namespace Index

/-- A part of the index that takes the given names of every package is filled on its own. -/
theorem part_foldl_addPackage (part : Index → NameIndex) {names : Package → List String}
    {only : Option (List String)}
    (hpart : ∀ idx p id, part (addPackage only idx p id) = (part idx).addAll (names p) id)
    (packages : List (Package × Nat)) (idx : Index) :
    part (packages.foldl (fun idx (p, id) => addPackage only idx p id) idx) =
      packages.foldl (fun idx (p, id) => idx.addAll (names p) id) (part idx) := by
  induction packages generalizing idx with
  | nil => rfl
  | cons entry rest ih =>
    rw [List.foldl_cons, List.foldl_cons, ih, hpart]

theorem required_build (packages : Array Package) (only : Option (List String)) :
    (build packages only).required =
      (NameIndex.ofPackages Package.requiredNames packages.toList.zipIdx).finish := by
  rw [build, finish, part_foldl_addPackage Index.required fun _ _ _ => rfl]
  rfl

theorem obsoleted_build (packages : Array Package) (only : Option (List String)) :
    (build packages only).obsoleted =
      (NameIndex.ofPackages Package.obsoletedNames packages.toList.zipIdx).finish := by
  rw [build, finish, part_foldl_addPackage Index.obsoleted fun _ _ _ => rfl]
  rfl

/-- The three indexes of names answer for every name as the package list does: who is called so or
provides a capability of that name, who requires it, and who obsoletes it. -/
theorem name_indexes_mirror (packages : Array Package) (only : Option (List String)) :
    (build packages only).provided.Mirrors packages
        (fun p name => p.name = name ∨ ∃ c ∈ p.provides, c.name = name) ∧
      (build packages only).required.Mirrors packages
        (fun p name => ∃ r ∈ p.requires, r.name = name) ∧
      (build packages only).obsoleted.Mirrors packages
        (fun p name => ∃ c ∈ p.conflicts, c.flags.obsoletes = true ∧ c.name = name) := by
  rw [provided_build, required_build, obsoleted_build]
  refine ⟨?_, ?_, ?_⟩
  · refine (NameIndex.mirrors_finish _ packages).congr ?_
    intro p name
    rw [Package.providedNames, List.mem_cons, List.mem_map, eq_comm]
  · refine (NameIndex.mirrors_finish _ packages).congr ?_
    intro p name
    rw [Package.requiredNames, List.mem_map]
  · refine (NameIndex.mirrors_finish _ packages).congr ?_
    intro p name
    rw [Package.obsoletedNames, List.mem_map]
    simp only [List.mem_filter, and_assoc]

end Index

end Depcheck
