import Mathlib.Data.List.DropRight
import Mathlib.Data.List.Sort
import Depcheck.Proofs.Index.Membership

/-!
# Buckets

A finished bucket ascends strictly and is not empty, so its members determine it: it holds the ids
that looking through the whole package list finds, in their order. `ids_finish_ofPackages` says so
for names, `fileOwners_build` and `dirOwners_build` for installed files and declared directories.
-/

namespace Depcheck

/-! ## Strictly ascending lists -/

theorem eraseReps_pairwise {α : Type} [BEq α] [LawfulBEq α] {R : α → α → Prop}
    (hanti : ∀ a b, R a b → R b a → a = b) {as : List α} (h : as.Pairwise R) :
    as.eraseReps.Pairwise fun a b => R a b ∧ a ≠ b := by
  cases as with
  | nil => exact List.Pairwise.nil
  | cons a as =>
    rw [List.eraseReps]
    induction as generalizing a with
    | nil => exact List.pairwise_singleton _ a
    | cons b rest ih =>
      obtain ⟨ha, hb⟩ := List.pairwise_cons.1 h
      rw [eraseRepsBy_cons_cons]
      by_cases hab : a = b
      · subst hab
        rw [if_pos (beq_self_eq_true a)]
        exact ih a hb
      · rw [if_neg (by simpa using hab)]
        refine List.pairwise_cons.2 ⟨?_, ih b hb⟩
        intro c hc
        have hmem : c ∈ b :: rest := mem_eraseReps.1 hc
        refine ⟨ha c hmem, ?_⟩
        rintro rfl
        rcases List.mem_cons.1 hmem with rfl | hrest
        · exact hab rfl
        · -- `b` would lie between two equal members
          have hba : R b a := (List.pairwise_cons.1 hb).1 a hrest
          exact hab (hanti a b (ha b List.mem_cons_self) hba)

theorem ascending_pairwise (ids : List Nat) : (ascending ids).Pairwise (· < ·) := by
  have hsorted : (ids.mergeSort fun a b => decide (a ≤ b)).Pairwise fun a b => a ≤ b := by
    have trans : ∀ a b c : Nat, decide (a ≤ b) = true → decide (b ≤ c) = true →
        decide (a ≤ c) = true := by
      simp only [decide_eq_true_eq]
      omega
    have total : ∀ a b : Nat, (decide (a ≤ b) || decide (b ≤ a)) = true := by
      simp only [Bool.or_eq_true, decide_eq_true_eq]
      omega
    exact (List.pairwise_mergeSort trans total ids).imp of_decide_eq_true
  refine (eraseReps_pairwise (fun a b => Nat.le_antisymm) hsorted).imp ?_
  rintro a b ⟨hle, hne⟩
  exact Nat.lt_of_le_of_ne hle hne

/-- The ids of the packages that satisfy a test, found by looking at each of them. -/
def idsWhere (packages : Array Package) (test : Package → Bool) : List Nat :=
  (List.range packages.size).filter fun id => test (packages.getD id default)

theorem mem_idsWhere {packages : Array Package} {test : Package → Bool} {id : Nat} :
    id ∈ idsWhere packages test ↔ ∃ p, packages[id]? = some p ∧ test p = true := by
  rw [idsWhere, List.mem_filter, List.mem_range, Array.getD_eq_getD_getElem?]
  constructor
  · rintro ⟨hlt, htest⟩
    rw [Array.getElem?_eq_getElem hlt] at htest ⊢
    exact ⟨_, rfl, htest⟩
  · rintro ⟨p, hp, htest⟩
    refine ⟨(Array.getElem?_eq_some_iff.1 hp).1, ?_⟩
    rw [hp]
    exact htest

theorem idsWhere_pairwise (packages : Array Package) (test : Package → Bool) :
    (idsWhere packages test).Pairwise (· < ·) :=
  List.pairwise_lt_range.filter _

/-- A strictly ascending list is known by its members. -/
theorem eq_idsWhere {packages : Array Package} {test : Package → Bool} {ids : List Nat}
    (hsorted : ids.Pairwise (· < ·))
    (hmem : ∀ id, id ∈ ids ↔ ∃ p, packages[id]? = some p ∧ test p = true) :
    ids = idsWhere packages test := by
  refine List.Pairwise.eq_of_mem_iff hsorted (idsWhere_pairwise packages test) ?_
  intro id
  rw [hmem, mem_idsWhere]

/-! ## Names -/

namespace NameIndex

def Filled (idx : NameIndex) : Prop := ∀ name, idx.lookup? name ≠ some []

theorem filled_add {idx : NameIndex} (h : idx.Filled) (name : String) (id : Nat) :
    (idx.add name id).Filled := by
  intro other
  rw [lookup?_add]
  split
  · simp
  · exact h other

theorem filled_addAll {idx : NameIndex} (h : idx.Filled) (names : List String) (id : Nat) :
    (idx.addAll names id).Filled := by
  induction names generalizing idx with
  | nil => exact h
  | cons n rest ih => exact ih (filled_add h n id)

theorem filled_ofPackages (names : Package → List String) (packages : List (Package × Nat)) :
    (ofPackages names packages).Filled := by
  have hempty : Filled {} := by
    intro name
    simp
  rw [ofPackages]
  refine List.foldlRecOn (motive := Filled) packages _ hempty ?_
  intro idx h entry _
  exact filled_addAll h _ _

theorem filled_finish {idx : NameIndex} (h : idx.Filled) : idx.finish.Filled := by
  intro name hnil
  rw [lookup?_finish] at hnil
  obtain ⟨bucket, hbucket, hempty⟩ := Option.map_eq_some_iff.1 hnil
  have : bucket = [] := by
    rw [List.eq_nil_iff_forall_not_mem]
    intro id hid
    have hmem := mem_ascending.2 hid
    rw [hempty] at hmem
    cases hmem
  exact h name (this ▸ hbucket)

/-- Where no bucket is empty, a name without a bucket is one without ids. -/
theorem lookup?_eq_of_filled {idx : NameIndex} (h : idx.Filled) (name : String) :
    idx.lookup? name = if idx.ids name = [] then none else some (idx.ids name) := by
  rw [ids]
  cases hl : idx.lookup? name with
  | none => simp
  | some bucket =>
    have : bucket ≠ [] := by
      rintro rfl
      exact h name hl
    simp [this]

/-- The bucket of a name holds the packages that carry it, in their order. -/
theorem ids_finish_ofPackages (names : Package → List String) (packages : Array Package)
    (name : String) :
    (ofPackages names packages.toList.zipIdx).finish.ids name =
      idsWhere packages fun p => decide (name ∈ names p) := by
  apply eq_idsWhere
  · rw [ids, lookup?_finish]
    cases (ofPackages names packages.toList.zipIdx).lookup? name with
    | none => exact List.Pairwise.nil
    | some bucket => exact ascending_pairwise bucket
  · intro id
    rw [mem_ids_finish, mem_ids_ofPackages]
    simp only [Index.mem_zipIdx_toList, decide_eq_true_eq]

end NameIndex

/-! ## Files -/

namespace Owner

theorem le_iff {a b : Owner} :
    Owner.le a b = true ↔ a.id < b.id ∨ a.id = b.id ∧ (a.isDir = false ∨ b.isDir = true) := by
  simp [Owner.le]

theorem le_trans (a b c : Owner) (hab : Owner.le a b = true) (hbc : Owner.le b c = true) :
    Owner.le a c = true := by
  rw [le_iff] at hab hbc ⊢
  grind

theorem le_total (a b : Owner) : (Owner.le a b || Owner.le b a) = true := by
  rw [Bool.or_eq_true, le_iff, le_iff]
  grind

theorem le_antisymm (a b : Owner) (hab : Owner.le a b = true) (hba : Owner.le b a = true) :
    a = b := by
  rw [le_iff] at hab hba
  obtain ⟨i, d⟩ := a
  obtain ⟨j, e⟩ := b
  grind

end Owner

namespace FileIndex

theorem owners_finish_pairwise (idx : FileIndex) (place : Place) :
    (idx.finish.owners place).Pairwise fun a b => Owner.le a b = true ∧ a ≠ b := by
  rw [owners_finish]
  exact eraseReps_pairwise Owner.le_antisymm
    (List.pairwise_mergeSort Owner.le_trans Owner.le_total _)

theorem ids_pairwise_of_kind (idx : FileIndex) (place : Place) {kind : Owner → Bool} {dir : Bool}
    (hkind : ∀ o, kind o = true ↔ o.isDir = dir) :
    (((idx.finish.owners place).filter kind).map Owner.id).Pairwise (· < ·) := by
  rw [List.pairwise_map]
  refine ((owners_finish_pairwise idx place).filter kind).imp_of_mem ?_
  rintro a b ha hb ⟨hle, hne⟩
  have hsame : a.isDir = b.isDir := by
    rw [(hkind a).1 (List.mem_filter.1 ha).2, (hkind b).1 (List.mem_filter.1 hb).2]
  rcases Owner.le_iff.1 hle with hlt | ⟨heq, _⟩
  · exact hlt
  · exact absurd (by rw [Owner.mk.injEq]; exact ⟨heq, hsame⟩) hne

end FileIndex

/-- Does the package list the entry `path`, as a file or as a directory? -/
def Package.lists (p : Package) (path : String) (isDir : Bool) : Bool :=
  decide (((Path.split path).1, (⟨(Path.split path).2, isDir⟩ : FileEntry)) ∈ p.files.entries)

namespace Path

theorem normalizeChars_normalizeChars (s : List Char) :
    normalizeChars (normalizeChars s) = normalizeChars s := by
  by_cases hs : s.length > 1
  · have hn : normalizeChars s = (s.reverse.dropWhile (· == '/')).reverse := if_pos hs
    rw [hn, normalizeChars]
    split
    · rw [List.reverse_reverse, List.dropWhile_idempotent]
    · rfl
  · have hn : normalizeChars s = s := if_neg hs
    rw [hn, hn]

/-- Slashes at the end do not change where a path lies. -/
theorem split_normalize (path : String) : split (normalize path) = split path := by
  have h : splitChars (normalizeChars path.toList) = splitChars path.toList := by
    rw [splitChars, splitChars, normalizeChars_normalizeChars]
  rw [split, split, normalize, String.toList_ofList, h]

end Path

namespace Index

theorem provided_build (packages : Array Package) (only : Option (List String)) :
    (build packages only).provided =
      (NameIndex.ofPackages Package.providedNames packages.toList.zipIdx).finish := by
  rw [build, finish, (foldl_addPackage only _ {}).1]
  rfl

theorem files_build (packages : Array Package) (only : Option (List String)) :
    ∃ idx : FileIndex, (build packages only).files = idx.finish :=
  ⟨_, rfl⟩

/-- The owners of one kind at a place are the packages that list it so, if its directory is
indexed at all. -/
theorem ids_owners_build (packages : Array Package) (only : Option (List String)) (path : String)
    {kind : Owner → Bool} {dir : Bool} (hkind : ∀ o, kind o = true ↔ o.isDir = dir) :
    (((build packages only).files.owners (Path.split path)).filter kind).map Owner.id =
      idsWhere packages fun p =>
        FileIndex.covers only (Path.split path).1 && p.lists path dir := by
  apply eq_idsWhere
  · obtain ⟨idx, hidx⟩ := files_build packages only
    rw [hidx]
    exact FileIndex.ids_pairwise_of_kind idx _ hkind
  · intro id
    have hentry : ∀ p : Package,
        (FileIndex.covers only (Path.split path).1 && p.lists path dir) = true ↔
          ((Path.split path).1, (⟨(Path.split path).2, dir⟩ : FileEntry)) ∈
            FileIndex.indexed only p := by
      intro p
      rw [FileIndex.mem_indexed, Bool.and_eq_true, Package.lists, decide_eq_true_iff]
    simp only [List.mem_map, List.mem_filter, mem_owners_build, hentry, hkind]
    constructor
    · rintro ⟨o, ⟨⟨p, hp, hmem⟩, rfl⟩, rfl⟩
      exact ⟨p, hp, hmem⟩
    · rintro ⟨p, hp, hmem⟩
      exact ⟨⟨id, dir⟩, ⟨⟨p, hp, hmem⟩, rfl⟩, rfl⟩

theorem fileOwners_build_only (packages : Array Package) (only : Option (List String))
    (path : String) :
    (build packages only).files.fileOwners path =
      idsWhere packages fun p =>
        FileIndex.covers only (Path.split path).1 && p.lists path false :=
  ids_owners_build packages only path fun o => by simp

theorem dirOwners_build_only (packages : Array Package) (only : Option (List String))
    (path : String) :
    (build packages only).files.dirOwners path =
      idsWhere packages fun p => FileIndex.covers only (Path.split path).1 && p.lists path true := by
  rw [FileIndex.dirOwners, Path.split_normalize]
  exact ids_owners_build packages only path fun o => Iff.rfl

theorem fileOwners_build (packages : Array Package) (path : String) :
    (build packages none).files.fileOwners path =
      idsWhere packages fun p => p.lists path false :=
  fileOwners_build_only packages none path

theorem dirOwners_build (packages : Array Package) (path : String) :
    (build packages none).files.dirOwners path =
      idsWhere packages fun p => p.lists path true :=
  dirOwners_build_only packages none path

end Index

end Depcheck
