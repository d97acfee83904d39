import Mathlib.Tactic.Tauto
import Depcheck.Index.Basic

/-!
# What the indexes hold

An index built from a list of packages answers with positions of that list, and with exactly those
that it should: a name leads to the packages that carry a record of that name
(`mem_provided_build`), a place to the packages that install an entry there
(`mem_owners_build`). Putting a bucket into order neither loses nor invents an id.
-/

namespace Depcheck

/-! ## Dropping repeats -/

/-- The accumulator of the loop holds what stands before the run at hand. -/
theorem eraseRepsBy_loop {α : Type} (r : α → α → Bool) (a : α) (as acc : List α) :
    List.eraseRepsBy.loop r a as acc = acc.reverse ++ List.eraseRepsBy r (a :: as) := by
  induction as generalizing a acc with
  | nil => simp [List.eraseRepsBy, List.eraseRepsBy.loop]
  | cons b rest ih =>
    simp only [List.eraseRepsBy, List.eraseRepsBy.loop]
    cases r a b with
    | true => exact ih a acc
    | false =>
      show List.eraseRepsBy.loop r b rest (a :: acc) =
        acc.reverse ++ List.eraseRepsBy.loop r b rest [a]
      rw [ih b (a :: acc), ih b [a]]
      simp

theorem eraseRepsBy_cons_cons {α : Type} (r : α → α → Bool) (a b : α) (rest : List α) :
    List.eraseRepsBy r (a :: b :: rest) =
      if r a b then List.eraseRepsBy r (a :: rest) else a :: List.eraseRepsBy r (b :: rest) := by
  show List.eraseRepsBy.loop r a (b :: rest) [] = _
  rw [List.eraseRepsBy.loop]
  cases r a b with
  | true => rfl
  | false => exact eraseRepsBy_loop r b rest [a]

/-- A repeat that is dropped still stands at the front of its run. -/
theorem mem_eraseReps {α : Type} [BEq α] [LawfulBEq α] {x : α} {as : List α} :
    x ∈ as.eraseReps ↔ x ∈ as := by
  cases as with
  | nil => rfl
  | cons a as =>
    rw [List.eraseReps]
    induction as generalizing a with
    | nil => rfl
    | cons b rest ih =>
      rw [eraseRepsBy_cons_cons]
      by_cases h : a = b
      · subst h
        simp [ih]
      · rw [if_neg (by simpa using h)]
        simp only [List.mem_cons, ih]

theorem eraseReps_replicate {α : Type} [BEq α] [LawfulBEq α] (a : α) (n : Nat) :
    (List.replicate n a).eraseReps = if n = 0 then [] else [a] := by
  cases n with
  | zero => rfl
  | succ n =>
    induction n with
    | zero => rfl
    | succ n ih =>
      rw [List.replicate_succ, List.replicate_succ, List.eraseReps, eraseRepsBy_cons_cons,
        if_pos (beq_self_eq_true a)]
      exact ih

/-- A further run leaves its member once. -/
theorem eraseReps_append_replicate {α : Type} [BEq α] [LawfulBEq α] {a : α} {l : List α}
    (h : a ∉ l) (n : Nat) :
    (l ++ List.replicate n a).eraseReps = l.eraseReps ++ if n = 0 then [] else [a] := by
  cases l with
  | nil => exact eraseReps_replicate a n
  | cons x l =>
    induction l generalizing x with
    | nil =>
      cases n with
      | zero => rfl
      | succ n =>
        have hne : x ≠ a := fun heq => h (heq ▸ List.mem_singleton_self x)
        have hrun := eraseReps_replicate a (n + 1)
        rw [List.replicate_succ] at hrun ⊢
        rw [List.singleton_append, List.eraseReps, eraseRepsBy_cons_cons,
          if_neg (by simpa using hne), ← List.eraseReps, hrun]
        rfl
    | cons y rest ih =>
      simp only [List.mem_cons, not_or] at h
      obtain ⟨hx, hy, hrest⟩ := h
      rw [List.cons_append, List.cons_append, List.eraseReps, List.eraseReps,
        eraseRepsBy_cons_cons, eraseRepsBy_cons_cons]
      by_cases heq : (x == y) = true
      · rw [if_pos heq, if_pos heq]
        exact ih x (by simp [hx, hrest])
      · rw [if_neg heq, if_neg heq, List.cons_append]
        exact congrArg (x :: ·) (ih y (by simp [hy, hrest]))

theorem mem_ascending {id : Nat} {ids : List Nat} : id ∈ ascending ids ↔ id ∈ ids := by
  rw [ascending, mem_eraseReps, List.mem_mergeSort]

/-! ## Name indexes -/

namespace NameIndex

theorem ids_add (idx : NameIndex) (name other : String) (id : Nat) :
    (idx.add name id).ids other =
      if name = other then idx.ids name ++ [id] else idx.ids other := by
  rw [ids, lookup?_add]
  split <;> rfl

theorem mem_ids_finish {idx : NameIndex} {name : String} {id : Nat} :
    id ∈ idx.finish.ids name ↔ id ∈ idx.ids name := by
  rw [ids, ids, lookup?_finish]
  cases idx.lookup? name with
  | none => rfl
  | some bucket => exact mem_ascending

theorem mem_ids_addAll {names : List String} {idx : NameIndex} {name : String} {id new : Nat} :
    id ∈ (idx.addAll names new).ids name ↔ id ∈ idx.ids name ∨ id = new ∧ name ∈ names := by
  induction names generalizing idx with
  | nil => simp [addAll]
  | cons n rest ih =>
    rw [addAll, List.foldl_cons, ← addAll, ih, ids_add, List.mem_cons]
    by_cases h : n = name
    · subst h
      rw [if_pos rfl, List.mem_append, List.mem_singleton]
      tauto
    · rw [if_neg h]
      have := Ne.symm h
      tauto

/-- The index of a list of packages with their ids, for one kind of record. -/
def ofPackages (names : Package → List String) (packages : List (Package × Nat)) : NameIndex :=
  packages.foldl (fun idx (p, id) => idx.addAll (names p) id) {}

theorem mem_ids_ofPackages {names : Package → List String} {packages : List (Package × Nat)}
    {name : String} {id : Nat} :
    id ∈ (ofPackages names packages).ids name ↔
      ∃ p, (p, id) ∈ packages ∧ name ∈ names p := by
  have grown : ∀ (packages : List (Package × Nat)) (idx : NameIndex),
      id ∈ (packages.foldl (fun idx (p, id) => idx.addAll (names p) id) idx).ids name ↔
        id ∈ idx.ids name ∨ ∃ p, (p, id) ∈ packages ∧ name ∈ names p := by
    intro packages
    induction packages with
    | nil => simp
    | cons entry rest ih =>
      intro idx
      obtain ⟨p, new⟩ := entry
      rw [List.foldl_cons, ih, mem_ids_addAll]
      constructor
      · rintro ((h | ⟨rfl, h⟩) | ⟨q, hq, h⟩)
        · exact .inl h
        · exact .inr ⟨p, List.mem_cons_self, h⟩
        · exact .inr ⟨q, List.mem_cons_of_mem _ hq, h⟩
      · rintro (h | ⟨q, hq, h⟩)
        · exact .inl (.inl h)
        · rcases List.mem_cons.1 hq with heq | hq
          · obtain ⟨rfl, rfl⟩ := Prod.mk.inj heq
            exact .inl (.inr ⟨rfl, h⟩)
          · exact .inr ⟨q, hq, h⟩
  rw [ofPackages, grown]
  simp [ids]

end NameIndex

/-! ## The file index -/

namespace FileIndex

theorem mem_owners_finish {idx : FileIndex} {place : Place} {o : Owner} :
    o ∈ idx.finish.owners place ↔ o ∈ idx.owners place := by
  rw [owners_finish, mem_eraseReps, List.mem_mergeSort]

/-- The entries of a package that are indexed. -/
def indexed (only : Option (List String)) (p : Package) : List (String × FileEntry) :=
  FileList.entries ⟨selectDirs p.files.dirs only⟩

/-- Are the entries of the directory `dir` indexed? -/
def covers (only : Option (List String)) (dir : String) : Bool := only.all (·.contains dir)

theorem mem_indexed {only : Option (List String)} {p : Package} {dir : String} {e : FileEntry} :
    (dir, e) ∈ indexed only p ↔ covers only dir = true ∧ (dir, e) ∈ p.files.entries := by
  cases only with
  | none => exact ⟨fun h => ⟨rfl, h⟩, And.right⟩
  | some dirs =>
    simp only [indexed, FileList.entries, selectDirs, covers, List.mem_flatMap, List.mem_filter,
      List.mem_map, Prod.mk.injEq, Option.all_some]
    constructor
    · rintro ⟨d, ⟨hd, hdir⟩, e', he', rfl, rfl⟩
      exact ⟨hdir, d, hd, e', he', rfl, rfl⟩
    · rintro ⟨hdir, d, hd, e', he', rfl, rfl⟩
      exact ⟨d, ⟨hd, hdir⟩, e', he', rfl, rfl⟩

theorem mem_owners_addPackage {idx : FileIndex} {id : Nat} {p : Package}
    {only : Option (List String)} {place : Place} {o : Owner} :
    o ∈ (idx.addPackage id p only).owners place ↔
      o ∈ idx.owners place ∨ o.id = id ∧ (place.1, ⟨place.2, o.isDir⟩) ∈ indexed only p := by
  rw [addPackage, ← indexed]
  generalize indexed only p = es
  induction es generalizing idx with
  | nil => simp
  | cons entry rest ih =>
    obtain ⟨dir, base, isDir⟩ := entry
    rw [List.foldl_cons, ih, owners_addEntry]
    by_cases h : ((dir, base) : Place) = place
    · subst h
      rw [if_pos rfl, List.mem_append, List.mem_singleton, List.mem_cons]
      have same : o = ⟨id, isDir⟩ ↔
          o.id = id ∧ ((dir, ⟨base, o.isDir⟩) : String × FileEntry) = (dir, ⟨base, isDir⟩) := by
        obtain ⟨i, d⟩ := o
        simp
      rw [same]
      tauto
    · rw [if_neg h, List.mem_cons]
      have other : ((place.1, ⟨place.2, o.isDir⟩) : String × FileEntry) ≠
          (dir, ⟨base, isDir⟩) := by
        intro heq
        obtain ⟨rfl, he⟩ := Prod.mk.inj heq
        obtain ⟨rfl, _⟩ := FileEntry.mk.inj he
        exact h rfl
      tauto

theorem mem_owners_foldl {packages : List (Package × Nat)} {idx : FileIndex}
    {only : Option (List String)} {place : Place} {o : Owner} :
    o ∈ (packages.foldl (fun idx (p, id) => idx.addPackage id p only) idx).owners place ↔
      o ∈ idx.owners place ∨
        ∃ p, (p, o.id) ∈ packages ∧ (place.1, ⟨place.2, o.isDir⟩) ∈ indexed only p := by
  induction packages generalizing idx with
  | nil => simp
  | cons entry rest ih =>
    obtain ⟨p, new⟩ := entry
    rw [List.foldl_cons, ih, mem_owners_addPackage]
    constructor
    · rintro ((h | ⟨rfl, h⟩) | ⟨q, hq, h⟩)
      · exact .inl h
      · exact .inr ⟨p, List.mem_cons_self, h⟩
      · exact .inr ⟨q, List.mem_cons_of_mem _ hq, h⟩
    · rintro (h | ⟨q, hq, h⟩)
      · exact .inl (.inl h)
      · rcases List.mem_cons.1 hq with heq | hq
        · obtain ⟨rfl, hid⟩ := Prod.mk.inj heq
          exact .inl (.inr ⟨hid, h⟩)
        · exact .inr ⟨q, hq, h⟩

end FileIndex

/-! ## The indexes of a package list -/

namespace Index

theorem mem_zipIdx_toList {packages : Array Package} {p : Package} {id : Nat} :
    (p, id) ∈ packages.toList.zipIdx ↔ packages[id]? = some p := by
  rw [List.mk_mem_zipIdx_iff_getElem?, Array.getElem?_toList]

/-- Each index of the whole is filled on its own. -/
theorem foldl_addPackage (only : Option (List String)) (packages : List (Package × Nat))
    (idx : Index) :
    (packages.foldl (fun idx (p, id) => addPackage only idx p id) idx).provided =
        packages.foldl (fun idx (p, id) => idx.addAll p.providedNames id) idx.provided ∧
      (packages.foldl (fun idx (p, id) => addPackage only idx p id) idx).files =
        packages.foldl (fun idx (p, id) => idx.addPackage id p only) idx.files := by
  induction packages generalizing idx with
  | nil => exact ⟨rfl, rfl⟩
  | cons entry rest ih => exact ih (addPackage only idx entry.1 entry.2)

/-- A name leads to the packages called so and to those that provide a capability of that name. -/
theorem mem_provided_build {packages : Array Package} {only : Option (List String)}
    {name : String} {id : Nat} :
    id ∈ (build packages only).provided.ids name ↔
      ∃ p, packages[id]? = some p ∧ name ∈ p.providedNames := by
  rw [build, finish, (foldl_addPackage only _ {}).1, NameIndex.mem_ids_finish,
    ← NameIndex.ofPackages, NameIndex.mem_ids_ofPackages]
  simp only [mem_zipIdx_toList]

/-- A place leads to the packages that install an entry there, in an indexed directory. -/
theorem mem_owners_build {packages : Array Package} {only : Option (List String)}
    {place : Place} {o : Owner} :
    o ∈ (build packages only).files.owners place ↔
      ∃ p, packages[o.id]? = some p ∧
        (place.1, ⟨place.2, o.isDir⟩) ∈ FileIndex.indexed only p := by
  rw [build, finish, (foldl_addPackage only _ {}).2, FileIndex.mem_owners_finish,
    FileIndex.mem_owners_foldl]
  simp [FileIndex.owners, mem_zipIdx_toList]

end Index

end Depcheck
