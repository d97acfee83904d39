import Depcheck.Index.Name
import Depcheck.Package.Basic

/-!
# The file index

The file index maps a directory and a name in it to the packages that install an entry there,
each with the note whether the entry is a directory. It answers who installs a path as a file and
who declares it as a directory, and it finds the paths that packages of different names both
install as a file.
-/

namespace Depcheck

/-- A package that installs some entry, as a file or as a directory. -/
structure Owner where
  id : Nat
  isDir : Bool
deriving Repr, DecidableEq

/-- By id; the file entry of a package before its directory entry. -/
def Owner.le (a b : Owner) : Bool := decide (a.id < b.id) || (a.id == b.id && (!a.isDir || b.isDir))

/-- A path installed as a file by packages of different names. -/
structure FileConflict where
  path : String
  owners : List Nat
deriving Repr, DecidableEq

/-- The place of an entry: its directory, then its name. -/
abbrev Place := String × String

abbrev comparePlace : Place → Place → Ordering := compareLex (compareOn Prod.fst) (compareOn Prod.snd)

instance : Std.LawfulEqCmp comparePlace where
  compare_self := by intro a; simp [compareLex, compareOn]
  eq_of_compare := by
    intro a b h
    simp only [compareLex, compareOn, Ordering.then_eq_eq, Std.LawfulEqCmp.compare_eq_iff_eq] at h
    exact Prod.ext h.1 h.2

/-- Owners by place, and the number of entries that were added. -/
structure FileIndex where
  buckets : Std.TreeMap Place (List Owner) comparePlace := {}
  size : Nat := 0

namespace FileIndex

def addEntry (idx : FileIndex) (place : Place) (owner : Owner) : FileIndex where
  buckets := idx.buckets.alter place fun bucket => some (bucket.getD [] ++ [owner])
  size := idx.size + 1

/-- The directories of a file list that are to be indexed: all of them, or those listed. -/
def selectDirs (dirs : List Directory) : Option (List String) → List Directory
  | none => dirs
  | some only => dirs.filter fun d => only.contains d.name

/-- Adds the files of a package; with a list of directories, only those that lie there. -/
def addPackage (idx : FileIndex) (id : Nat) (p : Package) (only : Option (List String)) :
    FileIndex :=
  (FileList.entries ⟨selectDirs p.files.dirs only⟩).foldl
    (fun idx (dir, e) => idx.addEntry (dir, e.base) ⟨id, e.isDir⟩) idx

def finish (idx : FileIndex) : FileIndex :=
  { idx with buckets := idx.buckets.map fun _ owners => (owners.mergeSort Owner.le).eraseReps }

def isEmpty (idx : FileIndex) : Bool := idx.size == 0

def owners (idx : FileIndex) (place : Place) : List Owner := (idx.buckets[place]?).getD []

def fileOwners (idx : FileIndex) (path : String) : List Nat :=
  ((idx.owners (Path.split path)).filter (!·.isDir)).map Owner.id

/-- The packages that declare `path` as a directory; installing something below it does not
count. -/
def dirOwners (idx : FileIndex) (path : String) : List Nat :=
  ((idx.owners (Path.split (Path.normalize path))).filter (·.isDir)).map Owner.id

/-- The conflict at a place: at least two packages install it as a file, and not all of them have
the same name. Packages of one name never conflict with each other. -/
def conflictAt? (packages : Array Package) (place : Place) (owners : List Owner) :
    Option FileConflict :=
  let ids := (owners.filter (!·.isDir)).map Owner.id
  let names := ids.map fun id => (packages.getD id default).name
  if names.any fun n => n != names.headD "" then some ⟨Path.join place.1 place.2, ids⟩ else none

/-- All conflicts, in the order of their paths. -/
def conflicts (idx : FileIndex) (packages : Array Package) : List FileConflict :=
  (idx.buckets.toList.filterMap fun (place, owners) => conflictAt? packages place owners).mergeSort
    fun a b => decide (a.path ≤ b.path)

/-- Adding an entry changes one bucket, and that at its end. -/
theorem owners_addEntry (idx : FileIndex) (place other : Place) (owner : Owner) :
    (idx.addEntry place owner).owners other =
      if place = other then idx.owners place ++ [owner] else idx.owners other := by
  simp only [owners, addEntry, Std.TreeMap.getElem?_alter, Std.LawfulEqCmp.compare_eq_iff_eq]
  split <;> simp

theorem owners_finish (idx : FileIndex) (place : Place) :
    idx.finish.owners place = ((idx.owners place).mergeSort Owner.le).eraseReps := by
  simp only [owners, finish, Std.TreeMap.getElem?_map]
  cases idx.buckets[place]? with
  | none => simp [List.eraseReps, List.eraseRepsBy]
  | some _ => simp

end FileIndex

end Depcheck
