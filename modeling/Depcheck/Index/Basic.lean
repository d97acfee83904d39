import Depcheck.Index.File

/-!
# The indexes of a package list

All indexes are built together from one list of packages, whose positions are the ids: who
provides a name (its own name included), who requires it, who makes it obsolete, and who installs
a path. The file index can be restricted to the directories that requirements refer to.
-/

namespace Depcheck

/-- The indexes of a list of packages. -/
structure Index where
  provided : NameIndex := {}
  required : NameIndex := {}
  obsoleted : NameIndex := {}
  files : FileIndex := {}

namespace Package

/-- The names that a package provides, its own name first. -/
def providedNames (p : Package) : List String := p.name :: p.provides.map Capability.name

def requiredNames (p : Package) : List String := p.requires.map Capability.name

def obsoletedNames (p : Package) : List String :=
  (p.conflicts.filter (·.flags.obsoletes)).map Capability.name

end Package

namespace Index

def addPackage (only : Option (List String)) (idx : Index) (p : Package) (id : Nat) : Index where
  provided := idx.provided.addAll p.providedNames id
  required := idx.required.addAll p.requiredNames id
  obsoleted := idx.obsoleted.addAll p.obsoletedNames id
  files := idx.files.addPackage id p only

def finish (idx : Index) : Index where
  provided := idx.provided.finish
  required := idx.required.finish
  obsoleted := idx.obsoleted.finish
  files := idx.files.finish

/-- The indexes of `packages`; with a list of directories, only files that lie there are
indexed. -/
def build (packages : Array Package) (only : Option (List String)) : Index :=
  (packages.toList.zipIdx.foldl (fun (idx : Index) (p, id) => idx.addPackage only p id) {}).finish

end Index

/-- The directories that a required path refers to: the one it lies in, unless its name is empty,
and the path itself, which may name a directory. -/
def dirsOfPath (path : String) : List String :=
  (if (Path.split path).1 = "" then [] else [(Path.split path).1]) ++ [Path.normalize path]

/-- The directories that the required paths of all packages refer to, in ascending order. -/
def dependencyDirs (packages : Array Package) : List String :=
  ((packages.toList.flatMap fun p =>
      (p.requires.filter Capability.isPath).flatMap fun r => dirsOfPath r.name).mergeSort
    fun a b => decide (a ≤ b)).eraseReps

end Depcheck
