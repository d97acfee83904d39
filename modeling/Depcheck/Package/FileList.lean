import Depcheck.Package.Path

/-!
# File lists

The paths that a package installs, grouped by directory. Directories stand in the order of their
first use, and so do the entries of a directory; neither repeats. A path that ends in a slash is
entered as a directory, so one name can stand twice in a directory: once as a file and once as a
directory.
-/

namespace Depcheck

structure FileEntry where
  base : String
  isDir : Bool
deriving Repr, DecidableEq

/-- The entries that a package installs in one directory. -/
structure Directory where
  name : String
  entries : List FileEntry
deriving Repr, DecidableEq

structure FileList where
  dirs : List Directory := []
deriving Repr, DecidableEq

/-- Appends an entry that is not there yet. -/
def Directory.add (d : Directory) (e : FileEntry) : Directory :=
  if e ∈ d.entries then d else { d with entries := d.entries ++ [e] }

namespace FileList

/-- Enters `e` into the directory called `dir`, which comes last when it is new. -/
def addTo (dir : String) (e : FileEntry) : List Directory → List Directory
  | [] => [⟨dir, [e]⟩]
  | d :: rest => if d.name = dir then d.add e :: rest else d :: addTo dir e rest

/-- Adds a path. The root and paths made of slashes only name no entry and are passed over. -/
def add (files : FileList) (path : String) : FileList :=
  let (dir, base) := Path.split path
  if base = "" then files else ⟨addTo dir ⟨base, Path.namesDirectory path⟩ files.dirs⟩

def ofPaths (paths : List String) : FileList := paths.foldl add {}

def entries (files : FileList) : List (String × FileEntry) :=
  files.dirs.flatMap fun d => d.entries.map fun e => (d.name, e)

def size (files : FileList) : Nat := files.entries.length

def isEmpty (files : FileList) : Bool := files.dirs.isEmpty

end FileList

end Depcheck
