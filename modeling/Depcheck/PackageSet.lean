import Depcheck.Config
import Depcheck.Marking

/-!
# Package sets

A package set holds packages, a state for each, and, once it is prepared, the indexes and the last
verification. Adding a package drops both until the set is prepared again. Preparing puts the
packages into order, by name and the newest first, drops duplicates, and verifies; the ids change
and all marks are gone.
-/

namespace Depcheck

/-- What a prepared set knows about its packages. -/
structure Analysis where
  index : Index
  run : Verification

/-- A set of packages. -/
structure PackageSet where
  config : Config
  platform : Oracle
  packages : Array Package := #[]
  states : Array PackageState := #[]
  /-- The directories that required paths refer to. -/
  dependencyDirs : List String := []
  analysis : Option Analysis := none

namespace PackageSet

/-- The empty set of a configuration. -/
def ofConfig (config : Config) : Except Error PackageSet := do
  config.validate.mapError .invalidConfig
  let platform ← config.platform.build.mapError .malformedCapability
  pure { config, platform }

def size (s : PackageSet) : Nat := s.packages.size

def isEmpty (s : PackageSet) : Bool := s.packages.isEmpty

/-- Adds a package, whose id is the number of packages before it. -/
def add (s : PackageSet) (p : Package) : PackageSet :=
  { s with packages := s.packages.push p, states := s.states.push {}, analysis := none }

def addAll (s : PackageSet) (ps : List Package) : PackageSet := ps.foldl add s

def ids (s : PackageSet) : List Nat := List.range s.packages.size

def package (s : PackageSet) (id : Nat) : Package := s.packages.getD id default

def state (s : PackageSet) (id : Nat) : PackageState := s.states.getD id {}

/-- The text that names a package in reports. -/
def idText (s : PackageSet) (id : Nat) : String := (s.package id).idText

def find (s : PackageSet) (name : String) : List Nat :=
  s.ids.filter fun id => (s.package id).name == name

/-- The newest of some packages, the last one of equals. -/
def newest? (s : PackageSet) (ids : List Nat) : Option Nat :=
  ids.foldl (fun best id =>
    match best with
    | none => some id
    | some b => if (s.package b).compareEvr (s.package id) == .gt then some b else some id) none

/-- The package that a text refers to: the first one with this identity, with or without its
architecture, or else the newest one of this name. -/
def lookupPackage (s : PackageSet) (text : String) : Except Error Nat :=
  match s.ids.find? fun id => (s.package id).idText == text || (s.package id).nevr == text with
  | some id => .ok id
  | none =>
    match s.newest? (s.find text) with
    | some id => .ok id
    | none => .error (.packageNotFound text)

/-- Is `later` left out after `kept`? With `unique`, one package of a name is enough. -/
def isRepeat (unique : Bool) (kept later : Package) : Bool :=
  if unique then later.name == kept.name
  else later.compareNameEvr kept == .eq && later.arch == kept.arch

def arrange (unique : Bool) (packages : List Package) : List Package :=
  (packages.mergeSort fun p q => (p.compareNewestFirst q).isLE).eraseRepsBy (isRepeat unique)

/-- What the resolution of requirements looks at. -/
def context (s : PackageSet) (index : Index) : Context where
  packages := s.packages
  index
  platform := s.platform
  manager := s.config.manager
  strict := s.config.strict

def verifyWith (s : PackageSet) (index : Index) : PackageSet :=
  let (run, states) := (s.context index).verify s.config.passes s.states
  { s with states, analysis := some ⟨index, run⟩ }

/-- Puts the packages into order, drops repeats, and verifies the set. -/
def prepare (s : PackageSet) : PackageSet :=
  let packages := (arrange s.config.uniqueNames s.packages.toList).toArray
  let dirs := Depcheck.dependencyDirs packages
  let only := if s.config.passes.fileConflicts then none else some dirs
  { s with
    packages
    states := Array.replicate packages.size {}
    dependencyDirs := dirs
    analysis := none }.verifyWith (.build packages only)

def analyzed (s : PackageSet) : Except Error Analysis :=
  match s.analysis with
  | none => .error .notPrepared
  | some a => .ok a

def run (s : PackageSet) : Except Error Verification := s.analyzed.map Analysis.run

def verify (s : PackageSet) : Except Error PackageSet := s.analyzed.map fun a => s.verifyWith a.index

/-- The packages that provide a name, their own names included, or install a path of this name as
a file or as a directory. -/
def whatProvides (s : PackageSet) (name : String) : Except Error (List Nat) :=
  s.analyzed.map fun a =>
    let ids := a.index.provided.ids name
    if Path.isAbsolute name then
      ascending (ids ++ a.index.files.fileOwners name ++ a.index.files.dirOwners name)
    else ids

def whatRequires (s : PackageSet) (name : String) : Except Error (List Nat) :=
  s.analyzed.map fun a => a.index.required.ids name

def whatObsoletes (s : PackageSet) (name : String) : Except Error (List Nat) :=
  s.analyzed.map fun a => a.index.obsoleted.ids name

/-- The packages that meet a requirement, the preferred one first; none of them means that it is
met without a package. -/
def matchRequirement (s : PackageSet) (req : Capability) : Except Error (List Nat) := do
  let a ← s.analyzed
  match ((s.context a.index).resolve req).1 with
  | .builtin => .ok []
  | .matched ids => .ok ids
  | .absent | .mismatch => .error (.packageNotFound req.text)

def tainted (s : PackageSet) : List Nat := s.ids.filter fun id => (s.state id).unmet

def obsoleted (s : PackageSet) : List Nat := s.ids.filter fun id => (s.state id).obsoleted

def marked (s : PackageSet) : List Nat := s.ids.filter fun id => (s.state id).isMarked

/-- Marks a selection with what it needs, in place of all earlier marks. -/
def mark (s : PackageSet) (selection : List Nat) : Except Error (Marking × PackageSet) :=
  s.run.map fun v =>
    let (marking, states) := v.graph.mark s.states selection
    (marking, { s with states })

/-- The packages that break when `id` is removed. -/
def dependents (s : PackageSet) (id : Nat) : Except Error (List Nat) :=
  s.run.map fun v => v.graph.dependentsClosure id

def summary (s : PackageSet) : String :=
  let prepared := s.analysis.isSome
  s!"PkgSet \x7b packages: {s.size}, indexed: {prepared}, verified: {prepared} \x7d"

end PackageSet

end Depcheck
