import Depcheck.Capability
import Depcheck.Package.FileList

/-!
# Packages

A package has a name, a full version and perhaps an architecture; it provides and requires
capabilities, declares conflicts, and installs files. Records that make other packages obsolete
stand among the conflicts and carry a flag of their own. Every package also provides its own name
at its own version.
-/

namespace Depcheck

/-- A package with everything it declares. -/
structure Package where
  name : String
  evr : Evr
  arch : Option String := none
  provides : List Capability := []
  requires : List Capability := []
  /-- The declared conflicts, obsoletes records included. -/
  conflicts : List Capability := []
  files : FileList := {}
deriving DecidableEq

instance : Inhabited Package := ⟨{ name := "", evr := { version := "" } }⟩

namespace Package

def conflictFlags : CapabilityFlags := { conflict := true }

/-- The flags of a record that makes packages obsolete; it is a conflict as well. -/
def obsoletesFlags : CapabilityFlags := { conflict := true, obsoletes := true }

def addProvided (p : Package) (c : Capability) : Package := { p with provides := p.provides ++ [c] }

def addRequired (p : Package) (c : Capability) : Package := { p with requires := p.requires ++ [c] }

def addConflict (p : Package) (c : Capability) : Package :=
  { p with conflicts := p.conflicts ++ [c.withFlags conflictFlags] }

def addObsolete (p : Package) (c : Capability) : Package :=
  { p with conflicts := p.conflicts ++ [c.withFlags obsoletesFlags] }

def addFile (p : Package) (path : String) : Package := { p with files := p.files.add path }

/-- Writes `name-[epoch:]version[-release]`. -/
def nevr (p : Package) : String := s!"{p.name}-{p.evr.text}"

/-- Writes `name-[epoch:]version[-release][.arch]`, the text by which reports name a package. -/
def idText (p : Package) : String :=
  match p.arch with
  | none => p.nevr
  | some arch => s!"{p.nevr}.{arch}"

/-- The package's name at exactly its version, as a provided capability. -/
def selfCapability (p : Package) (h : p.name ≠ "") : Capability :=
  .ofParts p.name h (some (.exactly p.evr)) {}

def satisfiesByName (p : Package) (req : Capability) : Bool :=
  p.name == req.name && req.constraint.all (·.isSatisfiedBy p.evr)

/-- Does the package satisfy `req` by its own name and version or by a capability it provides?
Its files are not looked at. -/
def satisfies (p : Package) (req : Capability) (strict : Bool) : Bool :=
  p.satisfiesByName req || p.provides.any fun c => req.isSatisfiedBy c strict

def compareName (p q : Package) : Ordering := compare p.name q.name

def compareEvr (p q : Package) : Ordering := p.evr.compare q.evr

def compareNameEvr (p q : Package) : Ordering := (p.compareName q).then (p.compareEvr q)

/-- Compares two architectures; a missing one comes first. -/
def compareArch : Option String → Option String → Ordering
  | none, none => .eq
  | none, some _ => .lt
  | some _, none => .gt
  | some a, some b => compare a b

/-- The order of a prepared set: by name, the newest version first, then by architecture. -/
def compareNewestFirst (p q : Package) : Ordering :=
  ((p.compareName q).then (q.compareEvr p)).then (compareArch p.arch q.arch)

/-- Are both for the same architecture, or both for none in particular? -/
def sameArch (p q : Package) : Bool := p.arch == q.arch

end Package

end Depcheck
