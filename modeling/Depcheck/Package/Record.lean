import Depcheck.Error
import Depcheck.Package.Basic

/-!
# Package records

A record describes a package as a document does: all of it in text form. `toPackage` checks the
fields in order and builds the package. Requirements for installation and for removal are filed
among the requirements and carry a flag that says so; a path with a slash at its end is marked as
a directory.
-/

namespace Depcheck

/-- A package as a document describes it. -/
structure PackageRecord where
  name : String := ""
  epoch : Option UInt32 := none
  version : String := ""
  release : Option String := none
  arch : Option String := none
  provides : List String := []
  requires : List String := []
  /-- Needed before the package is installed. -/
  requiresPre : List String := []
  /-- Needed until the package is removed. -/
  requiresPreun : List String := []
  conflicts : List String := []
  obsoletes : List String := []
  files : List String := []
deriving Repr, DecidableEq

namespace PackageRecord

def invalid (r : PackageRecord) (fault : PackageFault) : InvalidPackage := ⟨r.name, fault⟩

def readCapability (r : PackageRecord) (field : RecordField) (flags : CapabilityFlags)
    (text : String) : Except InvalidPackage Capability :=
  match Capability.parse text with
  | .error e => .error (r.invalid (.badCapability field e))
  | .ok c =>
    let dir := c.isPath && Path.namesDirectory c.name
    .ok (c.withFlags (flags.union { dir }))

def checkIdentity (r : PackageRecord) : Except InvalidPackage Unit :=
  if Text.trim r.name.toList = [] then .error (r.invalid .missingName)
  else if r.name.toList.any Text.isBlank then .error (r.invalid .blankInName)
  else if r.version = "" ∨ '-' ∈ r.version.toList then
    .error (r.invalid (.badVersion r.version))
  else if r.release.any fun release => release == "" || release.toList.contains '-' then
    .error (r.invalid .badRelease)
  else .ok ()

def checkFiles (r : PackageRecord) : List String → Except InvalidPackage Unit
  | [] => .ok ()
  | path :: rest =>
    if Path.isAbsolute path then r.checkFiles rest else .error (r.invalid (.relativePath path))

def toPackage (r : PackageRecord) : Except InvalidPackage Package := do
  r.checkIdentity
  let provides ← r.provides.mapM (r.readCapability .provides {})
  let requires ← r.requires.mapM (r.readCapability .requires {})
  let pre ← r.requiresPre.mapM (r.readCapability .requiresPre { prereq := true })
  let preun ← r.requiresPreun.mapM (r.readCapability .requiresPreun { prereqUn := true })
  let conflicts ← r.conflicts.mapM (r.readCapability .conflicts Package.conflictFlags)
  let obsoletes ← r.obsoletes.mapM (r.readCapability .obsoletes Package.obsoletesFlags)
  r.checkFiles r.files
  pure
    { name := r.name
      evr := ⟨r.epoch, r.version, r.release⟩
      arch := r.arch
      provides
      requires := requires ++ pre ++ preun
      conflicts := conflicts ++ obsoletes
      files := .ofPaths r.files }

end PackageRecord

end Depcheck
