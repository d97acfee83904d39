import Depcheck.Capability

/-!
# Errors

What can go wrong for a caller, by cause. Unmet requirements, foreign providers and loops are no
errors: they are problems that a verification reports.
-/

namespace Depcheck

open Version (InvalidVersion)

/-- A list of capabilities in a package record. -/
inductive RecordField where
  | provides
  | requires
  | requiresPre
  | requiresPreun
  | conflicts
  | obsoletes
deriving Repr, DecidableEq

def RecordField.name : RecordField → String
  | .provides => "provides"
  | .requires => "requires"
  | .requiresPre => "requires_pre"
  | .requiresPreun => "requires_preun"
  | .conflicts => "conflicts"
  | .obsoletes => "obsoletes"

inductive PackageFault where
  | missingName
  | blankInName
  | badVersion (version : String)
  | badRelease
  | badCapability (field : RecordField) (e : MalformedCapability)
  | relativePath (path : String)
deriving Repr, DecidableEq

def PackageFault.message : PackageFault → String
  | .missingName => "missing name"
  | .blankInName => "whitespace in name"
  | .badVersion version => s!"invalid version '{version}'"
  | .badRelease => "invalid release"
  | .badCapability field e => s!"{field.name}: {e.message}"
  | .relativePath path => s!"relative path '{path}'"

/-- A package record that is no package, under the name it gives. -/
structure InvalidPackage where
  name : String
  fault : PackageFault
deriving Repr, DecidableEq

def InvalidPackage.message (e : InvalidPackage) : String :=
  let name := if e.name = "" then "<unnamed>" else e.name
  s!"Invalid package '{name}': {e.fault.message}"

inductive InvalidConfig where
  | noManager
  | badProvide (text : String) (e : MalformedCapability)
deriving Repr, DecidableEq

def InvalidConfig.reason : InvalidConfig → String
  | .noManager => "pm_package must not be empty"
  | .badProvide text e => s!"platform provides '{text}': {e.message}"

/-- Anything that can go wrong for a caller. -/
inductive Error where
  /-- A file cannot be read. -/
  | unreadable
  /-- A text is no TOML document of the expected shape. -/
  | badToml
  /-- A text is no JSON document of the expected shape. -/
  | badJson
  | invalidVersion (e : InvalidVersion)
  | malformedCapability (e : MalformedCapability)
  | invalidPackage (e : InvalidPackage)
  | invalidConfig (e : InvalidConfig)
  /-- No package answers to this name or requirement. -/
  | packageNotFound (text : String)
  /-- The package set was queried before it was prepared. -/
  | notPrepared
deriving Repr, DecidableEq

def Error.message : Error → String
  | .unreadable => "I/O error"
  | .badToml => "Failed to parse TOML"
  | .badJson => "JSON error"
  | .invalidVersion e => e.message
  | .malformedCapability e => e.message
  | .invalidPackage e => e.message
  | .invalidConfig e => s!"Invalid configuration: {e.reason}"
  | .packageNotFound text => s!"Package not found: {text}"
  | .notPrepared => "Package set has not been set up"

end Depcheck
