import Depcheck.Config
import Depcheck.Document.Json.Reader
import Depcheck.Document.Toml.Reader
import Depcheck.Document.Toml.Writer
import Depcheck.Package.Record

/-!
# Universes and configurations as documents

A universe is a list of package records, and a configuration a record of settings. Both are read
from either format, and a configuration is written in TOML. In JSON a record written as a list must
not be longer than its fields; in TOML what is too much is passed over.
-/

namespace Depcheck.Document

inductive Format where
  | json
  | toml
deriving Repr, DecidableEq

namespace Format

def parse? : Format → String → Option Value
  | .json => Json.parse?
  | .toml => Toml.parse?

/-- May a record written as a list have members beyond its fields? -/
def surplus : Format → Bool
  | .json => false
  | .toml => true

def error : Format → Error
  | .json => .badJson
  | .toml => .badToml

end Format

end Depcheck.Document

namespace Depcheck

open Document (Value Fields FieldNames Format)

/-- Names that fields have in documents, each field under this one name only. -/
def Document.FieldNames.ofNames (names : List String) : FieldNames := names.map fun n => (n, [])

namespace PackageRecord

def fieldNames : FieldNames :=
  .ofNames ["name", "epoch", "version", "release", "arch", "provides", "requires", "requires_pre",
    "requires_preun", "conflicts", "obsoletes", "files"]

def ofValue? (surplus : Bool) (v : Value) : Option PackageRecord := do
  let fields ← Fields.ofValue? surplus fieldNames v
  let name ← fields.get? "name" Value.text? ""
  let epoch ← fields.get? "epoch" (Value.optional? Value.word?) none
  let version ← fields.get? "version" Value.text? ""
  let release ← fields.get? "release" (Value.optional? Value.text?) none
  let arch ← fields.get? "arch" (Value.optional? Value.text?) none
  let provides ← fields.get? "provides" Value.texts? []
  let requires ← fields.get? "requires" Value.texts? []
  let requiresPre ← fields.get? "requires_pre" Value.texts? []
  let requiresPreun ← fields.get? "requires_preun" Value.texts? []
  let conflicts ← fields.get? "conflicts" Value.texts? []
  let obsoletes ← fields.get? "obsoletes" Value.texts? []
  let files ← fields.get? "files" Value.texts? []
  pure { name, epoch, version, release, arch, provides, requires, requiresPre, requiresPreun,
         conflicts, obsoletes, files }

end PackageRecord

def packageRecords? (surplus : Bool) : Value → Option (List PackageRecord)
  | .list items => items.mapM (PackageRecord.ofValue? surplus)
  | _ => none

def universeOfValue? (surplus : Bool) (v : Value) : Option (List PackageRecord) := do
  let fields ← Fields.ofValue? surplus [("packages", ["package"])] v
  fields.get? "packages" (packageRecords? surplus) []

def parseUniverse (format : Format) (content : String) : Except Error (List Package) :=
  match (format.parse? content).bind (universeOfValue? format.surplus) with
  | none => .error format.error
  | some records => (records.mapM PackageRecord.toPackage).mapError .invalidPackage

namespace PlatformConfig

def ofValue? (surplus : Bool) (v : Value) : Option PlatformConfig := do
  let fields ← Fields.ofValue? surplus (.ofNames ["rpmlib_defaults", "provides"]) v
  let stock ← fields.get? "rpmlib_defaults" Value.bool? true
  let provides ← fields.get? "provides" Value.texts? []
  pure { stock, provides }

end PlatformConfig

namespace Config

def fieldNames : FieldNames :=
  .ofNames ["strict", "unique_names", "verify_conflicts", "verify_file_conflicts", "verify_order",
    "pm_package", "platform"]

def ofValue? (surplus : Bool) (v : Value) : Option Config := do
  let fields ← Fields.ofValue? surplus fieldNames v
  let strict ← fields.get? "strict" Value.bool? true
  let uniqueNames ← fields.get? "unique_names" Value.bool? false
  let conflicts ← fields.get? "verify_conflicts" Value.bool? true
  let fileConflicts ← fields.get? "verify_file_conflicts" Value.bool? false
  let order ← fields.get? "verify_order" Value.bool? true
  let manager ← fields.get? "pm_package" Value.text? "rpm"
  let platform ← fields.get? "platform" (PlatformConfig.ofValue? surplus) {}
  pure { strict, uniqueNames, passes := { conflicts, fileConflicts, order }, manager, platform }

def parse (content : String) : Except Error Config :=
  match (Format.toml.parse? content).bind (ofValue? Format.toml.surplus) with
  | none => .error .badToml
  | some c => (c.validate.mapError .invalidConfig).map fun _ => c

/-- Writes a configuration, field by field, the platform's in a table of their own. -/
def toToml (c : Config) : String :=
  let line (name value : String) := name ++ " = " ++ value ++ "\n"
  line "strict" (Document.Toml.writeBool c.strict) ++
  line "unique_names" (Document.Toml.writeBool c.uniqueNames) ++
  line "verify_conflicts" (Document.Toml.writeBool c.passes.conflicts) ++
  line "verify_file_conflicts" (Document.Toml.writeBool c.passes.fileConflicts) ++
  line "verify_order" (Document.Toml.writeBool c.passes.order) ++
  line "pm_package" (Document.Toml.quote c.manager) ++
  "\n[platform]\n" ++
  line "rpmlib_defaults" (Document.Toml.writeBool c.platform.stock) ++
  line "provides" (Document.Toml.writeTexts c.platform.provides)

end Config

end Depcheck
