import Depcheck.Capability

/-!
# Capabilities of the platform

The package manager satisfies some requirements itself: its `rpmlib(...)` features and what the
user lists besides. The list is kept sorted by name, so that the capabilities of one name stand
together. An empty list means that nothing is known, and then everything counts as provided.

A list is one way to decide what needs no package. The resolution of requirements takes any oracle.
-/

namespace Depcheck

/-- Decides which requirements are met without a package. Where nothing is known, all of them are. -/
structure Oracle where
  provides : Capability → Bool := fun _ => true

structure Platform where
  caps : List Capability := []
deriving DecidableEq

namespace Platform

/-- The features of the package manager, each with the version and release that introduced it. -/
def stockFeatures : List (String × String × String) :=
  [("rpmlib(BuiltinLuaScripts)", "4.2.2", "1"),
   ("rpmlib(CaretInVersions)", "4.15.0", "1"),
   ("rpmlib(CompressedFileNames)", "3.0.4", "1"),
   ("rpmlib(ConcurrentAccess)", "4.1", "1"),
   ("rpmlib(DynamicBuildRequires)", "4.15.0", "1"),
   ("rpmlib(ExplicitPackageProvide)", "4.0", "1"),
   ("rpmlib(FileCaps)", "4.6.1", "1"),
   ("rpmlib(FileDigests)", "4.6.0", "1"),
   ("rpmlib(HeaderLoadSortsTags)", "4.0.1", "1"),
   ("rpmlib(LargeFiles)", "4.12.0", "1"),
   ("rpmlib(PartialHardlinkSets)", "4.0.4", "1"),
   ("rpmlib(PayloadFilesHavePrefix)", "4.0", "1"),
   ("rpmlib(PayloadIsBzip2)", "3.0.5", "1"),
   ("rpmlib(PayloadIsLzma)", "4.4.6", "1"),
   ("rpmlib(PayloadIsXz)", "5.2", "1"),
   ("rpmlib(PayloadIsZstd)", "5.4.18", "1"),
   ("rpmlib(RichDependencies)", "4.12.0", "1"),
   ("rpmlib(ScriptletExpansion)", "4.9.0", "1"),
   ("rpmlib(ScriptletInterpreterArgs)", "4.0.3", "1"),
   ("rpmlib(TildeInVersions)", "4.10.0", "1"),
   ("rpmlib(VersionedDependencies)", "3.0.3", "1")]

def stockCaps : List Capability :=
  stockFeatures.filterMap fun (name, version, release) =>
    Capability.ofParts? name (some (.exactly { version, release := some release })) {}

/-- Sorts a list of capabilities by name and version and drops what stands beside its equal. -/
def ofCaps (caps : List Capability) : Platform where
  caps := (caps.mergeSort fun a b => (a.compareNameEvr b).isLE).eraseReps

def ofTexts (stock : Bool) (extra : List String) : Except MalformedCapability Platform := do
  let more ← extra.mapM Capability.parse
  pure (ofCaps ((if stock then stockCaps else []) ++ more))

/-- Does the platform itself satisfy `req`? Only the capabilities of its name are looked at. -/
def provides (p : Platform) (req : Capability) : Bool :=
  p.caps.isEmpty ||
    ((p.caps.dropWhile fun c => decide (c.name < req.name)).takeWhile fun c =>
      c.name == req.name).any fun c => req.isSatisfiedBy c true

end Platform

instance : Coe Platform Oracle := ⟨fun p => ⟨p.provides⟩⟩

end Depcheck
