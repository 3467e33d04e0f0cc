import AppBundle.Manifest
import AppBundle.ManifestError
import AppBundle.Text.Blank

/-!
# Checked manifests

A bundle specification is a manifest that has been checked: all names are known,
trimmed and different. The main statement is that a manifest of
another version is refused whatever else it holds.
-/

namespace AppBundle

open Document (Record)

/-- A metadata file: its path in a package, and the file it is read from. -/
structure MetadataSource where
  path : String
  source : String
  deriving DecidableEq, Inhabited

/-- A module: its name, and the directory its files are read from. -/
structure ModuleSource where
  name : String
  path : String
  fused : Bool
  deriving DecidableEq, Inhabited

/-- A checked manifest. -/
structure BundleSpec where
  version : UInt32
  dimensions : OrderedSet Dimension
  options : ShardingOptions
  device : Option Device
  metadata : List MetadataSource
  /-- The modules in the order of their declaration. -/
  modules : List ModuleSource
  deriving DecidableEq

namespace Manifest

/-- The modules with trimmed names and paths. Fails at the first name that is
empty or has been used before. -/
def checkModules (used : List String) :
    List ModuleSection → Except ManifestError (List ModuleSource)
  | [] => .ok []
  | m :: ms =>
    let name := Text.trim m.name
    if name = "" then .error .emptyModuleName
    else if name ∈ used then .error (.duplicateModule name)
    else do
      let rest ← checkModules (name :: used) ms
      return { name, path := Text.trim m.path, fused := m.fused } :: rest

/-- A device must have a screen and an architecture. -/
def checkDevice : Option Device → Except ManifestError Unit
  | none => .ok ()
  | some d =>
    if d.screenDensity = 0 then .error (.invalidDevice .zeroDensity)
    else if d.supportedAbis.isEmpty then .error (.invalidDevice .noAbis)
    else .ok ()

/-- The path of a metadata file in a package: without blanks at the ends, and
without slashes at the beginning. -/
def metadataPath (path : String) : String :=
  String.ofList ((Text.trim path).toList.dropWhile (· = '/'))

/-- A metadata file with its path in a package, which must not be empty. -/
def checkMetadata (file : String × String) : Except ManifestError MetadataSource :=
  let path := metadataPath file.1
  if path = "" then .error .emptyMetadataPath
  else .ok { path, source := Text.trim file.2 }

/-- The dimensions that some names stand for. -/
def checkDimensions (names : List String) : Except ManifestError (OrderedSet Dimension) :=
  match names.mapM Dimension.parse with
  | .ok dimensions => .ok (.ofList dimensions)
  | .error cause => .error (.unknownDimension cause)

/-- Checks a manifest. -/
def normalize (m : Manifest) : Except ManifestError BundleSpec := do
  if m.version ≠ 1 then throw (.unsupportedVersion m.version)
  if m.modules.isEmpty then throw .noModules
  let dimensions ← checkDimensions m.sharding.dimensions
  let modules ← checkModules [] m.modules
  checkDevice m.device
  let metadata ← m.metadata.toList.mapM checkMetadata
  return {
    version := m.version
    dimensions
    options :=
      { splitByLanguage := m.sharding.splitByLanguage, generate64Bit := m.sharding.generate64Bit }
    device := m.device
    metadata
    modules }

/-- A manifest of another version is refused whatever else it holds. -/
theorem normalize_of_version_ne {m : Manifest} (h : m.version ≠ 1) :
    m.normalize = .error (.unsupportedVersion m.version) := by
  simp [normalize, h, throw, throwThe, MonadExceptOf.throw, bind, Except.bind]

end Manifest

/-- The fields of a metadata file. -/
def MetadataSource.record : Record := { names := ["path", "source"], extensible := true }

instance : Storable MetadataSource where
  toDocument m := .table [("path", toDocument m.path), ("source", toDocument m.source)]
  ofDocument? format d := do
    let [path, source] ← d.fields? format MetadataSource.record | none
    return { path := ← required format path, source := ← required format source }

/-- The fields of a module. -/
def ModuleSource.record : Record :=
  { names := ["name", "path", "include_in_fusing"], extensible := true }

instance : Storable ModuleSource where
  toDocument m :=
    .table [("include_in_fusing", toDocument m.fused), ("name", toDocument m.name),
      ("path", toDocument m.path)]
  ofDocument? format d := do
    let [name, path, fused] ← d.fields? format ModuleSource.record | none
    return {
      name := ← required format name
      path := ← required format path
      fused := ← required format fused }

/-- The fields of a checked manifest. -/
def BundleSpec.record : Record :=
  { names := ["manifest_version", "dimensions", "options", "device", "metadata", "modules"]
    extensible := true }

instance : Storable BundleSpec where
  toDocument s :=
    .table [("device", toDocument s.device), ("dimensions", toDocument s.dimensions),
      ("manifest_version", toDocument s.version), ("metadata", toDocument s.metadata),
      ("modules", toDocument s.modules), ("options", toDocument s.options)]
  ofDocument? format d := do
    let [version, dimensions, options, device, metadata, modules] ←
      d.fields? format BundleSpec.record | none
    return {
      version := ← required format version
      dimensions := ← required format dimensions
      options := ← required format options
      device := ← optional format none device
      metadata := ← required format metadata
      modules := ← required format modules }

end AppBundle
