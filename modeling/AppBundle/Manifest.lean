import AppBundle.Document.Targeting

/-!
# Manifests

A manifest declares the modules of a bundle, the metadata files, the options of
sharding and a device. It is stored in a document without other fields.
-/

namespace AppBundle

open Document (Record)

/-- The part of a manifest on sharding. -/
structure ShardingSection where
  /-- The names of the dimensions of optimization, as they are written. -/
  dimensions : List String := []
  /-- Whether content of different languages is divided. -/
  splitByLanguage : Bool := true
  /-- Whether native libraries of 64-bit architectures are kept. -/
  generate64Bit : Bool := true
  deriving DecidableEq, Inhabited

/-- The part of a manifest on one module. -/
structure ModuleSection where
  /-- The name of the module. -/
  name : String
  /-- The directory of its files, relative to the manifest. -/
  path : String
  /-- Whether the module goes into the system image. -/
  fused : Bool := true
  deriving DecidableEq, Inhabited

/-- The content of a manifest. -/
structure Manifest where
  /-- The version of the form of the manifest. -/
  version : UInt32
  /-- The part on sharding. -/
  sharding : ShardingSection := {}
  /-- The device of the system image. -/
  device : Option Device := none
  /-- The source files of the metadata, by their paths in a package. -/
  metadata : OrderedMap String String := ∅
  /-- The modules. -/
  modules : List ModuleSection := []
  deriving DecidableEq

/-- The fields of the part on sharding. -/
def ShardingSection.record : Record :=
  { names := ["dimensions", "split_by_language", "generate_64_bit_shard"], extensible := false }

instance : Storable ShardingSection where
  toDocument s :=
    .table [("dimensions", toDocument s.dimensions),
      ("generate_64_bit_shard", toDocument s.generate64Bit),
      ("split_by_language", toDocument s.splitByLanguage)]
  ofDocument? format d := do
    let [dimensions, splitByLanguage, generate64Bit] ← d.fields? format ShardingSection.record
      | none
    return {
      dimensions := ← optional format [] dimensions
      splitByLanguage := ← optional format true splitByLanguage
      generate64Bit := ← optional format true generate64Bit }

/-- The fields of the part on one module. -/
def ModuleSection.record : Record :=
  { names := ["name", "path", "include_in_fusing"], extensible := false }

instance : Storable ModuleSection where
  toDocument m :=
    .table [("include_in_fusing", toDocument m.fused), ("name", toDocument m.name),
      ("path", toDocument m.path)]
  ofDocument? format d := do
    let [name, path, fused] ← d.fields? format ModuleSection.record | none
    return {
      name := ← required format name
      path := ← required format path
      fused := ← optional format true fused }

/-- The fields of a manifest. -/
def Manifest.record : Record :=
  { names := ["manifest_version", "sharding", "device", "metadata", "modules"]
    extensible := false }

instance : Storable Manifest where
  toDocument m :=
    .table [("device", toDocument m.device), ("manifest_version", toDocument m.version),
      ("metadata", toDocument m.metadata), ("modules", toDocument m.modules),
      ("sharding", toDocument m.sharding)]
  ofDocument? format d := do
    let [version, sharding, device, metadata, modules] ← d.fields? format Manifest.record | none
    return {
      version := ← required format version
      sharding := ← optional format {} sharding
      device := ← optional format none device
      metadata := ← optional format ∅ metadata
      modules := ← optional format [] modules }

end AppBundle
