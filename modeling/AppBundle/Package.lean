import AppBundle.Blake3
import AppBundle.OrderedMap
import AppBundle.Package.Dex

/-!
# Packages

A package is a fused shard: the entries of all its splits, the metadata of the
bundle, and an identifier made from all of them. The main statement is that the
paths of a package are strictly increasing.
-/

namespace AppBundle

/-- A fused shard. -/
structure Package where
  /-- The digest of the targeting and the entries. -/
  id : String
  /-- What the package serves. -/
  targeting : Targeting
  /-- The modules of its splits. -/
  modules : List String
  /-- The files, by their paths. -/
  files : OrderedMap String ByteArray

/-- The files of a package as entries, in the order of their paths. -/
def Package.entries (p : Package) : List Entry := p.files.toList.map fun (path, content) =>
  { path, content }

/-- The first twelve bytes of an identifier. -/
def shortenId (id : String) : String := Text.takeBytes 12 id

/-- The identifier in short. -/
def Package.shortId (p : Package) : String := shortenId p.id

/-- The number of bytes of all files. -/
def Package.totalSize (p : Package) : Nat := 
  p.entries.foldl (fun size e => size + e.content.size) 0

namespace Selection

variable {α : Type} [Ord α] [Std.TransOrd α] [Std.LawfulEqOrd α] [DecidableEq α]

/-- Adds the values of another selection; what is served is no alternative. -/
def absorb (s t : Selection α) : Selection α :=
  let values := s.values ∪ t.values
  ⟨values, (s.alternatives ∪ t.alternatives).filter (· ∉ values)⟩

end Selection

/-- Adds the values of another targeting in all dimensions. -/
def Targeting.absorb (s t : Targeting) : Targeting :=
  { abi := s.abi.absorb t.abi
    density := s.density.absorb t.density
    language := s.language.absorb t.language
    multiAbi := s.multiAbi.absorb t.multiAbi }

/-- The targeting of all splits together. -/
def Targeting.combine (targetings : List Targeting) : Targeting :=
  targetings.foldl Targeting.absorb .untargeted

/-- The path of the manifest of an application. -/
def appManifest : String := "manifest/AndroidManifest.xml"

/-- The module whose manifest a package keeps: the base module if it has one,
else the first one that has. -/
def manifestOwner (shard : Shard) : Option String :=
  (modulesBaseFirst shard).find? fun m =>
    shard.any fun s => s.moduleName = m && s.entries.any (·.path = appManifest)

/-- The entries of a shard other than dex files, without manifests of other
modules than the owner. -/
def commonEntries (shard : Shard) : List Entry :=
  shard.flatMap fun s => s.entries.filter fun e =>
    e.category ≠ .dex && (e.path ≠ appManifest || manifestOwner shard = some s.moduleName)

/-- The directory of the metadata files in a package. -/
def metadataDirectory : String := "BUNDLE-METADATA"

/-- The metadata files as entries of a package. -/
def metadataEntries (metadata : Metadata) : List Entry :=
  metadata.toList.map fun (path, content) => { path := metadataDirectory ++ "/" ++ path, content }

/-- Adds an entry to the files of a package. Fails if there is a file of this path
with another content. -/
def addFile (files : OrderedMap String ByteArray) (e : Entry) :
    Except String (OrderedMap String ByteArray) :=
  match files.get? e.path with
  | none => .ok (files.insert e.path e.content)
  | some content => if content = e.content then .ok files else .error e.path

/-- The line of an entry in the text that identifies a package. -/
def Entry.line (e : Entry) : String := e.path ++ " " ++ Blake3.hex e.content ++ "\n"

/-- The text that identifies a package: its targeting and a line for each entry. -/
def identity (targeting : Targeting) (entries : List Entry) : String :=
  targeting.label ++ "\n" ++ Text.join "" (entries.map Entry.line)

namespace Package

/-- A package of some files. -/
def ofFiles (targeting : Targeting) (modules : List String)
    (files : OrderedMap String ByteArray) : Package :=
  let entries := files.toList.map fun (path, content) => { path, content }
  { id := Blake3.hex (identity targeting entries).toUTF8, targeting, modules, files }

@[simp] theorem targeting_ofFiles (t : Targeting) (modules : List String)
    (files : OrderedMap String ByteArray) : (ofFiles t modules files).targeting = t := rfl

@[simp] theorem modules_ofFiles (t : Targeting) (modules : List String)
    (files : OrderedMap String ByteArray) : (ofFiles t modules files).modules = modules := rfl

@[simp] theorem files_ofFiles (t : Targeting) (modules : List String)
    (files : OrderedMap String ByteArray) : (ofFiles t modules files).files = files := rfl

@[simp] theorem entries_ofFiles (t : Targeting) (modules : List String)
    (files : OrderedMap String ByteArray) :
    (ofFiles t modules files).entries = files.toList.map fun (path, content) => { path, content } :=
  rfl

/-- Fuses a shard, with some metadata files. -/
def fuse (shard : Shard) (metadata : Metadata) : Except ShardError Package :=
  let targeting := Targeting.combine (shard.map Split.targeting)
  let entries := commonEntries shard ++ packageDex shard ++ metadataEntries metadata
  match entries.foldlM addFile ∅ with
  | .ok files => .ok (ofFiles targeting (shardModules shard) files)
  | .error path => .error (.conflict path targeting)

/-- The paths of a package are strictly increasing. -/
theorem paths_increasing (p : Package) :
    (p.entries.map Entry.path).Pairwise (compare · · = .lt) := by
  have h := p.files.increasing
  rwa [entries, List.map_map]

end Package

end AppBundle
