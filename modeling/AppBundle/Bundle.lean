import AppBundle.AppModule
import AppBundle.BundleSpec
import AppBundle.Files.Access
import AppBundle.Toml.Reading

/-!
# Loading of bundles

A bundle is loaded from its manifest: the manifest is read and checked, and then
the files of all modules and the metadata files are read. Their paths start at the
directory of the manifest. The modules keep the order of their declaration.
-/

namespace AppBundle

open Files

/-- A checked manifest with the files that it declares. -/
structure Bundle where
  spec : BundleSpec
  /-- The modules in the order of their declaration. -/
  modules : List AppModule
  metadata : Metadata

/-- The module of a name. -/
def Bundle.module? (b : Bundle) (name : String) : Option AppModule :=
  b.modules.find? (·.name = name)

/-- The manifest of a text. -/
def Manifest.parse (text : String) : Except ManifestError Manifest :=
  match (Toml.read? text).bind (ofDocument? .toml) with
  | some manifest => .ok manifest
  | none => .error .malformed

/-- The text of a file. -/
def decodeText (content : ByteArray) : Except FileError String :=
  match String.fromUTF8? content with
  | some text => .ok text
  | none => .error .notText

variable {m : Type → Type} [Monad m]

/-- A file that was found below a directory. -/
structure FoundFile where
  /-- The names that lead to it from the directory, with slashes between them. -/
  relative : String
  /-- The path at which it can be read. -/
  path : String

/-- Whether a file comes before another one by the names that lead to it. -/
def FoundFile.before (a b : FoundFile) : Bool := (compare a.relative b.relative).isLE

/-- The files at a name of a directory, which has a path and some names that lead to it. Those
below another directory are found in some way; what is no file and no directory is left out. -/
def foundAt (below : (names : List String) → (path : String) → m (List FoundFile))
    (names : List String) (path : String) : String × NodeKind → m (List FoundFile)
  | (name, .directory) => below (names ++ [name]) (joinPath path name)
  | (name, .file) => return [⟨Text.join "/" (names ++ [name]), joinPath path name⟩]
  | (_, .other) => return []

variable [MonadFiles m]

/-- A file operation that is needed to load a bundle. -/
def reading {α : Type} (operation : ExceptT FileError m α) : ExceptT ManifestError m α :=
  operation.adapt .file

/-- The checked manifest in a file. -/
def readSpec (path : String) : ExceptT ManifestError m BundleSpec := do
  let text ← reading do decodeText (← readFile path)
  let manifest ← Manifest.parse text
  manifest.normalize

/-- Finds the files below a directory, which has a path and some names that lead to it. The path
gets longer with each level, so it is too long to be listed before that many levels run out as a
path can have bytes. -/
def collectFiles : (levels : Nat) → (names : List String) → (path : String) →
    ExceptT FileError m (List FoundFile)
  | 0, _, _ => throw .nameTooLong
  | levels + 1, names, path => do
    let found ← (← listNames path).mapM (foundAt (collectFiles levels) names path)
    return found.flatten

/-- A file that was found, with its content. -/
def readFound (file : FoundFile) : ExceptT FileError m Entry :=
  return { path := file.relative, content := ← readFile file.path }

/-- The files below a directory, in the order of their paths. All of them are found before the
first one is read. -/
def readEntries (path : String) : ExceptT FileError m (List Entry) := do
  let found ← collectFiles (Volume.maxPathSize + 1) [] path
  (found.mergeSort FoundFile.before).mapM readFound

/-- A module with its files. -/
def loadModule (start : String) (source : ModuleSource) : ExceptT ManifestError m AppModule := do
  let path := joinPath start source.path
  unless ← (isDirectory path : m Bool) do throw (.missingDirectory path)
  return { name := source.name, entries := ← reading (readEntries path), fused := source.fused }

/-- A metadata file with its path in a package. -/
def loadMetadata (start : String) (file : MetadataSource) :
    ExceptT ManifestError m (String × ByteArray) :=
  return (file.path, ← reading (readFile (joinPath start file.source)))

/-- The directory at which the paths of a manifest start. -/
def manifestDirectory (path : String) : String := (parentPath? path).getD "."

/-- Loads a bundle from its manifest. -/
def loadBundle (path : String) : ExceptT ManifestError m Bundle := do
  let spec ← readSpec path
  let start := manifestDirectory path
  let modules ← spec.modules.mapM (loadModule start)
  let metadata ← spec.metadata.mapM (loadMetadata start)
  return { spec, modules, metadata := .ofList metadata }

end AppBundle
