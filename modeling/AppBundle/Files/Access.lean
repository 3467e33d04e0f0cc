import AppBundle.Files.Volume

/-!
# Access to files

The operations on files that the library needs, apart from the place where the
files are. A volume offers them, and so does the system on which a program runs.
-/

namespace AppBundle.Files

/-- The computations that can read and write files. -/
class MonadFiles (m : Type → Type) where
  /-- The content of a file. -/
  readFile : String → ExceptT FileError m ByteArray
  /-- The names in a directory, each with the kind of what it stands for. -/
  listNames : String → ExceptT FileError m (List (String × NodeKind))
  /-- Whether a path leads to a directory. -/
  isDirectory : String → m Bool
  /-- Makes a directory with an existing directory above it. -/
  createDirectory : String → ExceptT FileError m Unit
  /-- Writes a file with some content. -/
  writeFile : String → ByteArray → ExceptT FileError m Unit

export MonadFiles (readFile listNames isDirectory createDirectory writeFile)

/-- The rest of a computation after a volume has been changed, or not. -/
def Volume.commit (change : Volume → Except FileError Volume) :
    ExceptT FileError (StateM Volume) Unit :=
  ExceptT.mk fun v =>
    match change v with
    | .ok changed => (.ok (), changed)
    | .error cause => (.error cause, v)

instance : MonadFiles (StateM Volume) where
  readFile path := ExceptT.mk fun v => (v.readFile path, v)
  listNames path := ExceptT.mk fun v => (v.listNames path, v)
  isDirectory path := fun v => (v.isDirectory path, v)
  createDirectory path := Volume.commit (·.create path (.directory []))
  writeFile path content := Volume.commit (·.writeFile path content)

variable {m : Type → Type} [Monad m] [MonadFiles m]

/-- Makes a directory if there is none. -/
def ensureDirectory (path : String) : ExceptT FileError m Unit :=
  tryCatch (createDirectory path) fun cause => do
    unless ← (isDirectory path : m Bool) do throw cause

/-- Makes the first of some directories; each of the others is above the one before. -/
def ensureBelow : List String → ExceptT FileError m Unit
  | [] => throw (.system "failed to create whole tree")
  | path :: above =>
    if path = "" then pure ()
    else
      tryCatch (createDirectory path) fun cause => do
        if cause = .notFound then
          ensureBelow above
          ensureDirectory path
        else unless ← (isDirectory path : m Bool) do throw cause

/-- Makes a directory and all directories above it that are missing. -/
def createDirectories (path : String) : ExceptT FileError m Unit := ensureBelow (ancestors path)

end AppBundle.Files
