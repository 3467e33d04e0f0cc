import AppBundle.CommandLine.Run

/-!
# The program

The command line program, on the files of the system on which it runs.
-/

namespace AppBundle

open Files

/-- The number of an error, which some operations of the system give negated. -/
def errorNumber (code : UInt32) : UInt32 := min code (0 - code)

/-- The cause of a failed operation of the system. -/
def FileError.ofSystem : IO.Error → FileError
  | .noFileOrDirectory .. => .notFound
  | .alreadyExists .. => .alreadyExists
  | .inappropriateType _ code _ => if errorNumber code = 21 then .isDirectory else .notDirectory
  | cause@(.invalidArgument _ code _) =>
    if errorNumber code = 36 then .nameTooLong
    else if errorNumber code = 40 then .tooManyLinks
    else .system (toString cause)
  | cause => .system (toString cause)

/-- An operation of the system that can fail. -/
def onSystem {α : Type} (operation : IO α) : ExceptT FileError IO α :=
  ExceptT.mk do
    match ← operation.toBaseIO with
    | .ok a => return .ok a
    | .error cause => return .error (.ofSystem cause)

/-- A path as the directory of an entry. -/
def directoryOf (path : String) : IO.FS.DirEntry := { root := path, fileName := "" }

/-- The kind of what an entry of a directory stands for. Links are not followed. -/
def kindOf (entry : IO.FS.DirEntry) : IO NodeKind := do
  match (← entry.path.symlinkMetadata).type with
  | .dir => return .directory
  | .file => return .file
  | _ => return .other

/-- The names in a directory of the system, each with the kind of what it stands for. -/
def namesIn (path : String) : IO (List (String × NodeKind)) := do
  (← (directoryOf path).root.readDir).toList.mapM fun entry => do
    return (entry.fileName, ← kindOf entry)

/-- Whether a path leads to a directory of the system. -/
def leadsToDirectory (path : String) : IO Bool := do
  match ← (directoryOf path).root.metadata.toBaseIO with
  | .ok found => return found.type == .dir
  | .error _ => return false

instance : MonadFiles IO where
  readFile path := onSystem (IO.FS.readBinFile path)
  listNames path := onSystem (namesIn path)
  isDirectory := leadsToDirectory
  createDirectory path := onSystem (IO.FS.createDir path)
  writeFile path content := onSystem (IO.FS.writeBinFile path content)

end AppBundle

/-- Runs the program with the texts of its command line. -/
def main (texts : List String) : IO UInt32 := do
  let stdout ← IO.getStdout
  let outcome ← AppBundle.CommandLine.run (← stdout.isTty) texts
  stdout.putStr outcome.stdout
  (← IO.getStderr).putStr outcome.stderr
  return outcome.exitCode.toUInt32
