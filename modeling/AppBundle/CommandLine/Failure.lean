import AppBundle.Archive.Writing
import AppBundle.ManifestError
import AppBundle.ShardError

/-!
# Failed commands

The causes for which a command fails, the wording of each, and the exit codes that
tell the kinds of causes apart. The main statement is that no failed command has
the exit code of success.
-/

namespace AppBundle.CommandLine

/-- The cause for which a command fails. -/
inductive Failure where
  /-- The bundle cannot be loaded. -/
  | manifest (cause : ManifestError)
  /-- The bundle has no module of the name. -/
  | noModule (name : String)
  /-- The manifest at the path has no device. -/
  | noDevice (path : String)
  /-- No packages can be made from the bundle. -/
  | sharding (cause : ShardError)
  /-- The directory for packages cannot be made. -/
  | creating (directory : String) (cause : FileError)
  /-- The directory for man pages cannot be made. -/
  | creatingPages (cause : FileError)
  /-- A package cannot be stored in an archive. -/
  | packing (id : String) (cause : Archive.RefusedName)
  /-- A file cannot be written. -/
  | writing (path : String) (cause : FileError)

namespace Failure

/-- The wording of the cause. -/
def message : Failure → String
  | manifest cause => "manifest error: " ++ cause.message
  | noModule name => "manifest error: no module named '" ++ name ++ "'"
  | noDevice path =>
    "manifest error: system sharding requires a [device] section in " ++ path
  | sharding cause => cause.report
  | creating directory cause => "failed to create " ++ directory ++ ": " ++ cause.message
  | creatingPages cause => "failed to create dir: " ++ cause.message
  | packing id cause => "failed to pack " ++ id ++ ": " ++ cause.message
  | writing path cause => "failed to write " ++ path ++ ": " ++ cause.message

/-- The exit code of the program. -/
def exitCode : Failure → UInt8
  | creating _ _ | creatingPages _ | packing _ _ | writing _ _ => 1
  | manifest _ | noModule _ | noDevice _ => 2
  | sharding cause => if cause.isInternal then 4 else 3

/-- The exit code of a failed command is not that of success. -/
theorem exitCode_ne_zero (f : Failure) : f.exitCode ≠ 0 := by
  cases f with
  | sharding cause =>
    simp only [exitCode]
    split <;> decide
  | _ => simp only [exitCode]; decide

end Failure

end AppBundle.CommandLine
