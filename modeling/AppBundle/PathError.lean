/-!
# Refused paths

The causes for which the path of a module entry is refused when a module is
divided, and the wording of each.
-/

namespace AppBundle

/-- The cause for which a path is refused. -/
inductive PathError where
  /-- A native library in a directory that names no architecture. -/
  | unknownAbiDirectory (path : String)
  /-- A system image whose name is no list of architectures. -/
  | malformedApexImage (path : String)
  deriving DecidableEq

/-- The wording of the cause. -/
def PathError.message : PathError → String
  | unknownAbiDirectory path =>
    "unknown ABI directory in native library path '" ++ path ++ "'"
  | malformedApexImage path =>
    "malformed APEX image name '" ++ path ++ "', expected apex/<abi>[.<abi>...].img"

end AppBundle
