import AppBundle.PathError
import AppBundle.Splitter.Division

/-!
# Native libraries by architecture

A native library lies in `lib/<abi>/`. The libraries of each architecture form
a split whose alternatives are the other architectures that occur.
-/

namespace AppBundle

/-- The architecture of a path `lib/<abi>/...`; a file directly under `lib/`, or
elsewhere, has none. -/
def libraryAbi (path : String) : Except PathError (Option Abi) :=
  match Text.after? "lib/" path with
  | none => .ok none
  | some rest =>
    match Text.cut? '/' rest with
    | none => .ok none
    | some (directory, _) =>
      match Abi.ofName? directory with
      | some abi => .ok (some abi)
      | none => .error (.unknownAbiDirectory path)

/-- The entries with their architectures; fails at the first path in a directory
that names no architecture. -/
def labelLibraries (entries : List Entry) : Except PathError (List (Entry × Option Abi)) :=
  entries.mapM fun e => do return (e, ← libraryAbi e.path)

/-- One split per architecture, after the split of all that is no native
library. Without `keep64Bit` the libraries of 64-bit architectures are dropped. -/
def Split.byLibraryAbi (s : Split) (keep64Bit : Bool) : Except PathError (List Split) := do
  let labelled ← labelLibraries s.entries
  let kept := labelled.filter fun (_, abi?) => keep64Bit || !abi?.any Abi.is64Bit
  return s.divide kept .forAbi

end AppBundle
