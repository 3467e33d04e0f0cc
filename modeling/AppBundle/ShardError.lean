import AppBundle.PathError
import AppBundle.Targeting

/-!
# Refused bundles

The causes for which no packages can be made from a bundle, and the wording of
each. A defect is a broken assumption of the library itself; all other causes
lie with the bundle.
-/

namespace AppBundle

/-- A broken assumption of the library itself. -/
inductive Defect where
  /-- Splits of two modules are merged. -/
  | mixedModules (first second : String)
  /-- A path of a module occurs with two contents. -/
  | twoContents (path moduleName : String)
  /-- A module does not have exactly one master split. -/
  | masterCount (moduleName : String) (count : Nat)
  /-- A split is targeted in two dimensions that packages are made for. -/
  | abiAndDensity
  /-- There is no master split. -/
  | noMaster
  /-- A master split is targeted. -/
  | targetedMaster (targeting : Targeting) (moduleName : String)
  /-- Modules are divided for different densities. -/
  | densityMismatch (universes : List (OrderedSet Density))
  /-- There is no module. -/
  | noModules
  /-- There is not exactly one shard for a device. -/
  | deviceShardCount (count : Nat)
  /-- A module of system images does not have exactly one master split. -/
  | apexMasterCount (count : Nat)
  /-- The master split of a module of system images is targeted. -/
  | targetedApexMaster (targeting : Targeting)
  deriving DecidableEq

/-- The cause for which no packages are made. -/
inductive ShardError where
  /-- Modules have native libraries for different architectures. -/
  | abiMismatch (universes : List (OrderedSet Abi))
  /-- A path of a module is refused. -/
  | refusedPath (cause : PathError)
  /-- Two entries of a package have one path and different contents. -/
  | conflict (path : String) (targeting : Targeting)
  /-- An assumption of the library is broken. -/
  | internal (defect : Defect)
  deriving DecidableEq

/-- Whether the cause lies with the library and not with the bundle. -/
def ShardError.isInternal : ShardError → Bool
  | internal _ => true
  | abiMismatch _ | refusedPath _ | conflict _ _ => false

/-- A set in braces. -/
def bracedSet (names : List String) : String := "\x7b" ++ Text.join ", " names ++ "\x7d"

/-- The wording of the defect. -/
def Defect.message : Defect → String
  | mixedModules first second =>
    "Cannot merge splits of different modules: '" ++ first ++ "' and '" ++ second ++ "'."
  | twoContents path moduleName =>
    "Entry '" ++ path ++ "' of module '" ++ moduleName ++
      "' appears twice with different content."
  | masterCount moduleName count =>
    "Expected one master split in module '" ++ moduleName ++ "', got " ++ toString count ++ "."
  | abiAndDensity => "No split is expected to have both ABI and screen density targeting."
  | noMaster => "Expecting at least one master split, got 0."
  | targetedMaster targeting moduleName =>
    "Master splits are expected to have default targeting, got '" ++ targeting.label ++
      "' in module '" ++ moduleName ++ "'."
  | densityMismatch universes =>
    "Density splits are expected to cover the same densities, got [" ++
      Text.join ", " (universes.map fun u => bracedSet (u.toList.map Density.title)) ++ "]."
  | noModules => "At least one module is required."
  | deviceShardCount count =>
    "Expected exactly one shard for the device, got " ++ toString count ++ "."
  | apexMasterCount count =>
    "Expected exactly one master split in an APEX module, got " ++ toString count ++ "."
  | targetedApexMaster targeting =>
    "Master splits are expected to have default targeting, got '" ++ targeting.label ++ "'."

/-- The wording of the cause. -/
def ShardError.message : ShardError → String
  | abiMismatch universes =>
    "Modules for standalone APKs must cover the same ABIs when optimizing for ABI. " ++
      "Found ABI sets: " ++
      Text.join ", " (universes.map fun u => bracedSet (u.toList.map Abi.name))
  | refusedPath cause => "splitter error: " ++ cause.message
  | conflict path targeting =>
    "conflicting content for entry '" ++ path ++ "' while fusing shard " ++ targeting.label
  | internal defect => "internal invariant violated: " ++ defect.message

/-- The wording of the cause after a word on where it lies. -/
def ShardError.report (e : ShardError) : String :=
  (if e.isInternal then "internal error: " else "invalid bundle: ") ++ e.message

end AppBundle
