import AppBundle.Splitter.ApexImages
import AppBundle.Splitter.Densities
import AppBundle.Splitter.Languages
import AppBundle.Splitter.NativeLibraries

/-!
# Splitters

A splitter divides untargeted splits along one dimension and leaves targeted
ones alone, so that no split is ever targeted in two dimensions.
-/

namespace AppBundle

/-- The ways to divide a split. -/
inductive Splitter where
  /-- By the architecture of native libraries, with or without 64-bit ones. -/
  | nativeLibraries (keep64Bit : Bool)
  /-- By the screen density of resources. -/
  | densityResources
  /-- By the language of resources. -/
  | languageResources
  /-- By the language of assets. -/
  | languageAssets
  /-- By the sets of architectures of system images. -/
  | apexImages
  deriving DecidableEq

/-- The parts into which a splitter divides a split. -/
def Splitter.split (splitter : Splitter) (s : Split) : Except PathError (List Split) :=
  if s.targeting.isUntargeted then
    match splitter with
    | nativeLibraries keep64Bit => s.byLibraryAbi keep64Bit
    | densityResources => .ok s.byDensity
    | languageResources => .ok (s.byLanguage resourceLanguage?)
    | languageAssets => .ok (s.byLanguage assetLanguage?)
    | apexImages => s.byImageAbis
  else .ok [s]

/-- A targeted split is left alone. -/
theorem Splitter.split_of_targeted {s : Split} (h : s.targeting.isUntargeted = false)
    (splitter : Splitter) : splitter.split s = .ok [s] := by
  simp [Splitter.split, h]

end AppBundle
