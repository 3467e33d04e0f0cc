import AppBundle.Dimension
import AppBundle.Files.FileError

/-!
# Refused manifests

The causes for which a bundle cannot be loaded from its manifest, and the
wording of each.
-/

namespace AppBundle

/-- What is wrong with the device of a manifest. -/
inductive DeviceFault where
  | zeroDensity
  | noAbis
  deriving DecidableEq

/-- The wording of the fault. -/
def DeviceFault.message : DeviceFault → String
  | zeroDensity => "screen_density must be positive"
  | noAbis => "supported_abis must not be empty"

/-- The cause for which a bundle cannot be loaded. -/
inductive ManifestError where
  /-- A file cannot be read. -/
  | file (cause : FileError)
  /-- The manifest does not have the form of a manifest. -/
  | malformed
  | unsupportedVersion (version : UInt32)
  | noModules
  | emptyModuleName
  | duplicateModule (name : String)
  | unknownDimension (cause : UnknownDimension)
  | invalidDevice (fault : DeviceFault)
  /-- There is no directory with the files of a module. -/
  | missingDirectory (path : String)
  | emptyMetadataPath
  deriving DecidableEq

/-- The wording of the cause. -/
def ManifestError.message : ManifestError → String
  | file cause => "failed to read manifest file: " ++ cause.message
  | malformed => "failed to parse manifest"
  | unsupportedVersion version =>
    "unsupported manifest_version: " ++ toString version.toNat ++ ", expected 1"
  | noModules => "manifest declares no modules"
  | emptyModuleName => "module name must not be empty"
  | duplicateModule name => "duplicate module name: '" ++ name ++ "'"
  | unknownDimension cause => cause.message
  | invalidDevice fault => "invalid device spec: " ++ fault.message
  | missingDirectory path => "module directory not found: " ++ path
  | emptyMetadataPath => "metadata path must not be empty"

end AppBundle
