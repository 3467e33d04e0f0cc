import AppBundle.Package

/-!
# System images

On the system image of a device the modules that are meant for it are fused; what
else the device needs goes into additional packages, one for each module and
targeting.
-/

namespace AppBundle

/-- The packages for the system partition of one device. -/
structure SystemPackages where
  /-- The fused package. -/
  image : Package
  /-- The packages of what is kept out of it. -/
  additional : List Package

/-- All packages, the fused one first. -/
def SystemPackages.all (s : SystemPackages) : List Package := s.image :: s.additional

/-- Whether a split goes into the system image: its module is fused, and if it has
a language, that is one of the device. -/
def Split.isFused (s : Split) (fused : OrderedSet String) (device : Device) : Bool :=
  s.moduleName ∈ fused && s.targeting.servesLanguage device

/-- The splits in classes of the same module and targeting, in the order of their
first occurrence. -/
def apartClasses (splits : List Split) : List Shard :=
  let keys := (splits.map fun s => (s.moduleName, s.targeting)).eraseDups
  keys.map fun key => splits.filter fun s => (s.moduleName, s.targeting) = key

/-- The packages of a shard for one device. -/
def SystemPackages.ofShard (shard : Shard) (fused : OrderedSet String) (metadata : Metadata)
    (device : Device) : Except ShardError SystemPackages := do
  let (inside, apart) := shard.partition (·.isFused fused device)
  let image ← Package.fuse inside metadata
  let additional ← (apartClasses apart).mapM (Package.fuse · ∅)
  return { image, additional }

end AppBundle
