import AppBundle.Generate
import AppBundle.Package.System

/-!
# Sharding of bundles

From the modules of a bundle to its packages: standalone packages for all
configurations, the packages for one device, and the packages of a module of
system images.
-/

namespace AppBundle

/-- The splits of all modules, in the order of the modules. -/
def bundleSplits (modules : List AppModule) (dimensions : OrderedSet Dimension)
    (options : ShardingOptions) : Except ShardError (List Split) := do
  if modules.isEmpty then throw (.internal .noModules)
  return (← modules.mapM (·.splits dimensions options)).flatten

/-- The shards of a bundle, restricted to one device or for all configurations. -/
def planShards (modules : List AppModule) (dimensions : OrderedSet Dimension)
    (options : ShardingOptions) (filter : Option DeviceFilter) :
    Except ShardError (List Shard) := do
  groupSplits (← bundleSplits modules dimensions options) filter

/-- The standalone packages of a bundle. -/
def shardBundle (modules : List AppModule) (dimensions : OrderedSet Dimension)
    (options : ShardingOptions) (metadata : Metadata) : Except ShardError (List Package) := do
  (← planShards modules dimensions options none).mapM (Package.fuse · metadata)

/-- The names of the modules that go into a system image. -/
def fusedModules (modules : List AppModule) : OrderedSet String :=
  .ofList ((modules.filter (·.fused)).map AppModule.name)

/-- The packages of a bundle for one device. -/
def shardForDevice (modules : List AppModule) (dimensions : OrderedSet Dimension)
    (options : ShardingOptions) (metadata : Metadata) (filter : DeviceFilter) :
    Except ShardError SystemPackages := do
  match ← planShards modules dimensions options (some filter) with
  | [shard] => SystemPackages.ofShard shard (fusedModules modules) metadata filter.device
  | shards => throw (.internal (.deviceShardCount shards.length))

/-- The packages of a module of system images, one for each set of architectures. -/
def shardApex (apex : AppModule) (options : ShardingOptions) :
    Except ShardError (List Package) := do
  let shards ← groupApexSplits (← apex.splits ∅ options)
  shards.mapM (Package.fuse · ∅)

/-- How many splits of a bundle go into no shard at all. -/
def leftOutCount (modules : List AppModule) (dimensions : OrderedSet Dimension)
    (options : ShardingOptions) : Nat :=
  match bundleSplits modules dimensions options with
  | .ok splits => (splits.filter Split.isLeftOut).length
  | .error _ => 0

end AppBundle
