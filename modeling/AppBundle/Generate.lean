import AppBundle.Merge
import AppBundle.Pipeline

/-!
# Splits of a module

A module is divided along the dimensions of optimization: each kind of content
goes through its pipeline, and the parts that serve the same targeting are
merged. One of the splits is the master split.
-/

namespace AppBundle

/-- Takes over a refused path as the cause. -/
def ofPathError {α : Type} (r : Except PathError α) : Except ShardError α :=
  r.mapError ShardError.refusedPath

/-- Takes over a defect as the cause. -/
def ofDefect {α : Type} (r : Except Defect α) : Except ShardError α :=
  r.mapError ShardError.internal

namespace AppModule

/-- The parts of all kinds of content, in the order of merging. -/
def parts (m : AppModule) (dimensions : OrderedSet Dimension) (options : ShardingOptions) :
    Except PathError (List Split) := do
  let libraries ← (Pipeline.nativeLibraries dimensions options).split (m.split .nativeLibraries)
  let resources ← (Pipeline.resources dimensions options).split (m.split .resources)
  let images ← Pipeline.apexImages.split (m.split .apexImages)
  let assets ← (Pipeline.assets dimensions options).split (m.split .assets)
  return libraries ++ resources ++ images ++ assets ++ [m.split .dex, m.split .root]

/-- The splits of a module, without names. -/
def splits (m : AppModule) (dimensions : OrderedSet Dimension) (options : ShardingOptions) :
    Except ShardError (List Split) := do
  let parts ← ofPathError (m.parts dimensions options)
  let merged ← ofDefect (mergeSameTargeting parts)
  let splits := merged.map Split.unnamed
  let masters := (splits.filter Split.isMaster).length
  if masters = 1 then return splits
  else throw (.internal (.masterCount m.name masters))

end AppModule

end AppBundle
