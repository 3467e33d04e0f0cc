import AppBundle.Device
import AppBundle.ShardError
import AppBundle.Split

/-!
# Shards

A shard is a list of splits that make up one package. The splits of all modules
are grouped into shards: one for each pair of an architecture class and a density
class, each with all master and language splits. The main statement is that the
classes cover the splits.
-/

namespace AppBundle

/-- The splits that make up one package. -/
abbrev Shard := List Split

/-- A restriction of architecture and density splits to those for one device. -/
structure DeviceFilter where
  /-- The device. -/
  device : Device
  /-- The decision which targetings serve the device. -/
  matcher : Matcher := Targeting.serves

/-- Whether a split passes a restriction; without one every split does. -/
def passes (filter : Option DeviceFilter) (s : Split) : Bool :=
  filter.all fun f => f.matcher s.targeting f.device

/-- The splits in classes of the same targeting, in the order in which the
targetings occur first. Without splits there is one class, which is empty. -/
def targetingClasses (splits : List Split) : List (List Split) :=
  match (splits.map Split.targeting).eraseDups with
  | [] => [[]]
  | targetings => targetings.map fun t => splits.filter (·.targeting = t)

/-- The universes that are not empty, each once, in the order of first
occurrence. -/
def distinctUniverses {α : Type} [Ord α] [DecidableEq α] (universes : List (OrderedSet α)) :
    List (OrderedSet α) :=
  (universes.filter (!·.isEmpty)).eraseDups

/-- Whether a split goes into no shard at all. -/
def Split.isLeftOut (s : Split) : Bool :=
  !s.isMaster && !s.targeting.hasAbi && !s.targeting.hasDensity && !s.targeting.hasLanguage

/-- The master splits; there must be some, and all must be untargeted. -/
def masterSplits (splits : List Split) : Except ShardError (List Split) :=
  match splits.filter Split.isMaster with
  | [] => .error (.internal .noMaster)
  | masters =>
    match masters.find? (!·.targeting.isUntargeted) with
    | some s => .error (.internal (.targetedMaster s.targeting s.moduleName))
    | none => .ok masters

/-- The architecture splits that pass a restriction. -/
def abiSplits (splits : List Split) (filter : Option DeviceFilter) : List Split :=
  splits.filter fun s => s.targeting.hasAbi && passes filter s

/-- The density splits that pass a restriction. -/
def densitySplits (splits : List Split) (filter : Option DeviceFilter) : List Split :=
  splits.filter fun s => s.targeting.hasDensity && passes filter s

/-- The language splits. -/
def languageSplits (splits : List Split) : List Split :=
  splits.filter (·.targeting.hasLanguage)

/-- The shards of some splits: for each class of architecture splits and each
class of density splits the masters, the language splits and the two classes. -/
def groupSplits (splits : List Split) (filter : Option DeviceFilter) :
    Except ShardError (List Shard) := do
  if splits.any fun s => s.targeting.hasAbi && s.targeting.hasDensity then
    throw (.internal .abiAndDensity)
  let masters ← masterSplits splits
  let common := masters ++ languageSplits splits
  let byAbi := abiSplits splits filter
  let byDensity := densitySplits splits filter
  let densities := distinctUniverses (byDensity.map (·.targeting.density.choices))
  if 1 < densities.length then throw (.internal (.densityMismatch densities))
  let abis := distinctUniverses (byAbi.map (·.targeting.abi.choices))
  if 1 < abis.length then throw (.abiMismatch abis)
  return (targetingClasses byAbi).flatMap fun abiClass =>
    (targetingClasses byDensity).map fun densityClass => common ++ abiClass ++ densityClass

/-- The shards of a module of system images: its master split with each of the
splits for a set of architectures. -/
def groupApexSplits (splits : List Split) : Except ShardError (List Shard) :=
  let images := splits.filter (·.targeting.hasMultiAbi)
  match splits.filter (!·.targeting.hasMultiAbi) with
  | [master] =>
    if master.targeting.isUntargeted then .ok (images.map fun s => [master, s])
    else .error (.internal (.targetedApexMaster master.targeting))
  | others => .error (.internal (.apexMasterCount others.length))

/-- A split is in the classes if it is in the list. -/
theorem mem_targetingClasses {splits : List Split} {s : Split} :
    (∃ c ∈ targetingClasses splits, s ∈ c) ↔ s ∈ splits := by
  unfold targetingClasses
  split
  · rename_i h
    have hnil : splits = [] := by
      cases splits with
      | nil => rfl
      | cons t ts => simp [List.eraseDups_cons] at h
    simp [hnil]
  · simp only [List.mem_map]
    constructor
    · rintro ⟨c, ⟨t, _, rfl⟩, hs⟩
      exact (List.mem_filter.mp hs).1
    · intro hs
      refine ⟨_, ⟨s.targeting, ?_, rfl⟩, List.mem_filter.mpr ⟨hs, by simp⟩⟩
      exact List.mem_eraseDups.mpr (List.mem_map_of_mem hs)

end AppBundle
