import AppBundle.Proofs.Plan
import AppBundle.Proofs.SplitEntries

/-!
# The entries of a module in a shard

What a shard holds of one module depends on the splits of that module only. In
the shard at a point of the grid it is the entries for all packages, the native
libraries of the architecture of the point, and the variants for its density
class.
-/

namespace AppBundle

/-- The entries that a shard holds of the module of a name. -/
def carriedEntries (shard : Shard) (name : String) : List Entry :=
  (shard.filter (·.moduleName = name)).flatMap Split.entries

namespace AppModule

/-- The entries of a module for a point of the grid. -/
def entriesAt (m : AppModule) (dimensions : OrderedSet Dimension)
    (point : Option Abi × Option Density) : List Entry :=
  m.entries.filter (m.isCommon dimensions) ++
    point.1.elim [] (fun a => m.entries.filter (·.abi? = some a)) ++
    point.2.elim [] m.densityEntries

end AppModule

variable {modules : List AppModule} {dimensions : OrderedSet Dimension}
variable {options : ShardingOptions} {splits own : List Split} {m : AppModule}

/-- Selecting the splits of a module and making a shard commute. -/
theorem filter_moduleName_shardAt (splits : List Split) (name : String)
    (point : Option Abi × Option Density) :
    (shardAt splits point).filter (·.moduleName = name) =
      shardAt (splits.filter (·.moduleName = name)) point := by
  simp only [shardAt, languageSplits, classAt, List.filter_append, List.filter_filter,
    Bool.and_comm]

/-- The splits of a bundle that bear the name of a module are the splits of that module. -/
theorem filter_moduleName_bundleSplits (hnames : (modules.map AppModule.name).Nodup)
    (h : bundleSplits modules dimensions options = .ok splits) (hm : m ∈ modules) :
    m.splits dimensions options = .ok (splits.filter (·.moduleName = m.name)) := by
  obtain ⟨_, splitsOf, hall, rfl⟩ := exists_of_bundleSplits h
  have hname (n : AppModule) (hn : n ∈ modules) (s : Split) (hs : s ∈ splitsOf n) :
      decide (s.moduleName = m.name) = decide (n.name = m.name) := by
    rw [((AppModule.isDivision_of_splits (hall n hn)).isPart s hs).moduleName]
  rw [filter_flatMap_eq hname, filter_eq_singleton hnames hm, List.flatMap_singleton]
  exact hall m hm

namespace AppModule

variable (h : m.splits dimensions options = .ok own)
include h

/-- The masters and the language splits of a module are its splits for all packages. -/
theorem masters_languages_perm :
    (own.filter Split.isMaster ++ languageSplits own).Perm
      (own.filter (·.targeting.isCommon)) := by
  have hdivision := isDivision_of_splits h
  have hmasters : own.filter Split.isMaster =
      (own.filter (·.targeting.isCommon)).filter Split.isMaster := by
    rw [List.filter_filter]
    refine List.filter_congr fun s hs => ?_
    rw [(hdivision.isPart s hs).isMaster, Targeting.isUntargeted_eq, Targeting.isCommon]
    cases s.targeting.hasAbi <;> cases s.targeting.hasDensity <;>
      cases s.targeting.hasMultiAbi <;> simp
  have hlanguages : languageSplits own =
      (own.filter (·.targeting.isCommon)).filter (!·.isMaster) := by
    rw [languageSplits, List.filter_filter]
    refine List.filter_congr fun s hs => ?_
    rw [(hdivision.isPart s hs).isMaster]
    have htargeting := (hdivision.isPart s hs).targeting
    generalize s.targeting = t at htargeting
    cases htargeting <;> simp [Targeting.isUntargeted_eq, Targeting.isCommon]
  rw [hmasters, hlanguages]
  exact List.filter_append_perm _ _

/-- A module has the native libraries of an architecture of the bundle in one split, if it has
any. -/
theorem entries_classAt_abi (hpaths : (m.entries.map Entry.path).Nodup) {a : Abi}
    (hdim : .abi ∈ dimensions) (hkeeps : options.keeps a) :
    (classAt Targeting.abi own (some a)).flatMap Split.entries =
      m.entries.filter (·.abi? = some a) := by
  have htargetings := targetings_classAt Targeting.abi_forAbi (isDivision_of_splits h).forAbi a
  rw [← abiSplits_none, classAt_abiSplits] at htargetings
  by_cases ha : a ∈ m.abis dimensions options
  · rw [if_pos ha] at htargetings
    obtain ⟨s, hs, ht⟩ := List.map_eq_singleton_iff.mp htargetings
    have hmem : s ∈ own := mem_of_filter_eq_singleton hs
    rw [hs, List.flatMap_singleton, entries_of_forAbi hpaths h ha hmem ht]
  · rw [if_neg ha, List.map_eq_nil_iff] at htargetings
    rw [htargetings, List.flatMap_nil]
    refine (List.filter_eq_nil_iff.mpr fun e he habi => ha ?_).symm
    exact mem_abis.mpr ⟨hdim, hkeeps, e, he, of_decide_eq_true habi⟩

/-- A module has its variants for a density class in one split, if it has any. -/
theorem entries_classAt_density {d : Density} (hdim : .screenDensity ∈ dimensions) :
    (classAt Targeting.density own (some d)).flatMap Split.entries = m.densityEntries d := by
  have htargetings :=
    targetings_classAt Targeting.density_forDensity (isDivision_of_splits h).forDensity d
  rw [← densitySplits_none, classAt_densitySplits] at htargetings
  by_cases hvariants : m.variants = []
  · have hnone : d ∉ m.densities dimensions := by simp [densities, hvariants]
    rw [if_neg hnone, List.map_eq_nil_iff] at htargetings
    rw [htargetings, densityEntries, hvariants]
    rfl
  · have hd : d ∈ m.densities dimensions := by
      rw [densities, if_pos ⟨hdim, by simpa using hvariants⟩, OrderedSet.mem_ofList]
      exact Density.mem_all d
    rw [if_pos hd] at htargetings
    obtain ⟨s, hs, ht⟩ := List.map_eq_singleton_iff.mp htargetings
    have hmem : s ∈ own := mem_of_filter_eq_singleton hs
    rw [hs, List.flatMap_singleton, entries_of_forDensity h hd hmem ht]

end AppModule

/-- A point of the grid has an architecture only if native libraries are divided, and then one
that is kept. -/
theorem abi_of_mem_gridPoints {point : Option Abi × Option Density} {a : Abi}
    (hpoint : point ∈ gridPoints modules dimensions options) (ha : point.1 = some a) :
    .abi ∈ dimensions ∧ options.keeps a := by
  have hmem := (mem_gridPoints.mp hpoint).1
  rw [ha, some_mem_coordinates, mem_bundleAbis] at hmem
  obtain ⟨m, _, hmem⟩ := hmem
  obtain ⟨hdim, hkeeps, _⟩ := AppModule.mem_abis.mp hmem
  exact ⟨hdim, hkeeps⟩

/-- A point of the grid has a density class only if resources are divided. -/
theorem density_of_mem_gridPoints {point : Option Abi × Option Density} {d : Density}
    (hpoint : point ∈ gridPoints modules dimensions options) (hd : point.2 = some d) :
    .screenDensity ∈ dimensions := by
  have hmem := (mem_gridPoints.mp hpoint).2
  rw [hd, some_mem_coordinates, bundleDensities] at hmem
  split at hmem
  · rename_i hdivided
    exact hdivided.1
  · exact absurd hmem (OrderedSet.not_mem_empty d)

/-- The shard at a point of the grid holds of every module the entries for that point. -/
theorem carriedEntries_perm (hnames : (modules.map AppModule.name).Nodup)
    (h : bundleSplits modules dimensions options = .ok splits) (hm : m ∈ modules)
    (hpaths : (m.entries.map Entry.path).Nodup) {point : Option Abi × Option Density}
    (hpoint : point ∈ gridPoints modules dimensions options) :
    (carriedEntries (shardAt splits point) m.name).Perm (m.entriesAt dimensions point) := by
  have hown := filter_moduleName_bundleSplits hnames h hm
  let own := splits.filter (·.moduleName = m.name)
  have hcommon : ((own.filter Split.isMaster ++ languageSplits own).flatMap Split.entries).Perm
      (m.entries.filter (m.isCommon dimensions)) :=
    ((AppModule.masters_languages_perm hown).flatMap_right _).trans
      (AppModule.common_splits hpaths hown)
  have habi : (classAt Targeting.abi own point.1).flatMap Split.entries =
      point.1.elim [] fun a => m.entries.filter (·.abi? = some a) := by
    cases ha : point.1 with
    | none => simp
    | some a =>
      obtain ⟨hdim, hkeeps⟩ := abi_of_mem_gridPoints hpoint ha
      exact AppModule.entries_classAt_abi hown hpaths hdim hkeeps
  have hdensity : (classAt Targeting.density own point.2).flatMap Split.entries =
      point.2.elim [] m.densityEntries := by
    cases hd : point.2 with
    | none => simp
    | some d => exact AppModule.entries_classAt_density hown (density_of_mem_gridPoints hpoint hd)
  rw [carriedEntries, filter_moduleName_shardAt, shardAt, List.flatMap_append,
    List.flatMap_append, AppModule.entriesAt, habi, hdensity]
  exact (hcommon.append_right _).append_right _

end AppBundle
