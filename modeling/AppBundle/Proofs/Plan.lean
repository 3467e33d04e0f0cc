import AppBundle.Proofs.BundleSplits
import Mathlib.Data.List.ProdSigma

/-!
# The plan of a bundle

The shards of a bundle form a grid: one shard for each pair of an architecture
and a density class. This file gives the plan in closed form, as the shards at
the points of the grid in row-major order.
-/

namespace AppBundle

/-- The points of the grid of packages, row by row: the architectures in their order, and
for each of them the density classes from low to high. -/
def gridPoints (modules : List AppModule) (dimensions : OrderedSet Dimension)
    (options : ShardingOptions) : List (Option Abi × Option Density) :=
  coordinates (bundleAbis modules dimensions options) ×ˢ
    coordinates (bundleDensities modules dimensions)

/-- The shard at a point of the grid: all masters and language splits, and the splits that
serve the architecture and the density class of the point. -/
def shardAt (splits : List Split) (point : Option Abi × Option Density) : Shard :=
  splits.filter Split.isMaster ++ languageSplits splits ++
    classAt Targeting.abi splits point.1 ++ classAt Targeting.density splits point.2

/-- A shard belongs to a point of the grid: its splits serve the architecture of the point
and no other, and the density class of the point and no other. -/
structure IsAt (point : Option Abi × Option Density) (shard : Shard) : Prop where
  /-- The served architectures. -/
  abi : ∀ a, (∃ s ∈ shard, a ∈ s.targeting.abi.values) ↔ point.1 = some a
  /-- The served density classes. -/
  density : ∀ d, (∃ s ∈ shard, d ∈ s.targeting.density.values) ↔ point.2 = some d

theorem abiSplits_none (splits : List Split) :
    abiSplits splits none = splits.filter (·.targeting.hasAbi) := by
  simp [abiSplits, passes]

theorem densitySplits_none (splits : List Split) :
    densitySplits splits none = splits.filter (·.targeting.hasDensity) := by
  simp [densitySplits, passes]

/-- Splits that serve an architecture are architecture splits. -/
theorem classAt_abiSplits (splits : List Split) :
    classAt Targeting.abi (abiSplits splits none) = classAt Targeting.abi splits := by
  rw [abiSplits_none]
  exact classAt_filter fun s _ hne => by rw [Targeting.hasAbi, hne, Bool.not_false]

/-- Splits that serve a density class are density splits. -/
theorem classAt_densitySplits (splits : List Split) :
    classAt Targeting.density (densitySplits splits none) = classAt Targeting.density splits := by
  rw [densitySplits_none]
  exact classAt_filter fun s _ hne => by rw [Targeting.hasDensity, hne, Bool.not_false]

variable {modules : List AppModule} {dimensions : OrderedSet Dimension}
variable {options : ShardingOptions} {splits : List Split} {shards : List Shard}

/-- A point is in the grid if its coordinates are coordinates of the bundle. -/
theorem mem_gridPoints {a? : Option Abi} {d? : Option Density} :
    (a?, d?) ∈ gridPoints modules dimensions options ↔
      a? ∈ coordinates (bundleAbis modules dimensions options) ∧
        d? ∈ coordinates (bundleDensities modules dimensions) :=
  List.pair_mem_product

/-- No point of the grid is listed twice. -/
theorem nodup_gridPoints (modules : List AppModule) (dimensions : OrderedSet Dimension)
    (options : ShardingOptions) : (gridPoints modules dimensions options).Nodup :=
  (nodup_coordinates _).product (nodup_coordinates _)

/-- If the modules agree on their architectures, the architecture splits form a class for
each architecture of the bundle. -/
theorem targetingClasses_abiSplits (h : bundleSplits modules dimensions options = .ok splits)
    (hagree : AbisAgree modules dimensions options) :
    targetingClasses (abiSplits splits none) =
      (coordinates (bundleAbis modules dimensions options)).map (classAt Targeting.abi splits) := by
  have hmem (a : Abi) : a ∈ bundleAbis modules dimensions options ↔
      ∃ v ∈ modules.map (·.abis dimensions options), a ∈ v := by
    simp [mem_bundleAbis]
  rw [targetingClasses_eq Targeting.abi_forAbi (targetings_abiSplits h) hmem
    (by simpa [AbisAgree] using hagree),
    classAt_abiSplits]

/-- The density splits form a class for each density class of the bundle. -/
theorem targetingClasses_densitySplits
    (h : bundleSplits modules dimensions options = .ok splits) :
    targetingClasses (densitySplits splits none) =
      (coordinates (bundleDensities modules dimensions)).map
        (classAt Targeting.density splits) := by
  have hmem (d : Density) : d ∈ bundleDensities modules dimensions ↔
      ∃ v ∈ modules.map (·.densities dimensions), d ∈ v := by
    simp [mem_bundleDensities]
  rw [targetingClasses_eq Targeting.density_forDensity (targetings_densitySplits h) hmem
    (by simpa using fun m => densities_eq), classAt_densitySplits]

/-- Modules that agree on their architectures have a plan, with one shard at each point of the
grid. -/
theorem planShards_of_abisAgree (h : bundleSplits modules dimensions options = .ok splits)
    (hagree : AbisAgree modules dimensions options) :
    planShards modules dimensions options none =
      .ok ((gridPoints modules dimensions options).map (shardAt splits)) := by
  refine bind_eq_ok_iff.mpr ⟨splits, h, ?_⟩
  rw [groupSplits_of_bundleSplits h]
  dsimp only
  rw [if_neg (length_of_abisAgree h hagree none), targetingClasses_abiSplits h hagree,
    targetingClasses_densitySplits h, gridPoints]
  simp only [SProd.sprod, List.product, List.map_flatMap, List.flatMap_map, List.map_map]
  rfl

/-- A plan comes from splits of modules that agree on their architectures, and has one shard
at each point of the grid. -/
theorem exists_of_planShards (h : planShards modules dimensions options none = .ok shards) :
    ∃ splits, bundleSplits modules dimensions options = .ok splits ∧
      AbisAgree modules dimensions options ∧
      shards = (gridPoints modules dimensions options).map (shardAt splits) := by
  obtain ⟨splits, hsplits, hgroup⟩ := bind_eq_ok_iff.mp h
  rw [groupSplits_of_bundleSplits hsplits] at hgroup
  dsimp only at hgroup
  by_cases hlength : 1 < (distinctUniverses
      ((abiSplits splits none).map (·.targeting.abi.choices))).length
  · rw [if_pos hlength] at hgroup
    cases hgroup
  · have hagree := abisAgree_of_length hsplits hlength
    rw [planShards_of_abisAgree hsplits hagree] at h
    exact ⟨splits, hsplits, hagree, (Except.ok.inj h).symm⟩

/-- The packages of a bundle are fused from its shards, one at each point of the grid. -/
theorem shardBundle_eq_ok_iff {metadata : Metadata} {packages : List Package} :
    shardBundle modules dimensions options metadata = .ok packages ↔
      ∃ splits, bundleSplits modules dimensions options = .ok splits ∧
        AbisAgree modules dimensions options ∧
        List.Forall₂ (fun point p => Package.fuse (shardAt splits point) metadata = .ok p)
          (gridPoints modules dimensions options) packages := by
  constructor
  · intro h
    obtain ⟨shards, hshards, h⟩ := bind_eq_ok_iff.mp h
    obtain ⟨splits, hsplits, hagree, rfl⟩ := exists_of_planShards hshards
    rw [mapM_eq_ok_iff, List.forall₂_map_left_iff] at h
    exact ⟨splits, hsplits, hagree, h⟩
  · rintro ⟨splits, hsplits, hagree, h⟩
    refine bind_eq_ok_iff.mpr ⟨_, planShards_of_abisAgree hsplits hagree, ?_⟩
    rw [mapM_eq_ok_iff, List.forall₂_map_left_iff]
    exact h

/-- If two bundles have the same grid, and the shards of the one are fused to packages whenever
those of the other are, then the one can be packed whenever the other can. -/
theorem exists_shardBundle_of_fuse {modules' : List AppModule} {dimensions' : OrderedSet Dimension}
    {options' : ShardingOptions} {metadata : Metadata} {R : Package → Package → Prop}
    (hgrid : gridPoints modules dimensions options = gridPoints modules' dimensions' options')
    (hagree : AbisAgree modules dimensions options → AbisAgree modules' dimensions' options')
    (hfuse : ∀ splits, bundleSplits modules dimensions options = .ok splits →
      ∃ splits', bundleSplits modules' dimensions' options' = .ok splits' ∧
        ∀ point p, Package.fuse (shardAt splits point) metadata = .ok p →
          ∃ q, Package.fuse (shardAt splits' point) metadata = .ok q ∧ R p q)
    {packages : List Package}
    (h : shardBundle modules dimensions options metadata = .ok packages) :
    ∃ packages', shardBundle modules' dimensions' options' metadata = .ok packages' ∧
      List.Forall₂ R packages packages' := by
  obtain ⟨splits, hsplits, habis, hpackages⟩ := shardBundle_eq_ok_iff.mp h
  obtain ⟨splits', hsplits', hstep⟩ := hfuse splits hsplits
  obtain ⟨packages', hfused, hrelated⟩ := exists_forall₂ hpackages hstep
  refine ⟨packages', shardBundle_eq_ok_iff.mpr ?_, hrelated⟩
  rw [← hgrid]
  exact ⟨splits', hsplits', hagree habis, hfused⟩

/-- The shard at a point stands at the place of the point in the plan. -/
theorem mem_zip_shardAt (splits : List Split) {points : List (Option Abi × Option Density)}
    {point : Option Abi × Option Density} (hpoint : point ∈ points) :
    (point, shardAt splits point) ∈ points.zip (points.map (shardAt splits)) := by
  have hzip : points.zip (points.map (shardAt splits)) =
      points.map fun q => (q, shardAt splits q) := by
    have hmap := @List.zip_map' _ _ _ id (shardAt splits) points
    rwa [List.map_id] at hmap
  rw [hzip]
  exact List.mem_map_of_mem hpoint

/-- The splits of a shard are splits of the bundle. -/
theorem mem_of_mem_shardAt {point : Option Abi × Option Density} {s : Split}
    (hs : s ∈ shardAt splits point) : s ∈ splits := by
  rw [shardAt, List.mem_append, List.mem_append, List.mem_append] at hs
  rcases hs with ((hs | hs) | hs) | hs
  · exact (List.mem_filter.mp hs).1
  · exact (List.mem_filter.mp hs).1
  · exact (List.mem_filter.mp hs).1
  · exact (List.mem_filter.mp hs).1

/-- A base module with native libraries for two architectures and a resource for two
densities. -/
def sampleBase : AppModule where
  name := baseName
  entries :=
    [⟨"dex/classes.dex", ⟨#[1]⟩⟩, ⟨"lib/arm64-v8a/libmain.so", ⟨#[2]⟩⟩,
      ⟨"lib/x86/libmain.so", ⟨#[3]⟩⟩, ⟨"res/drawable-mdpi/icon.png", ⟨#[4]⟩⟩,
      ⟨"res/drawable-xhdpi/icon.png", ⟨#[5]⟩⟩, ⟨"assets/intro#lang_de/text", ⟨#[6]⟩⟩]

/-- The base module with a module that is not divided. -/
def sampleModules : List AppModule :=
  [sampleBase,
    { name := "feature"
      entries := [⟨"dex/classes.dex", ⟨#[7]⟩⟩, ⟨"res/values/strings.xml", ⟨#[8]⟩⟩] }]

/-- The sample has a plan. -/
theorem exists_plan_sampleModules :
    ∃ shards, planShards sampleModules (.ofList Dimension.all) {} none = .ok shards :=
  exists_of_isSome_toOption (by decide +kernel)

section ShardAt

variable (h : bundleSplits modules dimensions options = .ok splits)
include h

/-- The masters and the language splits of a bundle serve no architecture and no density
class. -/
theorem hasAbi_hasDensity_of_common {s : Split}
    (hs : s ∈ splits.filter Split.isMaster ++ languageSplits splits) :
    s.targeting.hasAbi = false ∧ s.targeting.hasDensity = false := by
  rcases List.mem_append.mp hs with hs | hs
  · obtain ⟨hs, hmaster⟩ := List.mem_filter.mp hs
    obtain ⟨m, _, hpart⟩ := exists_isPart h hs
    exact hpart.targeting.hasAbi_hasDensity_eq_false (.inl (hpart.isMaster ▸ hmaster))
  · obtain ⟨hs, hlanguage⟩ := List.mem_filter.mp hs
    obtain ⟨m, _, hpart⟩ := exists_isPart h hs
    exact hpart.targeting.hasAbi_hasDensity_eq_false (.inr hlanguage)

omit h in
/-- The splits at an architecture are targeted by architecture. -/
theorem hasAbi_of_mem_classAt {a? : Option Abi} {s : Split}
    (hs : s ∈ classAt Targeting.abi splits a?) : s.targeting.hasAbi = true := by
  rw [Targeting.hasAbi, isEmpty_of_mem_classAt hs, Bool.not_false]

omit h in
/-- The splits at a density class are targeted by density. -/
theorem hasDensity_of_mem_classAt {d? : Option Density} {s : Split}
    (hs : s ∈ classAt Targeting.density splits d?) : s.targeting.hasDensity = true := by
  rw [Targeting.hasDensity, isEmpty_of_mem_classAt hs, Bool.not_false]

/-- A split at an architecture serves it beside the other ones of the bundle. -/
theorem targeting_of_mem_classAt_abi (hagree : AbisAgree modules dimensions options) {a : Abi}
    {s : Split} (hs : s ∈ classAt Targeting.abi splits (some a)) :
    a ∈ bundleAbis modules dimensions options ∧
      s.targeting = .forAbi a ((bundleAbis modules dimensions options).filter (· ≠ a)) :=
  targeting_of_mem_classAt Targeting.abi_forAbi
    (fun t ht hne => mem_targetsOf_bundleAbis h hagree ht (by simp [Targeting.hasAbi, hne])) hs

/-- A split at a density class serves it beside the other ones of the bundle. -/
theorem targeting_of_mem_classAt_density {d : Density} {s : Split}
    (hs : s ∈ classAt Targeting.density splits (some d)) :
    d ∈ bundleDensities modules dimensions ∧
      s.targeting = .forDensity d ((bundleDensities modules dimensions).filter (· ≠ d)) :=
  targeting_of_mem_classAt Targeting.density_forDensity
    (fun t ht hne => mem_targetsOf_bundleDensities h ht (by simp [Targeting.hasDensity, hne])) hs

/-- Every architecture of the bundle has a split. -/
theorem exists_mem_classAt_abi {a : Abi} (ha : a ∈ bundleAbis modules dimensions options) :
    ∃ s, s ∈ classAt Targeting.abi splits (some a) := by
  obtain ⟨m, hm, ha⟩ := mem_bundleAbis.mp ha
  rw [← classAt_abiSplits]
  exact exists_mem_classAt Targeting.abi_forAbi (targetings_abiSplits h) (List.mem_map_of_mem hm) ha

/-- Every density class of the bundle has a split. -/
theorem exists_mem_classAt_density {d : Density} (hd : d ∈ bundleDensities modules dimensions) :
    ∃ s, s ∈ classAt Targeting.density splits (some d) := by
  obtain ⟨m, hm, hd⟩ := mem_bundleDensities.mp hd
  rw [← classAt_densitySplits]
  exact exists_mem_classAt Targeting.density_forDensity (targetings_densitySplits h)
    (List.mem_map_of_mem hm) hd

/-- The splits at a density class serve no architecture. -/
theorem hasAbi_eq_false_of_mem_classAt {d? : Option Density} {s : Split}
    (hs : s ∈ classAt Targeting.density splits d?) : s.targeting.hasAbi = false := by
  obtain ⟨m, _, hpart⟩ := exists_isPart h (List.mem_filter.mp hs).1
  exact hpart.targeting.hasAbi_eq_false (hasDensity_of_mem_classAt hs)

/-- The architecture splits of a shard are those of its architecture. -/
theorem filter_hasAbi_shardAt (point : Option Abi × Option Density) :
    (shardAt splits point).filter (·.targeting.hasAbi) = classAt Targeting.abi splits point.1 := by
  have hcommon : (splits.filter Split.isMaster ++ languageSplits splits).filter
      (·.targeting.hasAbi) = [] :=
    List.filter_eq_nil_iff.mpr fun s hs => by simp [hasAbi_hasDensity_of_common h hs]
  have habi : (classAt Targeting.abi splits point.1).filter (·.targeting.hasAbi) =
      classAt Targeting.abi splits point.1 :=
    List.filter_eq_self.mpr fun s hs => hasAbi_of_mem_classAt hs
  have hdensity : (classAt Targeting.density splits point.2).filter (·.targeting.hasAbi) = [] :=
    List.filter_eq_nil_iff.mpr fun s hs => by simp [hasAbi_eq_false_of_mem_classAt h hs]
  rw [shardAt, List.filter_append, List.filter_append, hcommon, habi, hdensity, List.append_nil,
    List.nil_append]

/-- The density splits of a shard are those of its density class. -/
theorem filter_hasDensity_shardAt (point : Option Abi × Option Density) :
    (shardAt splits point).filter (·.targeting.hasDensity) =
      classAt Targeting.density splits point.2 := by
  have hcommon : (splits.filter Split.isMaster ++ languageSplits splits).filter
      (·.targeting.hasDensity) = [] :=
    List.filter_eq_nil_iff.mpr fun s hs => by simp [hasAbi_hasDensity_of_common h hs]
  have habi : (classAt Targeting.abi splits point.1).filter (·.targeting.hasDensity) = [] := by
    refine List.filter_eq_nil_iff.mpr fun s hs hdensity => ?_
    obtain ⟨m, _, hpart⟩ := exists_isPart h (List.mem_filter.mp hs).1
    have hnone := hpart.targeting.hasAbi_eq_false hdensity
    rw [hasAbi_of_mem_classAt hs] at hnone
    cases hnone
  have hdensity : (classAt Targeting.density splits point.2).filter (·.targeting.hasDensity) =
      classAt Targeting.density splits point.2 :=
    List.filter_eq_self.mpr fun s hs => hasDensity_of_mem_classAt hs
  rw [shardAt, List.filter_append, List.filter_append, hcommon, habi, hdensity, List.nil_append,
    List.nil_append]

/-- Without its architecture splits a shard is the shard without an architecture. -/
theorem filter_not_hasAbi_shardAt (a? : Option Abi) (d? : Option Density) :
    (shardAt splits (a?, d?)).filter (!·.targeting.hasAbi) = shardAt splits (none, d?) := by
  have hcommon : (splits.filter Split.isMaster ++ languageSplits splits).filter
      (!·.targeting.hasAbi) = splits.filter Split.isMaster ++ languageSplits splits :=
    List.filter_eq_self.mpr fun s hs => by simp [hasAbi_hasDensity_of_common h hs]
  have habi : (classAt Targeting.abi splits a?).filter (!·.targeting.hasAbi) = [] :=
    List.filter_eq_nil_iff.mpr fun s hs => by simp [hasAbi_of_mem_classAt hs]
  have hdensity : (classAt Targeting.density splits d?).filter (!·.targeting.hasAbi) =
      classAt Targeting.density splits d? :=
    List.filter_eq_self.mpr fun s hs => by simp [hasAbi_eq_false_of_mem_classAt h hs]
  rw [shardAt, List.filter_append, List.filter_append, hcommon, habi, hdensity, shardAt,
    classAt_none]

/-- No split of a shard serves sets of architectures. -/
theorem hasMultiAbi_of_mem_shardAt {point : Option Abi × Option Density} {s : Split}
    (hs : s ∈ shardAt splits point) : s.targeting.hasMultiAbi = false := by
  obtain ⟨m, _, hpart⟩ := exists_isPart h (mem_of_mem_shardAt hs)
  rw [shardAt, List.mem_append, List.mem_append, List.mem_append] at hs
  refine hpart.targeting.hasMultiAbi_eq_false ?_
  rcases hs with ((hs | hs) | hs) | hs
  · exact .inl (hpart.isMaster ▸ (List.mem_filter.mp hs).2)
  · exact .inr (.inl (List.mem_filter.mp hs).2)
  · exact .inr (.inr (.inl (hasAbi_of_mem_classAt hs)))
  · exact .inr (.inr (.inr (hasDensity_of_mem_classAt hs)))

/-- The shard at a point of the grid belongs to that point. -/
theorem isAt_shardAt (hagree : AbisAgree modules dimensions options)
    {point : Option Abi × Option Density}
    (hpoint : point ∈ gridPoints modules dimensions options) :
    IsAt point (shardAt splits point) := by
  obtain ⟨ha, hd⟩ := mem_gridPoints.mp hpoint
  constructor
  · intro a
    rw [← exists_mem_values_iff Targeting.abi_forAbi
      (fun s hs hne => mem_targetsOf_bundleAbis h hagree hs (by simp [Targeting.hasAbi, hne]))
      (fun b hb => exists_mem_classAt_abi h hb) ha, ← filter_hasAbi_shardAt h]
    refine exists_congr fun s => ?_
    rw [List.mem_filter, and_assoc]
    refine and_congr_right fun _ => (and_iff_right_of_imp fun hvalue => ?_).symm
    exact hasAbi_of_mem_classAt (mem_classAt_some.mpr ⟨List.mem_singleton_self s, hvalue⟩)
  · intro d
    rw [← exists_mem_values_iff Targeting.density_forDensity
      (fun s hs hne => mem_targetsOf_bundleDensities h hs (by simp [Targeting.hasDensity, hne]))
      (fun b hb => exists_mem_classAt_density h hb) hd, ← filter_hasDensity_shardAt h]
    refine exists_congr fun s => ?_
    rw [List.mem_filter, and_assoc]
    refine and_congr_right fun _ => (and_iff_right_of_imp fun hvalue => ?_).symm
    exact hasDensity_of_mem_classAt (mem_classAt_some.mpr ⟨List.mem_singleton_self s, hvalue⟩)

end ShardAt

end AppBundle
