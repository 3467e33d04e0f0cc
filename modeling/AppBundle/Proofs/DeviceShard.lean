import AppBundle.Proofs.DensityMatch
import AppBundle.Proofs.DeviceSplits

/-!
# The shard for one device

Planning for one device does not make another shard than planning for all
configurations: it selects the shard at the point of the grid that suits the
device, and what is fused for the device is the package made from that shard.
-/

namespace AppBundle

/-- The point of the grid that suits a device: the first architecture of the device that the
bundle has, and the density class that suits its screen best. -/
def Device.point (device : Device) (modules : List AppModule) (dimensions : OrderedSet Dimension)
    (options : ShardingOptions) : Option Abi × Option Density :=
  (device.supportedAbis.find? (· ∈ bundleAbis modules dimensions options),
    if (bundleDensities modules dimensions).isEmpty then none
    else Density.bestMatch device.screenDensity.toNat Density.all)

/-- Whether a split is targeted neither by architecture nor by density, or serves a device. -/
def Split.suits (s : Split) (device : Device) : Bool :=
  !(s.targeting.hasAbi || s.targeting.hasDensity) || s.targeting.serves device

variable {modules : List AppModule} {dimensions : OrderedSet Dimension}
variable {options : ShardingOptions} {splits : List Split} {shards : List Shard} {device : Device}

variable (modules dimensions device) in
/-- The density class of the point of a device is the best one that the bundle has. -/
theorem bestDensity_bundleDensities :
    device.bestDensity (bundleDensities modules dimensions) =
      if (bundleDensities modules dimensions).isEmpty then none
      else Density.bestMatch device.screenDensity.toNat Density.all := by
  rw [Device.bestDensity, bundleDensities]
  split
  · rw [Density.toList_ofList_all]
    rfl
  · rfl

variable (options) in
/-- A device has a density class in the grid. -/
theorem point_density_mem_coordinates :
    (device.point modules dimensions options).2 ∈
      coordinates (bundleDensities modules dimensions) := by
  rw [Device.point, ← bestDensity_bundleDensities]
  by_cases hnone : bundleDensities modules dimensions = ∅
  · simp [hnone]
  · have hne : (bundleDensities modules dimensions).toList ≠ [] := fun h =>
      hnone (OrderedSet.toList_injective h)
    obtain ⟨d, hd⟩ := Density.exists_bestMatch device.screenDensity.toNat hne
    rw [Device.bestDensity, hd, some_mem_coordinates]
    exact Density.mem_of_bestMatch hd

/-- A device has a point in the grid if it runs an architecture of the bundle or the bundle
has none. -/
theorem point_mem_gridPoints
    (hsupported : bundleAbis modules dimensions options = ∅ ∨
      ∃ a ∈ device.supportedAbis, a ∈ bundleAbis modules dimensions options) :
    device.point modules dimensions options ∈ gridPoints modules dimensions options := by
  refine mem_gridPoints.mpr ⟨?_, point_density_mem_coordinates options⟩
  rcases hsupported with hnone | ⟨b, hb, hmem⟩
  · simp [hnone]
  · cases hfind : device.supportedAbis.find? (· ∈ bundleAbis modules dimensions options) with
    | none => exact absurd hmem (by simpa using List.find?_eq_none.mp hfind b hb)
    | some a =>
      have ha := List.find?_some hfind
      rw [some_mem_coordinates]
      exact of_decide_eq_true ha

/-- If the modules agree on their architectures, planning for a device gives the splits at
its point. -/
theorem planShards_device (h : bundleSplits modules dimensions options = .ok splits)
    (hagree : AbisAgree modules dimensions options) :
    planShards modules dimensions options (some (servingFilter device)) =
      .ok [shardAt splits (device.point modules dimensions options)] := by
  refine bind_eq_ok_iff.mpr ⟨splits, h, ?_⟩
  rw [groupSplits_device h]
  dsimp only
  rw [if_neg (length_of_abisAgree h hagree _), abiSplits_device h hagree, densitySplits_device h,
    bestDensity_bundleDensities, shardAt]
  rfl

/-- All splits at a coordinate serve a device if the coordinate is the best one for it. -/
theorem forall_serves_classAt_iff {κ : Type} [Ord κ] [DecidableEq κ]
    {select : Targeting → Selection κ} {u : OrderedSet κ} {best : Option κ}
    (hnone : u = ∅ → best = none)
    (hsome : ∀ k ∈ u, ∃ s, s ∈ classAt select splits (some k))
    (hserves : ∀ k ∈ u, ∀ s ∈ classAt select splits (some k),
      s.targeting.serves device ↔ best = some k)
    {k? : Option κ} (hk? : k? ∈ coordinates u) :
    (∀ s ∈ classAt select splits k?, s.targeting.serves device) ↔ k? = best := by
  cases k? with
  | none => simp [hnone (none_mem_coordinates.mp hk?)]
  | some k =>
    rw [some_mem_coordinates] at hk?
    constructor
    · intro hall
      obtain ⟨s, hs⟩ := hsome k hk?
      exact ((hserves k hk? s hs).mp (hall s hs)).symm
    · intro hbest s hs
      exact (hserves k hk? s hs).mpr hbest.symm

/-- All splits at an architecture serve a device if the device prefers that architecture. -/
theorem serves_classAt_abi_iff (h : bundleSplits modules dimensions options = .ok splits)
    (hagree : AbisAgree modules dimensions options) {a? : Option Abi}
    (ha : a? ∈ coordinates (bundleAbis modules dimensions options)) :
    (∀ s ∈ classAt Targeting.abi splits a?, s.targeting.serves device) ↔
      a? = device.preferredAbi (bundleAbis modules dimensions options) := by
  refine forall_serves_classAt_iff (fun hnone => ?_) (fun a => exists_mem_classAt_abi h)
    (fun a ha s hs => ?_) ha
  · rw [hnone, Device.preferredAbi_empty]
  · rw [(targeting_of_mem_classAt_abi h hagree hs).2, Targeting.serves_forAbi_iff ha]

/-- All splits at a density class serve a device if that class suits it best. -/
theorem serves_classAt_density_iff (h : bundleSplits modules dimensions options = .ok splits)
    {d? : Option Density} (hd : d? ∈ coordinates (bundleDensities modules dimensions)) :
    (∀ s ∈ classAt Targeting.density splits d?, s.targeting.serves device) ↔
      d? = device.bestDensity (bundleDensities modules dimensions) := by
  refine forall_serves_classAt_iff (fun hnone => ?_) (fun d => exists_mem_classAt_density h)
    (fun d hd s hs => ?_) hd
  · rw [hnone, Device.bestDensity_empty]
  · rw [(targeting_of_mem_classAt_density h hs).2, Targeting.serves_forDensity_iff hd]

/-- Of the shards of the grid only the one at the point of a device suits it. -/
theorem all_suits_shardAt_iff (h : bundleSplits modules dimensions options = .ok splits)
    (hagree : AbisAgree modules dimensions options) {point : Option Abi × Option Density}
    (hpoint : point ∈ gridPoints modules dimensions options) :
    (shardAt splits point).all (·.suits device) ↔
      point = device.point modules dimensions options := by
  obtain ⟨ha, hd⟩ := mem_gridPoints.mp hpoint
  have hparts : (shardAt splits point).all (·.suits device) ↔
      (∀ s ∈ classAt Targeting.abi splits point.1, s.targeting.serves device) ∧
        ∀ s ∈ classAt Targeting.density splits point.2, s.targeting.serves device := by
    rw [← filter_hasAbi_shardAt h, ← filter_hasDensity_shardAt h, List.all_eq_true]
    constructor
    · intro hsuits
      refine ⟨fun s hs => ?_, fun s hs => ?_⟩
      · obtain ⟨hs, habi⟩ := List.mem_filter.mp hs
        simpa [Split.suits, habi] using hsuits s hs
      · obtain ⟨hs, hdensity⟩ := List.mem_filter.mp hs
        simpa [Split.suits, hdensity] using hsuits s hs
    · rintro ⟨habis, hdensities⟩ s hs
      by_cases habi : s.targeting.hasAbi
      · simp [Split.suits, habis s (List.mem_filter.mpr ⟨hs, habi⟩)]
      · by_cases hdensity : s.targeting.hasDensity
        · simp [Split.suits, hdensities s (List.mem_filter.mpr ⟨hs, hdensity⟩)]
        · simp [Split.suits, habi, hdensity]
  rw [hparts, serves_classAt_abi_iff h hagree ha, serves_classAt_density_iff h hd,
    bestDensity_bundleDensities, Prod.ext_iff]
  rfl

/-- The plan has exactly one shard that suits a device with a point in the grid. -/
theorem filter_suits_eq (h : bundleSplits modules dimensions options = .ok splits)
    (hagree : AbisAgree modules dimensions options)
    (hpoint : device.point modules dimensions options ∈ gridPoints modules dimensions options) :
    ((gridPoints modules dimensions options).map (shardAt splits)).filter
        (·.all (·.suits device)) =
      [shardAt splits (device.point modules dimensions options)] := by
  have hselect : (gridPoints modules dimensions options).filter
      ((fun s : Shard => s.all (·.suits device)) ∘ shardAt splits) =
      (gridPoints modules dimensions options).filter
        (· = device.point modules dimensions options) := by
    refine List.filter_congr fun q hq => ?_
    rw [Bool.eq_iff_iff, Function.comp_apply, all_suits_shardAt_iff h hagree hq,
      decide_eq_true_eq]
  rw [List.filter_map, hselect, List.filter_eq,
    List.count_eq_one_of_mem (nodup_gridPoints modules dimensions options) hpoint]
  rfl

/-- If all splits of a shard go into the system image, the image is the package of the shard
and nothing else is made. -/
theorem SystemPackages.ofShard_of_isFused {shard : Shard} {fused : OrderedSet String}
    {metadata : Metadata} {package : Package} (hfused : ∀ s ∈ shard, s.isFused fused device)
    (hpackage : Package.fuse shard metadata = .ok package) :
    SystemPackages.ofShard shard fused metadata device =
      .ok { image := package, additional := [] } := by
  have hinside : shard.filter (·.isFused fused device) = shard := List.filter_eq_self.mpr hfused
  have hapart : shard.filter (fun s => !s.isFused fused device) = [] :=
    List.filter_eq_nil_iff.mpr fun s hs => by simp [hfused s hs]
  have hpartition : shard.partition (·.isFused fused device) = (shard, []) := by
    rw [List.partition_eq_filter_filter, hinside]
    exact congrArg (Prod.mk shard) hapart
  rw [ofShard, hpartition]
  refine bind_eq_ok_iff.mpr ⟨package, hpackage, ?_⟩
  rfl

/-- All splits go into the system image if all modules do and no languages are divided. -/
theorem isFused_of_mem (h : bundleSplits modules dimensions options = .ok splits)
    (hfused : ∀ m ∈ modules, m.fused)
    (hlanguages : Pipeline.dividesLanguages dimensions options = false) {s : Split}
    (hs : s ∈ splits) : s.isFused (fusedModules modules) device := by
  obtain ⟨m, hm, hpart⟩ := exists_isPart h hs
  have hname : s.moduleName ∈ fusedModules modules := by
    rw [fusedModules, OrderedSet.mem_ofList, hpart.moduleName]
    exact List.mem_map_of_mem (List.mem_filter.mpr ⟨hm, hfused m hm⟩)
  have hlanguage := hpart.targeting.hasLanguage_eq_false hlanguages
  simp [Split.isFused, hname, Targeting.servesLanguage, hlanguage]

/-- What planning and fusing for one device select from the plan for all configurations. -/
structure Selects (modules : List AppModule) (dimensions : OrderedSet Dimension)
    (options : ShardingOptions) (device : Device) (shards : List Shard) (shard : Shard) :
    Prop where
  /-- The plan has one shard for each point of the grid. -/
  places : List.Forall₂ IsAt (gridPoints modules dimensions options) shards
  /-- The architectures of the bundle are the universe of all architecture splits. -/
  common : ∀ t ∈ shards, ∀ s ∈ t, s.targeting.hasAbi →
    s.targeting.abi.choices = bundleAbis modules dimensions options
  /-- Planning for the device succeeds with one shard. -/
  planned : planShards modules dimensions options (some (servingFilter device)) = .ok [shard]
  /-- If the device runs the native libraries, the shard is the one at the point of the device,
  and the only one that suits it. -/
  supported : (bundleAbis modules dimensions options = ∅ ∨
      ∃ a ∈ device.supportedAbis, a ∈ bundleAbis modules dimensions options) →
    (device.point modules dimensions options, shard) ∈
        (gridPoints modules dimensions options).zip shards ∧
      shards.filter (·.all (·.suits device)) = [shard]
  /-- If the device runs none of the native libraries, the shard is the one of any architecture
  without its architecture splits. -/
  unsupported : (∀ a ∈ device.supportedAbis, a ∉ bundleAbis modules dimensions options) →
    ∀ b ∈ bundleAbis modules dimensions options, ∃ t,
      ((some b, (device.point modules dimensions options).2), t) ∈
        (gridPoints modules dimensions options).zip shards ∧
      shard = t.filter (!·.targeting.hasAbi)
  /-- If the device runs the native libraries and the whole shard goes into the system image,
  the image is the package for all configurations at the point of the device. -/
  packages : ∀ metadata packages, shardBundle modules dimensions options metadata = .ok packages →
    (bundleAbis modules dimensions options = ∅ ∨
      ∃ a ∈ device.supportedAbis, a ∈ bundleAbis modules dimensions options) →
    (∀ s ∈ shard, s.isFused (fusedModules modules) device) →
    ∃ package, (device.point modules dimensions options, package) ∈
        (gridPoints modules dimensions options).zip packages ∧
      shardForDevice modules dimensions options metadata (servingFilter device) =
        .ok { image := package, additional := [] }
  /-- The whole shard goes into the system image if all modules do and no languages are
  divided. -/
  fused : (∀ m ∈ modules, m.fused) → Pipeline.dividesLanguages dimensions options = false →
    ∀ s ∈ shard, s.isFused (fusedModules modules) device

/-- Planning for one device selects a shard of the plan for all configurations. -/
theorem exists_selects_of_planShards (device : Device)
    (h : planShards modules dimensions options none = .ok shards) :
    ∃ shard, Selects modules dimensions options device shards shard := by
  obtain ⟨splits, hsplits, hagree, rfl⟩ := exists_of_planShards h
  have hplanned : planShards modules dimensions options (some (servingFilter device)) =
      .ok [shardAt splits (device.point modules dimensions options)] :=
    planShards_device hsplits hagree
  refine ⟨shardAt splits (device.point modules dimensions options), ?_, ?_, hplanned, ?_, ?_,
    ?_, ?_⟩
  · rw [List.forall₂_map_right_iff, List.forall₂_same]
    exact fun q hq => isAt_shardAt hsplits hagree hq
  · intro t ht s hs habi
    obtain ⟨q, _, rfl⟩ := List.mem_map.mp ht
    have hmem := mem_targetsOf_bundleAbis hsplits hagree (mem_of_mem_shardAt hs) habi
    exact choices_of_mem_targetsOf Targeting.abi_forAbi hmem
  · intro hsupported
    have hpoint := point_mem_gridPoints hsupported
    exact ⟨mem_zip_shardAt splits hpoint, filter_suits_eq hsplits hagree hpoint⟩
  · intro hnone b hb
    have hdensity : (device.point modules dimensions options).2 ∈
        coordinates (bundleDensities modules dimensions) :=
      point_density_mem_coordinates options
    have hfirst : (device.point modules dimensions options).1 = none :=
      List.find?_eq_none.mpr fun a ha => by simpa using hnone a ha
    have hpoint : (some b, (device.point modules dimensions options).2) ∈
        gridPoints modules dimensions options :=
      mem_gridPoints.mpr ⟨some_mem_coordinates.mpr hb, hdensity⟩
    refine ⟨_, mem_zip_shardAt splits hpoint, ?_⟩
    rw [filter_not_hasAbi_shardAt hsplits, ← hfirst]
  · intro metadata packages hpackages hsupported hfused
    obtain ⟨shards, hshards, hpackages⟩ := bind_eq_ok_iff.mp hpackages
    rw [h] at hshards
    obtain rfl := Except.ok.inj hshards
    have hshard := mem_zip_shardAt splits (point_mem_gridPoints hsupported)
    obtain ⟨package, hmem, hpackage⟩ := exists_mem_zip_of_mapM_eq_ok hpackages hshard
    refine ⟨package, hmem, bind_eq_ok_iff.mpr ⟨_, hplanned, ?_⟩⟩
    exact SystemPackages.ofShard_of_isFused hfused hpackage
  · intro hfused hlanguages s hs
    exact isFused_of_mem hsplits hfused hlanguages (mem_of_mem_shardAt hs)

/-- A device selects its shard from the plan of the sample. -/
theorem exists_selects_sampleModules :
    ∃ shards shard,
      planShards sampleModules (.ofList Dimension.all) {} none = .ok shards ∧
        Selects sampleModules (.ofList Dimension.all) {}
          { supportedAbis := [.x86_64, .x86], screenDensity := 300 } shards shard := by
  obtain ⟨shards, h⟩ := exists_plan_sampleModules
  obtain ⟨shard, hshard⟩ := exists_selects_of_planShards
    { supportedAbis := [.x86_64, .x86], screenDensity := 300 } h
  exact ⟨shards, shard, h, hshard⟩

end AppBundle
