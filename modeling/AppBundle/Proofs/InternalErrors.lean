import AppBundle.Proofs.DeviceSplits

/-!
# Faults of the library are unreachable

Whatever the modules of a bundle hold, as long as no path of a module has two
contents, every failure to make packages lies with the bundle: no assumption
of the library is ever broken.
-/

namespace AppBundle

/-- A failure, if there is one, lies with the bundle and not with the library. -/
def FailsByInput {α : Type} (r : Except ShardError α) : Prop :=
  ∀ e, r = .error e → e.isInternal = false

namespace FailsByInput

variable {α β : Type} {x : Except ShardError α} {f : α → Except ShardError β}

/-- A success is no failure. -/
theorem ok (a : α) : FailsByInput (.ok a) := fun _ h => by cases h

/-- Two steps in a row fail by the input if both of them do. -/
theorem bind (hx : FailsByInput x) (hf : ∀ a, x = .ok a → FailsByInput (f a)) :
    FailsByInput (x >>= f) := by
  intro e h
  rcases bind_eq_error_iff.mp h with h | ⟨a, ha, h⟩
  · exact hx e h
  · exact hf a ha e h

/-- A step on every element fails by the input if it does so on each of them. -/
theorem mapM {as : List α} (hf : ∀ a ∈ as, FailsByInput (f a)) : FailsByInput (as.mapM f) := by
  intro e h
  obtain ⟨a, ha, h⟩ := exists_of_mapM_eq_error h
  exact hf a ha e h

end FailsByInput

/-- Fusing a shard fails by a conflict only. -/
theorem Package.failsByInput_fuse (shard : Shard) (metadata : Metadata) :
    FailsByInput (Package.fuse shard metadata) := by
  intro e h
  unfold Package.fuse at h
  dsimp only at h
  split at h
  · cases h
  · rw [← Except.error.inj h]
    rfl

/-- Making the packages for one device from its shard fails by a conflict only. -/
theorem SystemPackages.failsByInput_ofShard (shard : Shard) (fused : OrderedSet String)
    (metadata : Metadata) (device : Device) :
    FailsByInput (SystemPackages.ofShard shard fused metadata device) := by
  refine .bind (Package.failsByInput_fuse _ _) fun image _ => ?_
  refine .bind (.mapM fun s _ => Package.failsByInput_fuse s ∅) fun additional _ => ?_
  exact .ok _

variable {modules : List AppModule} {dimensions : OrderedSet Dimension}
variable {options : ShardingOptions} {splits : List Split}

/-- Dividing a module fails by its paths only. -/
theorem AppModule.failsByInput_splits {m : AppModule} (hpaths : PathsConsistent m.entries) :
    FailsByInput (m.splits dimensions options) := by
  intro e h
  obtain ⟨cause, rfl⟩ := refusedPath_of_splits_error hpaths h
  rfl

/-- Dividing the modules of a bundle fails by their paths only. -/
theorem failsByInput_bundleSplits (hmodules : modules ≠ [])
    (hpaths : ∀ m ∈ modules, PathsConsistent m.entries) :
    FailsByInput (bundleSplits modules dimensions options) := by
  intro e h
  obtain ⟨m, hm, h⟩ := exists_of_bundleSplits_error hmodules h
  exact AppModule.failsByInput_splits (hpaths m hm) e h

/-- Grouping the splits of a bundle fails by the architectures only. -/
theorem failsByInput_groupSplits (h : bundleSplits modules dimensions options = .ok splits)
    (filter : Option DeviceFilter) : FailsByInput (groupSplits splits filter) := by
  intro e he
  rw [groupSplits_of_bundleSplits h] at he
  dsimp only at he
  split at he
  · rw [← Except.error.inj he]
    rfl
  · cases he

/-- Planning the shards of a bundle fails by the input only. -/
theorem failsByInput_planShards (hmodules : modules ≠ [])
    (hpaths : ∀ m ∈ modules, PathsConsistent m.entries) (filter : Option DeviceFilter) :
    FailsByInput (planShards modules dimensions options filter) :=
  .bind (failsByInput_bundleSplits hmodules hpaths) fun _ h => failsByInput_groupSplits h filter

/-- A plan for one device is one shard. -/
theorem length_planShards_device {device : Device} {shards : List Shard}
    (h : planShards modules dimensions options (some (servingFilter device)) = .ok shards) :
    ∃ shard, shards = [shard] := by
  obtain ⟨splits, hsplits, h⟩ := bind_eq_ok_iff.mp h
  rw [groupSplits_device hsplits] at h
  dsimp only at h
  split at h
  · cases h
  · exact ⟨_, (Except.ok.inj h).symm⟩

/-- The master split of a module of system images is the only one without images. -/
theorem exists_apexMaster {m : AppModule} (h : m.splits ∅ options = .ok splits) :
    ∃ master, splits.filter (!·.targeting.hasMultiAbi) = [master] ∧
      master.targeting.isUntargeted := by
  have hdivision := AppModule.isDivision_of_splits h
  have hothers : splits.filter (!·.targeting.hasMultiAbi) =
      splits.filter (·.targeting.isUntargeted) := by
    refine List.filter_congr fun s hs => ?_
    have habis : m.abis ∅ options = ∅ := by simp [AppModule.abis]
    have hdensities : m.densities ∅ = ∅ := by simp [AppModule.densities]
    have htargeting := (hdivision.isPart s hs).targeting
    generalize s.targeting = t at htargeting
    cases htargeting with
    | untargeted => rfl
    | forAbi ha => simp [habis] at ha
    | forDensity hd => simp [hdensities] at hd
    | forLanguage hl => simp [Pipeline.dividesLanguages] at hl
    | forAbiSet _ => simp [Targeting.isUntargeted_eq]
  rw [hothers]
  have hone := hdivision.untargeted
  cases hmasters : splits.filter (·.targeting.isUntargeted) with
  | nil => simp [hmasters] at hone
  | cons master rest =>
    rw [hmasters, List.map_cons, List.cons.injEq, List.map_eq_nil_iff] at hone
    exact ⟨master, by rw [hone.2], by rw [hone.1]; rfl⟩

/-- Making the packages of a module of system images fails by the input only. -/
theorem failsByInput_shardApex {m : AppModule} (hpaths : PathsConsistent m.entries) :
    FailsByInput (shardApex m options) := by
  refine .bind (AppModule.failsByInput_splits hpaths) fun splits hsplits => ?_
  refine .bind ?_ fun shards _ => .mapM fun s _ => Package.failsByInput_fuse s ∅
  obtain ⟨master, hothers, hmaster⟩ := exists_apexMaster hsplits
  rw [groupApexSplits, hothers]
  simp only [hmaster, if_true]
  exact .ok _

/-- No bundle whatsoever breaks an assumption of the library: planning shards for all
configurations or for one device, making the packages for all configurations or for one
device, and making the packages of a module of system images fail by the input only. -/
theorem failsByInput_of_pathsConsistent (dimensions : OrderedSet Dimension)
    (options : ShardingOptions) (metadata : Metadata) (device : Device)
    (hmodules : modules ≠ []) (hpaths : ∀ m ∈ modules, PathsConsistent m.entries) :
    FailsByInput (planShards modules dimensions options none) ∧
      FailsByInput (planShards modules dimensions options (some (servingFilter device))) ∧
      FailsByInput (shardBundle modules dimensions options metadata) ∧
      FailsByInput (shardForDevice modules dimensions options metadata (servingFilter device)) ∧
      ∀ m ∈ modules, FailsByInput (shardApex m options) := by
  have hplan (filter : Option DeviceFilter) :
      FailsByInput (planShards modules dimensions options filter) :=
    failsByInput_planShards hmodules hpaths filter
  refine ⟨hplan none, hplan _, ?_, ?_, fun m hm => failsByInput_shardApex (hpaths m hm)⟩
  · exact .bind (hplan none) fun shards _ =>
      .mapM fun s _ => Package.failsByInput_fuse s metadata
  · refine .bind (hplan _) fun shards hshards => ?_
    obtain ⟨shard, rfl⟩ := length_planShards_device hshards
    exact SystemPackages.failsByInput_ofShard shard _ metadata device

/-- The sample breaks no assumption of the library on a device that runs no native code. -/
theorem failsByInput_sampleModules :
    sampleModules ≠ [] ∧ (∀ m ∈ sampleModules, PathsConsistent m.entries) ∧
      FailsByInput (shardForDevice sampleModules (.ofList Dimension.all) {} ∅
        (servingFilter { screenDensity := 300 })) := by
  have hmodules : sampleModules ≠ [] := by decide
  have hpaths : ∀ m ∈ sampleModules, PathsConsistent m.entries := by
    unfold PathsConsistent
    decide +kernel
  exact ⟨hmodules, hpaths,
    (failsByInput_of_pathsConsistent _ _ _ _ hmodules hpaths).2.2.2.1⟩

end AppBundle
