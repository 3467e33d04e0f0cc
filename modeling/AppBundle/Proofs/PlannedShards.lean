import AppBundle.Proofs.LanguageCodes
import AppBundle.Proofs.Plan
import AppBundle.Proofs.SystemImage

/-!
# The shards of a restricted plan

A plan can be restricted to the splits that some decision accepts, and the decision can be any.
Whatever it is, each shard of the plan has the masters, the language splits, and of the
architecture and density splits one class each. This file proves that the targeting of a split of
such a shard is determined by the values that it serves.
-/

namespace AppBundle

variable {modules : List AppModule} {dimensions : OrderedSet Dimension}
variable {options : ShardingOptions} {filter : Option DeviceFilter} {splits : List Split}
variable {shards : List Shard} {shard : Shard}

/-- The splits of a class have the same targeting. -/
theorem targeting_eq_of_mem_targetingClasses {c : List Split} (hc : c ∈ targetingClasses splits)
    {s t : Split} (hs : s ∈ c) (ht : t ∈ c) : s.targeting = t.targeting := by
  unfold targetingClasses at hc
  split at hc
  · rw [List.mem_singleton.mp hc] at hs
    exact absurd hs List.not_mem_nil
  · obtain ⟨u, _, rfl⟩ := List.mem_map.mp hc
    rw [of_decide_eq_true (List.mem_filter.mp hs).2, of_decide_eq_true (List.mem_filter.mp ht).2]

/-- A shard of a plan consists of splits that serve one dimension at most, with one targeting for
all architectures and one for all density classes. -/
structure OfOneClass (modules : List AppModule) (dimensions : OrderedSet Dimension)
    (options : ShardingOptions) (shard : Shard) : Prop where
  /-- Every split is a part of a module. -/
  isPart : ∀ s ∈ shard, ∃ m ∈ modules, m.IsPart dimensions options s
  /-- The languages of the splits have codes. -/
  hasCodes : ∀ s ∈ shard, s.targeting.HasCodes
  /-- The architecture splits have one targeting. -/
  abi : ∀ s ∈ shard, ∀ t ∈ shard, s.targeting.hasAbi → t.targeting.hasAbi →
    s.targeting = t.targeting
  /-- The density splits have one targeting. -/
  density : ∀ s ∈ shard, ∀ t ∈ shard, s.targeting.hasDensity → t.targeting.hasDensity →
    s.targeting = t.targeting
  /-- No split serves sets of architectures. -/
  multiAbi : ∀ s ∈ shard, s.targeting.hasMultiAbi = false

/-- A shard of a plan consists of the masters, the language splits, and a class of architecture
splits and one of density splits. -/
theorem exists_classes_of_mem_planShards
    (h : planShards modules dimensions options filter = .ok shards) (hshard : shard ∈ shards) :
    ∃ splits, bundleSplits modules dimensions options = .ok splits ∧
      ∃ abiClass ∈ targetingClasses (abiSplits splits filter),
        ∃ densityClass ∈ targetingClasses (densitySplits splits filter),
          shard = splits.filter Split.isMaster ++ languageSplits splits ++ abiClass ++
            densityClass := by
  obtain ⟨splits, hsplits, hgroup⟩ := bind_eq_ok_iff.mp h
  rw [groupSplits_of_bundleSplits hsplits] at hgroup
  dsimp only at hgroup
  split at hgroup
  · cases hgroup
  obtain rfl := Except.ok.inj hgroup
  obtain ⟨abiClass, habi, hshard⟩ := List.mem_flatMap.mp hshard
  obtain ⟨densityClass, hdensity, rfl⟩ := List.mem_map.mp hshard
  exact ⟨splits, hsplits, abiClass, habi, densityClass, hdensity, rfl⟩

/-- Where a split of a shard comes from, with the dimensions that it serves. -/
inductive ComesFrom (abiClass densityClass : List Split) (s : Split) : Prop
  | common (hother : s.targeting.isUntargeted ∨ s.targeting.hasLanguage)
      (habi : s.targeting.hasAbi = false) (hdensity : s.targeting.hasDensity = false)
  | abi (hmem : s ∈ abiClass) (habi : s.targeting.hasAbi)
      (hdensity : s.targeting.hasDensity = false)
  | density (hmem : s ∈ densityClass) (habi : s.targeting.hasAbi = false)
      (hdensity : s.targeting.hasDensity)

namespace ComesFrom

variable {abiClass densityClass : List Split} {s : Split}

theorem mem_abiClass (h : ComesFrom abiClass densityClass s) (habi : s.targeting.hasAbi) :
    s ∈ abiClass := by
  cases h with
  | abi hmem => exact hmem
  | common _ hnone => simp [hnone] at habi
  | density _ hnone => simp [hnone] at habi

theorem mem_densityClass (h : ComesFrom abiClass densityClass s)
    (hdensity : s.targeting.hasDensity) : s ∈ densityClass := by
  cases h with
  | density hmem => exact hmem
  | common _ _ hnone => simp [hnone] at hdensity
  | abi _ _ hnone => simp [hnone] at hdensity

theorem hasMultiAbi_eq_false {m : AppModule} (h : ComesFrom abiClass densityClass s)
    (hpart : m.PartTargeting dimensions options s.targeting) :
    s.targeting.hasMultiAbi = false := by
  refine hpart.hasMultiAbi_eq_false ?_
  cases h with
  | common hother => exact hother.imp_right .inl
  | abi _ habi => exact .inr (.inr (.inl habi))
  | density _ _ hdensity => exact .inr (.inr (.inr hdensity))

end ComesFrom

/-- A split of a shard comes from one of its classes, or serves neither dimension. -/
theorem comesFrom_of_mem (hsplits : bundleSplits modules dimensions options = .ok splits)
    {abiClass densityClass : List Split}
    (habiClass : abiClass ∈ targetingClasses (abiSplits splits filter))
    (hdensityClass : densityClass ∈ targetingClasses (densitySplits splits filter)) {s : Split}
    (hs : s ∈ splits.filter Split.isMaster ++ languageSplits splits ++ abiClass ++ densityClass) :
    s ∈ splits ∧ ComesFrom abiClass densityClass s := by
  rcases List.mem_append.mp hs with hs | hs
  · rcases List.mem_append.mp hs with hs | hs
    · obtain ⟨habi, hdensity⟩ := hasAbi_hasDensity_of_common hsplits hs
      rcases List.mem_append.mp hs with hs | hs
      · obtain ⟨hs, hmaster⟩ := List.mem_filter.mp hs
        obtain ⟨m, _, hpart⟩ := exists_isPart hsplits hs
        exact ⟨hs, .common (.inl (hpart.isMaster ▸ hmaster)) habi hdensity⟩
      · obtain ⟨hs, hlanguage⟩ := List.mem_filter.mp hs
        exact ⟨hs, .common (.inr hlanguage) habi hdensity⟩
    · obtain ⟨hsplit, hpasses⟩ :=
        List.mem_filter.mp (mem_targetingClasses.mp ⟨abiClass, habiClass, hs⟩)
      have habi := (Bool.and_eq_true_iff.mp hpasses).1
      obtain ⟨m, _, hpart⟩ := exists_isPart hsplits hsplit
      refine ⟨hsplit, .abi hs habi (Bool.eq_false_iff.mpr fun hdensity => ?_)⟩
      simp [hpart.targeting.hasAbi_eq_false hdensity] at habi
  · obtain ⟨hsplit, hpasses⟩ :=
      List.mem_filter.mp (mem_targetingClasses.mp ⟨densityClass, hdensityClass, hs⟩)
    have hdensity := (Bool.and_eq_true_iff.mp hpasses).1
    obtain ⟨m, _, hpart⟩ := exists_isPart hsplits hsplit
    exact ⟨hsplit, .density hs (hpart.targeting.hasAbi_eq_false hdensity) hdensity⟩

/-- The shards of a plan are such shards, whatever splits the plan is restricted to. -/
theorem ofOneClass_of_mem_planShards
    (h : planShards modules dimensions options filter = .ok shards) (hshard : shard ∈ shards) :
    OfOneClass modules dimensions options shard := by
  obtain ⟨splits, hsplits, abiClass, habi, densityClass, hdensity, rfl⟩ :=
    exists_classes_of_mem_planShards h hshard
  have hfrom {s : Split} (hs : s ∈ splits.filter Split.isMaster ++ languageSplits splits ++
      abiClass ++ densityClass) : s ∈ splits ∧ ComesFrom abiClass densityClass s :=
    comesFrom_of_mem hsplits habi hdensity hs
  constructor
  · exact fun s hs => exists_isPart hsplits (hfrom hs).1
  · exact fun s hs => hasCodes_of_mem_bundleSplits hsplits (hfrom hs).1
  · intro s hs t ht hsabi htabi
    exact targeting_eq_of_mem_targetingClasses habi ((hfrom hs).2.mem_abiClass hsabi)
      ((hfrom ht).2.mem_abiClass htabi)
  · intro s hs t ht hsdensity htdensity
    exact targeting_eq_of_mem_targetingClasses hdensity ((hfrom hs).2.mem_densityClass hsdensity)
      ((hfrom ht).2.mem_densityClass htdensity)
  · intro s hs
    obtain ⟨m, _, hpart⟩ := exists_isPart hsplits (hfrom hs).1
    exact (hfrom hs).2.hasMultiAbi_eq_false hpart.targeting

/-- A part serves some value in each dimension that it targets. -/
theorem AppModule.PartTargeting.dimensions_eq {m : AppModule} {t : Targeting}
    (h : m.PartTargeting dimensions options t) :
    t.hasAbi = (!t.abi.values.isEmpty) ∧ t.hasDensity = (!t.density.values.isEmpty) ∧
      t.hasLanguage = (!t.language.values.isEmpty) := by
  cases h <;> exact ⟨rfl, rfl, rfl⟩

/-- A part with a language serves this language alone. -/
theorem AppModule.PartTargeting.exists_forLanguage {m : AppModule} {t : Targeting}
    (h : m.PartTargeting dimensions options t) (hlanguage : t.hasLanguage) :
    ∃ l, t = .forLanguage l := by
  cases h with
  | forLanguage _ => exact ⟨_, rfl⟩
  | untargeted => simp at hlanguage
  | forAbi _ => simp at hlanguage
  | forDensity _ => simp at hlanguage
  | forAbiSet _ => simp at hlanguage

/-- Splits of such a shard that serve the same values have the same targeting. -/
theorem OfOneClass.targeting_eq_of_sameValues (h : OfOneClass modules dimensions options shard)
    {s t : Split} (hs : s ∈ shard) (ht : t ∈ shard)
    (hsame : s.targeting.SameValues t.targeting) : s.targeting = t.targeting := by
  obtain ⟨m, _, hspart⟩ := h.isPart s hs
  obtain ⟨n, _, htpart⟩ := h.isPart t ht
  obtain ⟨hsabi, hsdensity, hslanguage⟩ := hspart.targeting.dimensions_eq
  obtain ⟨htabi, htdensity, htlanguage⟩ := htpart.targeting.dimensions_eq
  rw [hsame.abi, ← htabi] at hsabi
  rw [hsame.density, ← htdensity] at hsdensity
  rw [hsame.language, ← htlanguage] at hslanguage
  by_cases habi : t.targeting.hasAbi
  · exact h.abi s hs t ht (hsabi.trans habi) habi
  by_cases hdensity : t.targeting.hasDensity
  · exact h.density s hs t ht (hsdensity.trans hdensity) hdensity
  by_cases hlanguage : t.targeting.hasLanguage
  · obtain ⟨l, hl⟩ := hspart.targeting.exists_forLanguage (hslanguage.trans hlanguage)
    obtain ⟨l', hl'⟩ := htpart.targeting.exists_forLanguage hlanguage
    have hvalues := hsame.language
    rw [hl, hl'] at hvalues
    have hmem : l ∈ OrderedSet.singleton l' := by
      change OrderedSet.singleton l = OrderedSet.singleton l' at hvalues
      rw [← hvalues]
      exact OrderedSet.mem_singleton.mpr rfl
    rw [hl, hl', OrderedSet.mem_singleton.mp hmem]
  · have huntargeted {u : Split} (hu : u ∈ shard) (habi : u.targeting.hasAbi = false)
        (hdensity : u.targeting.hasDensity = false) (hlanguage : u.targeting.hasLanguage = false) :
        u.targeting = .untargeted := by
      have hnone := Targeting.isUntargeted_eq u.targeting
      rw [habi, hdensity, hlanguage, h.multiAbi u hu] at hnone
      exact of_decide_eq_true hnone
    rw [Bool.not_eq_true] at habi hdensity hlanguage
    rw [huntargeted hs (hsabi.trans habi) (hsdensity.trans hdensity) (hslanguage.trans hlanguage),
      huntargeted ht habi hdensity hlanguage]

end AppBundle
