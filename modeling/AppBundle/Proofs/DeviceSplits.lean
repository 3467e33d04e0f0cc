import AppBundle.Proofs.Plan

/-!
# The splits for one device

Among the splits of a module for different architectures, or for different
density classes, exactly those of one value serve a device. Restricted to one
device the splits of a bundle form one class in each dimension, so that there
is one shard.
-/

namespace AppBundle

/-- The architecture among some that a device prefers. -/
def Device.preferredAbi (device : Device) (u : OrderedSet Abi) : Option Abi :=
  device.supportedAbis.find? (· ∈ u)

/-- The density class among some that suits the screen of a device best. -/
def Device.bestDensity (device : Device) (u : OrderedSet Density) : Option Density :=
  Density.bestMatch device.screenDensity.toNat u.toList

/-- No device prefers an architecture among none. -/
@[simp] theorem Device.preferredAbi_empty (device : Device) : device.preferredAbi ∅ = none := by
  simp [preferredAbi]

/-- No density class suits a screen best among none. -/
@[simp] theorem Device.bestDensity_empty (device : Device) : device.bestDensity ∅ = none := rfl

/-- The restriction to the splits that serve a device. -/
def servingFilter (device : Device) : DeviceFilter := { device }

@[simp] theorem passes_servingFilter (device : Device) (s : Split) :
    passes (some (servingFilter device)) s = s.targeting.serves device := rfl

namespace Targeting

variable {device : Device}

/-- The targeting of an architecture among others serves the devices that prefer it. -/
theorem serves_forAbi_iff {a : Abi} {u : OrderedSet Abi} (ha : a ∈ u) :
    (forAbi a (u.filter (· ≠ a))).serves device ↔ device.preferredAbi u = some a := by
  have hmem : forAbi a (u.filter (· ≠ a)) ∈ targetsOf forAbi u := List.mem_map_of_mem ha
  have hchoices := choices_of_mem_targetsOf abi_forAbi hmem
  have hvalues : (forAbi a (u.filter (· ≠ a))).abi.values = .singleton a := rfl
  rw [serves, servesAbi, hchoices, hvalues, servesDensity, servesLanguage, servesMultiAbi,
    Device.preferredAbi]
  cases hfind : device.supportedAbis.find? (· ∈ u) with
  | none => simp
  | some best => simp

/-- The targeting of a density class among others serves the devices it suits best. -/
theorem serves_forDensity_iff {d : Density} {u : OrderedSet Density} (hd : d ∈ u) :
    (forDensity d (u.filter (· ≠ d))).serves device ↔ device.bestDensity u = some d := by
  have hmem : forDensity d (u.filter (· ≠ d)) ∈ targetsOf forDensity u := List.mem_map_of_mem hd
  have hchoices := choices_of_mem_targetsOf density_forDensity hmem
  have hvalues : (forDensity d (u.filter (· ≠ d))).density.values = .singleton d := rfl
  rw [serves, servesDensity, hchoices, hvalues, servesAbi, servesLanguage, servesMultiAbi,
    Device.bestDensity]
  cases hbest : Density.bestMatch device.screenDensity.toNat u.toList with
  | none => simp
  | some best => simp

end Targeting

variable {modules : List AppModule} {dimensions : OrderedSet Dimension}
variable {options : ShardingOptions} {splits : List Split} {device : Device}

/-- Architecture splits of one universe that serve a device form one class. -/
theorem targetingClasses_abiSplits_device
    (h : bundleSplits modules dimensions options = .ok splits)
    (hlength : ¬ 1 < (distinctUniverses
      ((abiSplits splits (some (servingFilter device))).map (·.targeting.abi.choices))).length) :
    targetingClasses (abiSplits splits (some (servingFilter device))) =
      [abiSplits splits (some (servingFilter device))] := by
  have hpreferred (s : Split) (hs : s ∈ abiSplits splits (some (servingFilter device))) :
      ∃ a, device.preferredAbi s.targeting.abi.choices = some a ∧
        s.targeting = .forAbi a (s.targeting.abi.choices.filter (· ≠ a)) ∧
        s.targeting.abi.choices ≠ ∅ := by
    obtain ⟨hs, hserves⟩ := List.mem_filter.mp hs
    obtain ⟨habi, hserves⟩ := Bool.and_eq_true_iff.mp hserves
    obtain ⟨m, _, hpart⟩ := exists_isPart h hs
    have hmem := hpart.targeting.exists_forAbi habi
    have hchoices := choices_of_mem_targetsOf Targeting.abi_forAbi hmem
    obtain ⟨a, ha, ht⟩ := List.mem_map.mp hmem
    rw [passes_servingFilter, ← ht, Targeting.serves_forAbi_iff ha] at hserves
    refine ⟨a, by rw [hchoices, hserves], by rw [hchoices, ht], ?_⟩
    rw [hchoices]
    rintro hempty
    exact OrderedSet.not_mem_empty a (hempty ▸ ha)
  refine targetingClasses_of_forall_eq fun s hs t ht => ?_
  obtain ⟨a, ha, hsa, hsne⟩ := hpreferred s hs
  obtain ⟨b, hb, htb, htne⟩ := hpreferred t ht
  have huniverse := eq_of_length_distinctUniverses hlength
    (List.mem_map_of_mem hs) (List.mem_map_of_mem ht) hsne htne
  rw [huniverse, hb] at ha
  rw [hsa, htb, huniverse, Option.some.inj ha]

/-- If all splits of a dimension serve a value beside the other ones, those that serve a device
are those of the value that is best for it. -/
theorem filter_serves_eq_classAt {κ : Type} [Ord κ] [DecidableEq κ]
    {select : Targeting → Selection κ} {target : κ → OrderedSet κ → Targeting}
    {u : OrderedSet κ} {best : Option κ}
    (hselect : ∀ k others, select (target k others) = .one k others)
    (hall : ∀ s ∈ splits, (select s.targeting).isEmpty = false → s.targeting ∈ targetsOf target u)
    (hserves : ∀ k ∈ u, (target k (u.filter (· ≠ k))).serves device ↔ best = some k) :
    splits.filter (fun s => !(select s.targeting).isEmpty && s.targeting.serves device) =
      classAt select splits best := by
  refine List.filter_congr fun s hs => ?_
  cases hempty : (select s.targeting).isEmpty with
  | true =>
    rw [Bool.not_true, Bool.false_and, eq_comm, Bool.eq_false_iff]
    intro hvalue
    have hne := isEmpty_of_mem_classAt (List.mem_filter.mpr ⟨hs, hvalue⟩)
    rw [hempty] at hne
    cases hne
  | false =>
    obtain ⟨k, hk, ht⟩ := List.mem_map.mp (hall s hs hempty)
    rw [← ht, hselect, Bool.eq_iff_iff, Bool.and_eq_true, hserves k hk]
    simp [Selection.one, Option.any_eq_true]

/-- If the modules agree on their architectures, the architecture splits that serve a device
are those of the architecture that it prefers. -/
theorem abiSplits_device (h : bundleSplits modules dimensions options = .ok splits)
    (hagree : AbisAgree modules dimensions options) :
    abiSplits splits (some (servingFilter device)) = classAt Targeting.abi splits
      (device.preferredAbi (bundleAbis modules dimensions options)) :=
  filter_serves_eq_classAt Targeting.abi_forAbi
    (fun _ hs hne => mem_targetsOf_bundleAbis h hagree hs (by simp [Targeting.hasAbi, hne]))
    fun _ ha => Targeting.serves_forAbi_iff ha

/-- The density splits that serve a device are those of the density class that suits it best. -/
theorem densitySplits_device (h : bundleSplits modules dimensions options = .ok splits) :
    densitySplits splits (some (servingFilter device)) = classAt Targeting.density splits
      (device.bestDensity (bundleDensities modules dimensions)) :=
  filter_serves_eq_classAt Targeting.density_forDensity
    (fun _ hs hne => mem_targetsOf_bundleDensities h hs (by simp [Targeting.hasDensity, hne]))
    fun _ hd => Targeting.serves_forDensity_iff hd

/-- Density splits of a bundle that serve a device form one class. -/
theorem targetingClasses_densitySplits_device
    (h : bundleSplits modules dimensions options = .ok splits) :
    targetingClasses (densitySplits splits (some (servingFilter device))) =
      [densitySplits splits (some (servingFilter device))] := by
  refine targetingClasses_of_forall_eq fun s hs t ht => ?_
  rw [densitySplits_device h] at hs ht
  cases hbest : device.bestDensity (bundleDensities modules dimensions) with
  | none =>
    rw [hbest, classAt_none] at hs
    exact absurd hs List.not_mem_nil
  | some d =>
    rw [hbest] at hs ht
    rw [(targeting_of_mem_classAt_density h hs).2, (targeting_of_mem_classAt_density h ht).2]

/-- Grouping the splits of a bundle for one device gives one shard, unless the architecture
splits that serve the device do not share one universe. -/
theorem groupSplits_device (h : bundleSplits modules dimensions options = .ok splits) :
    groupSplits splits (some (servingFilter device)) =
      let byAbi := abiSplits splits (some (servingFilter device))
      let abis := distinctUniverses (byAbi.map (·.targeting.abi.choices))
      if 1 < abis.length then .error (.abiMismatch abis)
      else .ok [splits.filter Split.isMaster ++ languageSplits splits ++ byAbi ++
        densitySplits splits (some (servingFilter device))] := by
  rw [groupSplits_of_bundleSplits h]
  dsimp only
  by_cases hlength : 1 < (distinctUniverses
      ((abiSplits splits (some (servingFilter device))).map (·.targeting.abi.choices))).length
  · rw [if_pos hlength, if_pos hlength]
  · rw [if_neg hlength, if_neg hlength, targetingClasses_abiSplits_device h hlength,
      targetingClasses_densitySplits_device h]
    rfl

end AppBundle
