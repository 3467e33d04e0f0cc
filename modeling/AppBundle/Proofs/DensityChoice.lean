import AppBundle.Proofs.DeviceSplits
import AppBundle.Proofs.SplitEntries

/-!
# The density split for a device

A device gets the resources of one density split, which was filled for a density
class and not for the screen of the device. The main statement says that the
device gets the variant of each resource that suits its screen best all the same.
-/

namespace AppBundle

variable {m : AppModule} {dimensions : OrderedSet Dimension} {options : ShardingOptions}
variable {splits : List Split} {device : Device}

/-- Of the targetings of density classes only that of the best class serves a device. -/
theorem filter_serves_targetsOf {u : OrderedSet Density} {d : Density}
    (hbest : device.bestDensity u = some d) :
    (targetsOf .forDensity u).filter (·.serves device) = [.forDensity d (u.filter (· ≠ d))] := by
  have hd : d ∈ u := Density.mem_of_bestMatch hbest
  have hserves (k : Density) (hk : k ∈ u) :
      (Targeting.forDensity k (u.filter (· ≠ k))).serves device ↔ k = d := by
    rw [Targeting.serves_forDensity_iff hk, hbest, Option.some.injEq, eq_comm]
  rw [filter_targetsOf_eq hserves, if_pos hd]

namespace AppModule

/-- Exactly one density split of a module serves a device: the one for the best class. -/
theorem exists_densitySplit (hdim : .screenDensity ∈ dimensions)
    (h : m.splits dimensions options = .ok splits) (hvariants : m.variants ≠ [])
    (device : Device) :
    ∃ s bucket, splits.filter (fun s => s.targeting.hasDensity && s.targeting.serves device) = [s] ∧
      Density.bestMatch device.screenDensity.toNat Density.all = some bucket ∧
      s.entries = m.densityEntries bucket := by
  have hall : m.densities dimensions = .ofList Density.all :=
    if_pos ⟨hdim, by simpa using hvariants⟩
  obtain ⟨bucket, hbucket⟩ := Density.exists_bestMatch device.screenDensity.toNat
    (by decide : Density.all ≠ [])
  have hbest : device.bestDensity (m.densities dimensions) = some bucket := by
    rw [Device.bestDensity, hall, Density.toList_ofList_all, hbucket]
  have htargetings : (splits.filter fun s =>
      s.targeting.hasDensity && s.targeting.serves device).map Split.targeting =
      [.forDensity bucket ((m.densities dimensions).filter (· ≠ bucket))] := by
    rw [← filter_serves_targetsOf hbest, ← (isDivision_of_splits h).forDensity, List.filter_map,
      List.filter_filter]
    refine congrArg _ (List.filter_congr fun s _ => ?_)
    exact Bool.and_comm _ _
  obtain ⟨s, hs, ht⟩ := List.map_eq_singleton_iff.mp htargetings
  have hd : bucket ∈ m.densities dimensions := Density.mem_of_bestMatch hbest
  exact ⟨s, bucket, hs, hbucket,
    entries_of_forDensity h hd (mem_of_filter_eq_singleton hs) ht⟩

/-- A device gets one density split of a module, and in it one variant of each resource that
has variants: the one that suits the screen best among the densities that the resource has
in the module. Going through a density class makes no difference. -/
theorem exists_variant_for_device (hdim : .screenDensity ∈ dimensions)
    (h : m.splits dimensions options = .ok splits) (device : Device) {k : String}
    (hk : k ∈ DensityVariant.keys m.variants) :
    ∃ s v, splits.filter (fun s => s.targeting.hasDensity && s.targeting.serves device) = [s] ∧
      v ∈ m.variants ∧
      (s.entries.filterMap DensityVariant.ofEntry?).filter (·.key = k) = [v] ∧
      Density.bestMatch device.screenDensity.toNat
        (DensityVariant.densities m.variants k).toList = some v.density ∧
      Density.IsBestMatch device.screenDensity.toNat
        (DensityVariant.densities m.variants k).toList v.density ∧
      ((Density.bestMatch device.screenDensity.toNat Density.all).bind fun bucket =>
          DensityVariant.best? m.variants bucket k) =
        (Density.bestMatch device.screenDensity.toNat
          (DensityVariant.densities m.variants k).toList).bind
            (DensityVariant.entry? m.variants k) := by
  have hvariants : m.variants ≠ [] := by
    obtain ⟨v, hv, _⟩ := List.mem_map.mp (OrderedSet.mem_ofList.mp hk)
    exact List.ne_nil_of_mem hv
  obtain ⟨s, bucket, hs, hbucket, hentries⟩ := exists_densitySplit hdim h hvariants device
  obtain ⟨v, hv, _, hbest, hone⟩ := filter_key_densityEntries bucket hk
  have hdirect : Density.bestMatch device.screenDensity.toNat
      (DensityVariant.densities m.variants k).toList = some v.density := by
    rw [← Density.bestMatch_rounded, hbucket, Option.bind_some, hbest]
  refine ⟨s, v, hs, hv, hentries ▸ hone, hdirect, Density.isBestMatch_of_bestMatch hdirect, ?_⟩
  rw [hbucket, Option.bind_some, DensityVariant.best?, hbest, hdirect]
  rfl

/-- A screen of 300 dots per inch gets the icon of the sample for `xhdpi`. -/
theorem exists_variant_sampleBase :
    ∃ splits s v, sampleBase.splits (.ofList Dimension.all) {} = .ok splits ∧
      splits.filter (fun s => s.targeting.hasDensity &&
        s.targeting.serves { screenDensity := 300 }) = [s] ∧
      (s.entries.filterMap DensityVariant.ofEntry?).filter
        (·.key = "drawable[]/icon.png") = [v] ∧
      v.density = .xhdpi := by
  have hdim : .screenDensity ∈ OrderedSet.ofList Dimension.all := by decide
  have hk : "drawable[]/icon.png" ∈ DensityVariant.keys sampleBase.variants := by
    decide +kernel
  obtain ⟨splits, h⟩ : ∃ splits, sampleBase.splits (.ofList Dimension.all) {} = .ok splits :=
    exists_of_isSome_toOption (by decide +kernel)
  obtain ⟨s, v, hs, _, hone, hbest, _⟩ :=
    exists_variant_for_device hdim h { screenDensity := 300 } hk
  have hxhdpi : Density.bestMatch 300
      (DensityVariant.densities sampleBase.variants "drawable[]/icon.png").toList =
        some .xhdpi := by
    decide +kernel
  exact ⟨splits, s, v, h, hs, hone, Option.some.inj (hbest.symm.trans hxhdpi)⟩

end AppModule

end AppBundle
