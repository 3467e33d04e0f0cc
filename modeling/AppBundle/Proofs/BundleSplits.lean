import AppBundle.Proofs.Coordinates
import AppBundle.Proofs.ModuleSplits
import AppBundle.Sharding

/-!
# The splits of a bundle

The splits of all modules together keep the assumptions under which they are
grouped: every split serves one dimension at most, the masters are untargeted,
and all modules are divided by the same density classes. Only the architectures
may differ from module to module.
-/

namespace AppBundle

/-- The architectures of a bundle: those of the kept native libraries of all modules. -/
def bundleAbis (modules : List AppModule) (dimensions : OrderedSet Dimension)
    (options : ShardingOptions) : OrderedSet Abi :=
  if .abi ∈ dimensions then
    .ofList (((modules.flatMap AppModule.entries).filterMap Entry.abi?).filter options.keeps)
  else ∅

/-- The density classes of a bundle: all of them if some module has a resource for one
density, and none else. -/
def bundleDensities (modules : List AppModule) (dimensions : OrderedSet Dimension) :
    OrderedSet Density :=
  if .screenDensity ∈ dimensions ∧
      (modules.flatMap AppModule.entries).any fun e => (DensityVariant.ofEntry? e).isSome then
    .ofList Density.all
  else ∅

/-- Every module is divided by all architectures of the bundle or by none. -/
def AbisAgree (modules : List AppModule) (dimensions : OrderedSet Dimension)
    (options : ShardingOptions) : Prop :=
  ∀ m ∈ modules, m.abis dimensions options = ∅ ∨
    m.abis dimensions options = bundleAbis modules dimensions options

namespace AppModule.PartTargeting

variable {m : AppModule} {dimensions : OrderedSet Dimension} {options : ShardingOptions}
variable {t : Targeting}

/-- A part with an architecture serves it beside the other ones of the module. -/
theorem exists_forAbi (h : m.PartTargeting dimensions options t) (habi : t.hasAbi) :
    t ∈ targetsOf .forAbi (m.abis dimensions options) := by
  cases h with
  | forAbi ha => exact List.mem_map_of_mem ha
  | untargeted => simp at habi
  | forDensity _ => simp at habi
  | forLanguage _ => simp at habi
  | forAbiSet _ => simp at habi

/-- A part with a density class serves it beside the other ones of the module. -/
theorem exists_forDensity (h : m.PartTargeting dimensions options t) (hdensity : t.hasDensity) :
    t ∈ targetsOf .forDensity (m.densities dimensions) := by
  cases h with
  | forDensity hd => exact List.mem_map_of_mem hd
  | untargeted => simp at hdensity
  | forAbi _ => simp at hdensity
  | forLanguage _ => simp at hdensity
  | forAbiSet _ => simp at hdensity

/-- Untargeted parts and parts with a language serve no architecture and no density class. -/
theorem hasAbi_hasDensity_eq_false (h : m.PartTargeting dimensions options t)
    (hcommon : t.isUntargeted ∨ t.hasLanguage) : t.hasAbi = false ∧ t.hasDensity = false := by
  cases h <;> simp_all [Targeting.isUntargeted_eq]

/-- Parts with a density class serve no architecture. -/
theorem hasAbi_eq_false (h : m.PartTargeting dimensions options t) (hdensity : t.hasDensity) :
    t.hasAbi = false := by
  cases h <;> simp_all

/-- Without division by language no part has a language. -/
theorem hasLanguage_eq_false (h : m.PartTargeting dimensions options t)
    (hlanguages : Pipeline.dividesLanguages dimensions options = false) :
    t.hasLanguage = false := by
  cases h with
  | forLanguage hdivides => simp [hlanguages] at hdivides
  | untargeted => simp
  | forAbi _ => simp
  | forDensity _ => simp
  | forAbiSet _ => simp

/-- Parts that are untargeted or targeted in another dimension serve no set of architectures. -/
theorem hasMultiAbi_eq_false (h : m.PartTargeting dimensions options t)
    (hother : t.isUntargeted ∨ t.hasLanguage ∨ t.hasAbi ∨ t.hasDensity) :
    t.hasMultiAbi = false := by
  cases h with
  | forAbiSet _ => simp [Targeting.isUntargeted_eq] at hother
  | untargeted => simp
  | forAbi _ => simp
  | forDensity _ => simp
  | forLanguage _ => simp

end AppModule.PartTargeting

variable {modules : List AppModule} {dimensions : OrderedSet Dimension}
variable {options : ShardingOptions} {splits : List Split}

/-- An architecture of the bundle is one of some module. -/
theorem mem_bundleAbis {a : Abi} :
    a ∈ bundleAbis modules dimensions options ↔
      ∃ m ∈ modules, a ∈ m.abis dimensions options := by
  unfold bundleAbis
  simp only [AppModule.mem_abis]
  split
  · simp only [OrderedSet.mem_ofList, List.mem_filter, List.mem_filterMap, List.mem_flatMap]
    constructor
    · rintro ⟨⟨e, ⟨m, hm, he⟩, ha⟩, hkeeps⟩
      exact ⟨m, hm, ‹_›, hkeeps, e, he, ha⟩
    · rintro ⟨m, hm, _, hkeeps, e, he, ha⟩
      exact ⟨⟨e, ⟨m, hm, he⟩, ha⟩, hkeeps⟩
  · simp [*]

/-- Every module is divided by all density classes of the bundle or by none. -/
theorem densities_eq {m : AppModule} (hm : m ∈ modules) :
    m.densities dimensions = ∅ ∨ m.densities dimensions = bundleDensities modules dimensions := by
  unfold AppModule.densities
  split
  · rename_i h
    obtain ⟨v, hv⟩ : ∃ v, v ∈ m.variants := List.exists_mem_of_ne_nil _ (by simpa using h.2)
    obtain ⟨e, he, hev⟩ := AppModule.mem_variants.mp hv
    refine .inr (if_pos ⟨h.1, List.any_eq_true.mpr ⟨e, ?_, ?_⟩⟩).symm
    · exact List.mem_flatMap.mpr ⟨m, hm, he⟩
    · rw [hev, Option.isSome_some]
  · exact .inl rfl

/-- A density class of the bundle is one of some module. -/
theorem mem_bundleDensities {d : Density} :
    d ∈ bundleDensities modules dimensions ↔ ∃ m ∈ modules, d ∈ m.densities dimensions := by
  constructor
  · intro hd
    unfold bundleDensities at hd
    split at hd
    · rename_i h
      obtain ⟨e, he, hvariant⟩ := List.any_eq_true.mp h.2
      obtain ⟨m, hm, he⟩ := List.mem_flatMap.mp he
      obtain ⟨v, hv⟩ := Option.isSome_iff_exists.mp hvariant
      have hne : m.variants ≠ [] :=
        List.ne_nil_of_mem (AppModule.mem_variants.mpr ⟨e, he, hv⟩)
      refine ⟨m, hm, ?_⟩
      rw [AppModule.densities, if_pos ⟨h.1, by simpa using hne⟩]
      exact hd
    · exact absurd hd (OrderedSet.not_mem_empty d)
  · rintro ⟨m, hm, hd⟩
    rcases densities_eq hm with h | h
    · exact absurd (h ▸ hd) (OrderedSet.not_mem_empty d)
    · exact h ▸ hd

/-- The splits of a bundle are those of its modules, one after another. -/
theorem exists_of_bundleSplits (h : bundleSplits modules dimensions options = .ok splits) :
    modules ≠ [] ∧ ∃ splitsOf : AppModule → List Split,
      (∀ m ∈ modules, m.splits dimensions options = .ok (splitsOf m)) ∧
        splits = modules.flatMap splitsOf := by
  cases modules with
  | nil => cases h
  | cons m ms =>
    obtain ⟨lists, hlists, h⟩ := bind_eq_ok_iff.mp h
    obtain ⟨splitsOf, hall, rfl⟩ := exists_map_of_mapM_eq_ok hlists
    refine ⟨List.cons_ne_nil _ _, splitsOf, hall, ?_⟩
    rw [← Except.ok.inj h, List.flatMap_def]

/-- The splits of a bundle can be made if those of all modules can. -/
theorem bundleSplits_of_forall {splitsOf : AppModule → List Split} (hmodules : modules ≠ [])
    (h : ∀ m ∈ modules, m.splits dimensions options = .ok (splitsOf m)) :
    bundleSplits modules dimensions options = .ok (modules.flatMap splitsOf) := by
  have hlists : modules.mapM (·.splits dimensions options) = .ok (modules.map splitsOf) := by
    rw [mapM_eq_ok_iff, List.forall₂_map_right_iff, List.forall₂_same]
    exact h
  cases modules with
  | nil => exact absurd rfl hmodules
  | cons m ms =>
    refine bind_eq_ok_iff.mpr ⟨_, hlists, ?_⟩
    rw [List.flatMap_def]
    rfl

/-- Making the splits of a bundle of some modules fails only if it fails for one of them. -/
theorem exists_of_bundleSplits_error {e : ShardError} (hmodules : modules ≠ [])
    (h : bundleSplits modules dimensions options = .error e) :
    ∃ m ∈ modules, m.splits dimensions options = .error e := by
  cases modules with
  | nil => exact absurd rfl hmodules
  | cons m ms =>
    rcases bind_eq_error_iff.mp h with h | ⟨lists, _, h⟩
    · exact exists_of_mapM_eq_error h
    · cases h

section Splits

variable (h : bundleSplits modules dimensions options = .ok splits)
include h

/-- Every split of a bundle belongs to one of the modules. -/
theorem exists_isPart {s : Split} (hs : s ∈ splits) :
    ∃ m ∈ modules, m.IsPart dimensions options s := by
  obtain ⟨_, splitsOf, hall, rfl⟩ := exists_of_bundleSplits h
  obtain ⟨m, hm, hs⟩ := List.mem_flatMap.mp hs
  exact ⟨m, hm, (AppModule.isDivision_of_splits (hall m hm)).isPart s hs⟩

/-- The targetings of the architecture splits, module by module. -/
theorem targetings_abiSplits :
    (abiSplits splits none).map Split.targeting =
      (modules.map (·.abis dimensions options)).flatMap (targetsOf .forAbi) := by
  obtain ⟨_, splitsOf, hall, rfl⟩ := exists_of_bundleSplits h
  simp only [abiSplits, passes, Option.all_none, Bool.and_true, List.filter_flatMap,
    List.map_flatMap, List.flatMap_map]
  exact List.flatMap_congr fun m hm => (AppModule.isDivision_of_splits (hall m hm)).forAbi

/-- The targetings of the density splits, module by module. -/
theorem targetings_densitySplits :
    (densitySplits splits none).map Split.targeting =
      (modules.map (·.densities dimensions)).flatMap (targetsOf .forDensity) := by
  obtain ⟨_, splitsOf, hall, rfl⟩ := exists_of_bundleSplits h
  simp only [densitySplits, passes, Option.all_none, Bool.and_true, List.filter_flatMap,
    List.map_flatMap, List.flatMap_map]
  exact List.flatMap_congr fun m hm => (AppModule.isDivision_of_splits (hall m hm)).forDensity

/-- The master splits of a bundle are accepted. -/
theorem masterSplits_of_bundleSplits :
    masterSplits splits = .ok (splits.filter Split.isMaster) := by
  refine masterSplits_eq ?_ fun s hs hmaster => ?_
  · obtain ⟨hne, splitsOf, hall, rfl⟩ := exists_of_bundleSplits h
    obtain ⟨m, hm⟩ := List.exists_mem_of_ne_nil _ hne
    have hdivision := AppModule.isDivision_of_splits (hall m hm)
    have hmasters : (splitsOf m).filter Split.isMaster ≠ [] := by
      rw [AppModule.filter_isMaster hdivision.isPart]
      intro hnil
      simpa [hnil] using hdivision.untargeted
    obtain ⟨s, hs⟩ := List.exists_mem_of_ne_nil _ hmasters
    obtain ⟨hs, hmaster⟩ := List.mem_filter.mp hs
    exact List.ne_nil_of_mem
      (List.mem_filter.mpr ⟨List.mem_flatMap.mpr ⟨m, hm, hs⟩, hmaster⟩)
  · obtain ⟨m, _, hpart⟩ := exists_isPart h hs
    rwa [← hpart.isMaster]

/-- Every density split of a bundle serves a density class beside all other ones of the
bundle. -/
theorem mem_targetsOf_bundleDensities {s : Split} (hs : s ∈ splits)
    (hdensity : s.targeting.hasDensity) :
    s.targeting ∈ targetsOf .forDensity (bundleDensities modules dimensions) := by
  obtain ⟨m, hm, hpart⟩ := exists_isPart h hs
  have hmem := hpart.targeting.exists_forDensity hdensity
  rcases densities_eq hm with hnone | hall
  · rw [hnone] at hmem
    exact absurd hmem List.not_mem_nil
  · rwa [← hall]

/-- If the architecture splits share one universe, the modules agree on their architectures. -/
theorem abisAgree_of_length
    (hlength : ¬ 1 < (distinctUniverses
      ((abiSplits splits none).map (·.targeting.abi.choices))).length) :
    AbisAgree modules dimensions options := by
  intro m hm
  have hmem (a : Abi) : a ∈ bundleAbis modules dimensions options ↔
      ∃ v ∈ modules.map (·.abis dimensions options), a ∈ v := by
    simp [mem_bundleAbis]
  exact eq_empty_or_eq_of_length Targeting.abi_forAbi (targetings_abiSplits h) hmem hlength
    (List.mem_map_of_mem hm)

/-- If the modules agree on their architectures, every architecture split serves one beside
all other ones of the bundle. -/
theorem mem_targetsOf_bundleAbis (hagree : AbisAgree modules dimensions options) {s : Split}
    (hs : s ∈ splits) (habi : s.targeting.hasAbi) :
    s.targeting ∈ targetsOf .forAbi (bundleAbis modules dimensions options) := by
  obtain ⟨m, hm, hpart⟩ := exists_isPart h hs
  have hmem := hpart.targeting.exists_forAbi habi
  rcases hagree m hm with hnone | hall
  · rw [hnone] at hmem
    exact absurd hmem List.not_mem_nil
  · rwa [← hall]

/-- If the modules agree on their architectures, the architecture splits share one universe. -/
theorem length_of_abisAgree (hagree : AbisAgree modules dimensions options)
    (filter : Option DeviceFilter) :
    ¬ 1 < (distinctUniverses
      ((abiSplits splits filter).map (·.targeting.abi.choices))).length := by
  have huniverse (u : OrderedSet Abi)
      (hu : u ∈ (abiSplits splits filter).map (·.targeting.abi.choices)) :
      u = ∅ ∨ u = bundleAbis modules dimensions options := by
    obtain ⟨s, hs, rfl⟩ := List.mem_map.mp hu
    obtain ⟨hs, hpasses⟩ := List.mem_filter.mp hs
    have hmem := mem_targetsOf_bundleAbis h hagree hs (Bool.and_eq_true_iff.mp hpasses).1
    exact .inr (choices_of_mem_targetsOf Targeting.abi_forAbi hmem)
  exact length_distinctUniverses huniverse

/-- Grouping the splits of a bundle fails only if the architecture splits do not share one
universe. -/
theorem groupSplits_of_bundleSplits (filter : Option DeviceFilter) :
    groupSplits splits filter =
      let abis := distinctUniverses ((abiSplits splits filter).map (·.targeting.abi.choices))
      if 1 < abis.length then .error (.abiMismatch abis)
      else .ok ((targetingClasses (abiSplits splits filter)).flatMap fun abiClass =>
        (targetingClasses (densitySplits splits filter)).map fun densityClass =>
          splits.filter Split.isMaster ++ languageSplits splits ++ abiClass ++ densityClass) := by
  have hdimensions (s : Split) (hs : s ∈ splits) :
      (s.targeting.hasAbi && s.targeting.hasDensity) = false := by
    obtain ⟨m, _, hpart⟩ := exists_isPart h hs
    cases hdensity : s.targeting.hasDensity with
    | false => rw [Bool.and_false]
    | true => rw [hpart.targeting.hasAbi_eq_false hdensity, Bool.false_and]
  have huniverse (u : OrderedSet Density)
      (hu : u ∈ (densitySplits splits filter).map (·.targeting.density.choices)) :
      u = ∅ ∨ u = bundleDensities modules dimensions := by
    obtain ⟨s, hs, rfl⟩ := List.mem_map.mp hu
    obtain ⟨hs, hpasses⟩ := List.mem_filter.mp hs
    have hmem := mem_targetsOf_bundleDensities h hs (Bool.and_eq_true_iff.mp hpasses).1
    exact .inr (choices_of_mem_targetsOf Targeting.density_forDensity hmem)
  exact groupSplits_eq filter hdimensions (masterSplits_of_bundleSplits h)
    (length_distinctUniverses huniverse)

end Splits

end AppBundle
