import AppBundle.Proofs.CombinedTargeting
import AppBundle.Proofs.LanguageDivision
import Mathlib.Tactic.Choose

/-!
# Packages with and without languages

Every package of a bundle holds the content of all languages, so that dividing content by
language changes nothing but the languages that the packages name. This file proves that a bundle
can be packed with languages exactly when it can without, and that the packages are the same in
all else.
-/

namespace AppBundle

/-- Two packages differ in languages only. -/
structure Package.SameButLanguages (p q : Package) : Prop where
  /-- They have the same modules in the same order. -/
  modules : p.modules = q.modules
  /-- They have the same entries in the same order. -/
  entries : p.entries = q.entries
  /-- They serve the same architectures, beside the same others. -/
  abi : p.targeting.abi = q.targeting.abi
  /-- They serve the same classes of screen density, beside the same others. -/
  density : p.targeting.density = q.targeting.density
  /-- They serve the same sets of architectures, beside the same others. -/
  multiAbi : p.targeting.multiAbi = q.targeting.multiAbi

/-- Shards have one selection together if their targeted splits are the same. -/
theorem Selection.combine_of_filter {κ : Type} [Ord κ] [Std.TransOrd κ] [Std.LawfulEqOrd κ]
    [DecidableEq κ] {select : Targeting → Selection κ} {shard shard' : Shard}
    (h : shard.filter (fun s => !(select s.targeting).isEmpty) =
      shard'.filter (fun s => !(select s.targeting).isEmpty)) :
    combine ((shard.map Split.targeting).map select) =
      combine ((shard'.map Split.targeting).map select) := by
  have hselected (shard : Shard) {t : Selection κ} (ht : t.isEmpty = false) :
      t ∈ (shard.map Split.targeting).map select ↔
        ∃ s ∈ shard.filter (fun s => !(select s.targeting).isEmpty), select s.targeting = t := by
    simp only [List.mem_map, List.mem_filter, exists_exists_and_eq_and]
    refine exists_congr fun s => ⟨fun hs => ?_, fun hs => ⟨hs.1.1, hs.2⟩⟩
    exact ⟨⟨hs.1, by rw [hs.2, ht, Bool.not_false]⟩, hs.2⟩
  refine combine_congr fun t ht => ?_
  rw [hselected shard ht, hselected shard' ht, h]

variable {modules : List AppModule} {dimensions dimensions' : OrderedSet Dimension}
variable {options options' : ShardingOptions} {metadata : Metadata} {splits splits' : List Split}
variable {point : Option Abi × Option Density}

section Agree

variable (hagree : AgreeBesideLanguages dimensions options dimensions' options')
include hagree

/-- Modules have the same architectures in both settings. -/
theorem AppModule.abis_of_agree (m : AppModule) :
    m.abis dimensions options = m.abis dimensions' options' := by
  simp only [AppModule.abis, hagree.abi, hagree.keeps]

/-- The architectures of a bundle are the same in both settings. -/
theorem bundleAbis_of_agree (modules : List AppModule) :
    bundleAbis modules dimensions options = bundleAbis modules dimensions' options' := by
  refine OrderedSet.ext fun a => ?_
  simp only [mem_bundleAbis, AppModule.abis_of_agree hagree]

/-- The grid of packages is the same in both settings. -/
theorem gridPoints_of_agree (modules : List AppModule) :
    gridPoints modules dimensions options = gridPoints modules dimensions' options' := by
  have hdensities : bundleDensities modules dimensions = bundleDensities modules dimensions' := by
    simp only [bundleDensities, hagree.screenDensity]
  rw [gridPoints, gridPoints, bundleAbis_of_agree hagree, hdensities]

/-- Modules agree on their architectures in both settings or in none. -/
theorem abisAgree_of_agree (h : AbisAgree modules dimensions options) :
    AbisAgree modules dimensions' options' := by
  intro m hm
  rw [← AppModule.abis_of_agree hagree, ← bundleAbis_of_agree hagree]
  exact h m hm

/-- The splits of a bundle can be made in both settings or in none, and they differ in languages
only. -/
theorem exists_bundleSplits_of_agree (h : bundleSplits modules dimensions options = .ok splits) :
    ∃ splits', bundleSplits modules dimensions' options' = .ok splits' ∧
      SplitsAlike splits splits' := by
  obtain ⟨hne, splitsOf, hall, rfl⟩ := exists_of_bundleSplits h
  choose! splitsOf' hall' halike using fun m (hm : m ∈ modules) =>
    AppModule.exists_splits_of_agree hagree (hall m hm)
  exact ⟨_, bundleSplits_of_forall hne hall', .flatMap halike⟩

end Agree

/-- The master splits and the language splits of a bundle are those for all packages. -/
theorem mem_common_iff (h : bundleSplits modules dimensions options = .ok splits) {s : Split}
    (hs : s ∈ splits) :
    s ∈ splits.filter Split.isMaster ++ languageSplits splits ↔ s.targeting.isCommon := by
  obtain ⟨m, _, hpart⟩ := exists_isPart h hs
  rw [List.mem_append, languageSplits, List.mem_filter, List.mem_filter, and_iff_right hs,
    and_iff_right hs, hpart.isMaster]
  have htargeting := hpart.targeting
  generalize s.targeting = t at htargeting
  cases htargeting <;> simp [Targeting.isUntargeted_eq, Targeting.isCommon]

/-- The splits that serve an architecture or a density class are the same in divisions that
differ in languages only. -/
theorem SplitsAlike.classAt {κ : Type} [Ord κ] [DecidableEq κ] (h : SplitsAlike splits splits')
    (select : Targeting → Selection κ) (huntargeted : select .untargeted = ∅)
    (hlanguage : ∀ l, select (.forLanguage l) = ∅) (k? : Option κ) :
    classAt select splits k? = classAt select splits' k? := by
  have hnone : (k?.any fun k => decide (k ∈ (∅ : OrderedSet κ))) = false := by
    cases k? <;> simp
  refine h.targeted (fun t => k?.any (· ∈ (select t).values)) ?_ fun l => ?_
  · rw [huntargeted]
    exact hnone
  · rw [hlanguage]
    exact hnone

section Shards

variable (h : bundleSplits modules dimensions options = .ok splits)
variable (h' : bundleSplits modules dimensions' options' = .ok splits')
variable (halike : SplitsAlike splits splits')
include h h' halike

/-- An entry of a shard is in the other shard too, under the same name. -/
theorem exists_mem_shardAt_of_alike {s : Split} (hs : s ∈ shardAt splits point) {e : Entry}
    (he : e ∈ s.entries) :
    ∃ s' ∈ shardAt splits' point, s'.moduleName = s.moduleName ∧ e ∈ s'.entries := by
  have habi := halike.classAt Targeting.abi rfl (fun _ => rfl) point.1
  have hdensity := halike.classAt Targeting.density rfl (fun _ => rfl) point.2
  have hmem := mem_of_mem_shardAt hs
  rw [shardAt, List.append_assoc, List.mem_append, mem_common_iff h hmem, habi, hdensity] at hs
  rcases hs with hcommon | htargeted
  · obtain ⟨s', hs', hname, hcommon', he'⟩ :=
      (halike.common s.moduleName e).mp ⟨s, hmem, rfl, hcommon, he⟩
    refine ⟨s', ?_, hname, he'⟩
    rw [shardAt, List.append_assoc, List.mem_append, mem_common_iff h' hs']
    exact .inl hcommon'
  · refine ⟨s, ?_, rfl, he⟩
    rw [shardAt, List.append_assoc, List.mem_append]
    exact .inr htargeted

omit halike in
/-- Both shards have the same dex files, with the same numbers. -/
theorem packageDex_shardAt_eq :
    packageDex (shardAt splits point) = packageDex (shardAt splits' point) := by
  rw [packageDex, packageDex, dexByModule_shardAt h, dexByModule_shardAt h']

omit halike in
/-- Both shards keep the same manifest. -/
theorem manifestOwner_shardAt_eq :
    manifestOwner (shardAt splits point) = manifestOwner (shardAt splits' point) := by
  rw [manifestOwner_shardAt h, manifestOwner_shardAt h']

/-- The packages of both shards are filled with the same entries. -/
theorem mem_fusedEntries_of_alike (e : Entry) :
    e ∈ fusedEntries (shardAt splits point) metadata ↔
      e ∈ fusedEntries (shardAt splits' point) metadata := by
  refine mem_fusedEntries_congr (packageDex_shardAt_eq h h') (manifestOwner_shardAt_eq h h')
    (fun name e => ?_) e
  constructor
  · rintro ⟨s, hs, rfl, he⟩
    exact exists_mem_shardAt_of_alike h h' halike hs he
  · rintro ⟨s, hs, rfl, he⟩
    exact exists_mem_shardAt_of_alike h' h halike.symm hs he

/-- The shards serve the same but for languages. -/
theorem combine_shardAt_of_alike (point : Option Abi × Option Density) :
    let t := Targeting.combine ((shardAt splits point).map Split.targeting)
    let t' := Targeting.combine ((shardAt splits' point).map Split.targeting)
    t.abi = t'.abi ∧ t.density = t'.density ∧ t.multiAbi = t'.multiAbi := by
  have hnone {modules : List AppModule} {dimensions : OrderedSet Dimension}
      {options : ShardingOptions} {splits : List Split}
      (h : bundleSplits modules dimensions options = .ok splits) :
      (shardAt splits point).filter (fun s => !s.targeting.multiAbi.isEmpty) = [] := by
    refine List.filter_eq_nil_iff.mpr fun s hs hmulti => ?_
    have hfalse := hasMultiAbi_of_mem_shardAt h hs
    rw [Targeting.hasMultiAbi, hmulti] at hfalse
    cases hfalse
  rw [Targeting.combine_eq, Targeting.combine_eq]
  refine ⟨?_, ?_, ?_⟩
  · apply Selection.combine_of_filter
    have habi := filter_hasAbi_shardAt h point
    rw [halike.classAt Targeting.abi rfl (fun _ => rfl), ← filter_hasAbi_shardAt h' point] at habi
    exact habi
  · apply Selection.combine_of_filter
    have hdensity := filter_hasDensity_shardAt h point
    rw [halike.classAt Targeting.density rfl (fun _ => rfl), ← filter_hasDensity_shardAt h' point]
      at hdensity
    exact hdensity
  · apply Selection.combine_of_filter
    rw [hnone h, hnone h']

end Shards

/-- Shards that differ in languages only are fused to packages that differ in languages only. -/
theorem exists_fuse_of_alike (h : bundleSplits modules dimensions options = .ok splits)
    (h' : bundleSplits modules dimensions' options' = .ok splits')
    (halike : SplitsAlike splits splits') {p : Package}
    (hfuse : Package.fuse (shardAt splits point) metadata = .ok p) :
    ∃ q, Package.fuse (shardAt splits' point) metadata = .ok q ∧ p.SameButLanguages q := by
  have hother := Package.exists_fuse_of_mem_iff hfuse (mem_fusedEntries_of_alike h h' halike)
  have hmodules : shardModules (shardAt splits point) = shardModules (shardAt splits' point) := by
    rw [shardModules_shardAt h, shardModules_shardAt h']
  obtain ⟨habi, hdensity, hmulti⟩ := combine_shardAt_of_alike h h' halike point
  obtain ⟨files, _, rfl⟩ := Package.fuse_eq_ok_iff.mp hfuse
  refine ⟨_, hother, ?_⟩
  constructor
  · exact hmodules
  · rw [Package.entries_ofFiles, Package.files_ofFiles, Package.entries_ofFiles]
  · exact habi
  · exact hdensity
  · exact hmulti

/-- A bundle that can be packed in one setting can be packed in another one that differs in
languages only. -/
theorem exists_shardBundle_of_agree
    (hagree : AgreeBesideLanguages dimensions options dimensions' options')
    {packages : List Package}
    (h : shardBundle modules dimensions options metadata = .ok packages) :
    ∃ packages', shardBundle modules dimensions' options' metadata = .ok packages' ∧
      List.Forall₂ Package.SameButLanguages packages packages' := by
  refine exists_shardBundle_of_fuse (gridPoints_of_agree hagree modules)
    (abisAgree_of_agree hagree) (fun splits hsplits => ?_) h
  obtain ⟨splits', hsplits', halike⟩ := exists_bundleSplits_of_agree hagree hsplits
  exact ⟨splits', hsplits', fun point p hp => exists_fuse_of_alike hsplits hsplits' halike hp⟩

/-- Packing a bundle with content divided by language fails exactly when it fails without, and
otherwise gives the same packages but for the languages that they name. -/
theorem alike_shardBundle_of_language (modules : List AppModule)
    (dimensions : OrderedSet Dimension) (options : ShardingOptions) (metadata : Metadata) :
    Alike (List.Forall₂ Package.SameButLanguages)
      (shardBundle modules (dimensions.insert .language) { options with splitByLanguage := true }
        metadata)
      (shardBundle modules (dimensions.filter (· ≠ .language)) options metadata) := by
  have hagree : AgreeBesideLanguages (dimensions.insert .language)
      { options with splitByLanguage := true } (dimensions.filter (· ≠ .language)) options := by
    constructor
    · simp
    · simp
    · rfl
  apply alike_of_forall
  · intro packages h
    exact exists_shardBundle_of_agree hagree h
  · intro packages h
    obtain ⟨packages', h', _⟩ := exists_shardBundle_of_agree hagree.symm h
    exact ⟨packages', h'⟩

end AppBundle
