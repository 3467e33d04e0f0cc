import AppBundle.Generate
import AppBundle.Proofs.Division
import AppBundle.Proofs.ModuleContent
import AppBundle.Proofs.Outcomes

/-!
# The parts of a module

Each kind of content goes through its own pipeline. This file gives the parts
that the pipelines make without the pipelines, as divisions of the kinds of
content by labels, and lists the targetings of the parts.
-/

namespace AppBundle

/-- A pipeline of one splitter is that splitter. -/
theorem Pipeline.split_singleton (splitter : Splitter) (s : Split) :
    Pipeline.split [splitter] s = splitter.split s := by
  cases h : splitter.split s <;>
    simp [Pipeline.split, Pipeline.splitAll, Splitter.splitEach, h, bind, Except.bind, pure,
      Except.pure]

/-- A splitter that is applied to a split and targeted ones divides only the
first of them. -/
theorem Splitter.splitEach_cons {splitter : Splitter} {s : Split} {parts rest : List Split}
    (h : splitter.split s = .ok parts)
    (hrest : ∀ p ∈ rest, p.targeting.isUntargeted = false) :
    splitter.splitEach (s :: rest) = .ok (parts ++ rest) := by
  have hmap : (s :: rest).mapM splitter.split = .ok (parts :: rest.map fun p => [p]) := by
    refine mapM_eq_ok_iff.mpr (.cons h ?_)
    rw [List.forall₂_map_right_iff, List.forall₂_same]
    exact fun p hp => Splitter.split_of_targeted (hrest p hp) splitter
  have hsingles : (rest.map fun p => [p]).flatten = rest := by
    rw [← List.flatMap_def, List.flatMap_singleton']
  simp [splitEach, hmap, hsingles, bind, Except.bind, pure, Except.pure]

/-- Entries that are labelled without a refusal carry the labels of their paths. -/
theorem eq_of_labels {κ : Type} {label : String → Except PathError (Option κ)}
    {entries : List Entry} {labelled : List (Entry × Option κ)}
    (h : entries.mapM (fun e => do return (e, ← label e.path)) = .ok labelled) :
    labelled = entries.map fun e => (e, acceptedLabel (label e.path)) := by
  rw [mapM_eq_ok_iff] at h
  rw [← List.forall₂_eq_eq_eq, List.forall₂_map_right_iff]
  refine h.flip.imp fun p e hp => ?_
  obtain ⟨l, hl, hp⟩ := bind_eq_ok_iff.mp hp
  rw [← Except.ok.inj hp, hl, acceptedLabel]

namespace AppModule

variable (m : AppModule) (dimensions : OrderedSet Dimension) (options : ShardingOptions)

/-- The native libraries that are kept, with their architectures, and what lies
beside them. -/
def libraryLabels : List (Entry × Option Abi) :=
  ((m.entriesIn .nativeLibraries).map fun e => (e, e.abi?)).filter fun p => p.2.all options.keeps

/-- The parts of the native libraries. -/
def libraryParts : List Split :=
  if .abi ∈ dimensions then
    (m.split .nativeLibraries).divide (m.libraryLabels options) .forAbi
  else [m.split .nativeLibraries]

/-- The resources that are not divided by density. -/
def plainResources : Split :=
  if .screenDensity ∈ dimensions then
    (m.split .resources).derive
      ((m.entriesIn .resources).filter fun e => (DensityVariant.ofEntry? e).isNone) .untargeted
  else m.split .resources

/-- The entries that serve a density class best. -/
def densityEntries (d : Density) : List Entry :=
  (DensityVariant.keys m.variants).toList.filterMap (DensityVariant.best? m.variants d)

/-- The parts of the resources for each density class. -/
def densityParts : List Split :=
  (m.densities dimensions).toList.map fun d =>
    (m.split .resources).derive (m.densityEntries d)
      (.forDensity d ((m.densities dimensions).filter (· ≠ d)))

/-- The parts of a split by language, or the split itself. -/
def languageParts (language? : String → Option Language) (s : Split) : List Split :=
  if Pipeline.dividesLanguages dimensions options then s.byLanguage language? else [s]

/-- The entries below `apex` but those that tell how an image was built, with the
sets of architectures of the images. -/
def imageEntries : List (Entry × Option AbiSet) :=
  ((m.entriesIn .apexImages).filter fun e => (ApexFile.buildInfoStem? e.path).isNone).map
    fun e => (e, e.imageAbis?)

/-- The entries below `apex` with the set of images they go with. -/
def imageLabels : List (Entry × Option AbiSet) :=
  m.imageEntries ++ labelBuildInfo (m.entriesIn .apexImages) m.imageSets

/-- The parts of the system images. -/
def imageParts : List Split := (m.split .apexImages).divide m.imageLabels .forAbiSet

variable {m dimensions options} {parts : List Split}

/-- The pipeline of native libraries makes the parts by architecture. -/
theorem nativeLibraries_split
    (h : (Pipeline.nativeLibraries dimensions options).split (m.split .nativeLibraries) =
      .ok parts) : parts = m.libraryParts dimensions options := by
  rw [Pipeline.nativeLibraries] at h
  rw [libraryParts]
  by_cases hdim : .abi ∈ dimensions
  · rw [if_pos hdim, Pipeline.split_singleton] at h
    rw [if_pos hdim]
    obtain ⟨labelled, hlabelled, h⟩ := bind_eq_ok_iff.mp h
    rw [← Except.ok.inj h, eq_of_labels hlabelled, libraryLabels]
    congr 1
    refine List.filter_congr fun ⟨_, abi?⟩ _ => ?_
    cases abi? <;> simp [ShardingOptions.keeps]
  · rw [if_neg hdim] at h
    rw [if_neg hdim]
    exact (Except.ok.inj h).symm

/-- Dividing the resources by density leaves the plain ones and makes the parts for
the density classes. -/
theorem byDensity_split (h : .screenDensity ∈ dimensions) :
    (m.split .resources).byDensity = m.plainResources dimensions :: m.densityParts dimensions := by
  have hvariants : (m.split .resources).entries.filterMap DensityVariant.ofEntry? = m.variants :=
    filterMap_entriesIn fun _ _ => DensityVariant.category_of_ofEntry?
  rw [Split.byDensity, plainResources, if_pos h, densityParts, densities, hvariants]
  by_cases hnone : m.variants.isEmpty
  · simp [hnone]
    rfl
  · simp only [hnone, h, Bool.not_false, and_self, if_true, Density.toList_ofList_all,
      Bool.false_eq_true, if_false]
    rfl

/-- The pipeline of resources makes the parts by density, and then those by
language of what has no density. -/
theorem resources_split :
    (Pipeline.resources dimensions options).split (m.split .resources) =
      .ok (languageParts dimensions options resourceLanguage? (m.plainResources dimensions) ++
        m.densityParts dimensions) := by
  have htargeted : ∀ p ∈ m.densityParts dimensions, p.targeting.isUntargeted = false := by
    intro p hp
    obtain ⟨d, _, rfl⟩ := List.mem_map.mp hp
    simp [Targeting.isUntargeted_eq]
  have hdensity : Pipeline.split (if .screenDensity ∈ dimensions then [.densityResources] else [])
      (m.split .resources) = .ok (m.plainResources dimensions :: m.densityParts dimensions) := by
    by_cases hdim : .screenDensity ∈ dimensions
    · rw [if_pos hdim, Pipeline.split_singleton, ← byDensity_split hdim]
      rfl
    · have hnone : m.densityParts dimensions = [] := by simp [densityParts, densities, hdim]
      rw [if_neg hdim, plainResources, if_neg hdim, hnone]
      rfl
  rw [Pipeline.resources, Pipeline.split, Pipeline.splitAll_append]
  refine bind_eq_ok_iff.mpr ⟨_, hdensity, ?_⟩
  by_cases hlanguage : Pipeline.dividesLanguages dimensions options
  · rw [if_pos hlanguage, languageParts, if_pos hlanguage, Pipeline.splitAll_cons]
    have hplain : (m.plainResources dimensions).targeting.isUntargeted := by
      unfold plainResources
      split <;> rfl
    refine bind_eq_ok_iff.mpr ⟨_, Splitter.splitEach_cons ?_ htargeted, rfl⟩
    rw [Splitter.split, if_pos hplain]
  · rw [if_neg hlanguage, languageParts, if_neg hlanguage]
    rfl

/-- The pipeline of assets makes the parts by language. -/
theorem assets_split :
    (Pipeline.assets dimensions options).split (m.split .assets) =
      .ok (languageParts dimensions options assetLanguage? (m.split .assets)) := by
  rw [Pipeline.assets, languageParts]
  by_cases hdim : Pipeline.dividesLanguages dimensions options
  · rw [if_pos hdim, if_pos hdim, Pipeline.split_singleton]
    rfl
  · rw [if_neg hdim, if_neg hdim]
    rfl

/-- The images have the sets of architectures of the module. -/
theorem occurringLabels_imageEntries : occurringLabels m.imageEntries = m.imageSets := by
  refine OrderedSet.ext fun s => ?_
  rw [mem_occurringLabels, mem_imageSets, imageEntries]
  simp only [List.mem_map, List.mem_filter, Prod.mk.injEq]
  constructor
  · rintro ⟨e, _, ⟨he, _⟩, rfl, hs⟩
    exact ⟨_, (List.mem_filter.mp he).1, hs⟩
  · rintro ⟨e, he, hs⟩
    obtain ⟨stem, hpath, _⟩ := Entry.imageAbis?_eq_some_iff.mp hs
    have hcategory : e.category = .apexImages :=
      ApexFile.category_of_ofPath_ne (by rw [hpath]; exact nofun)
    refine ⟨e, e, ⟨List.mem_filter.mpr ⟨he, by simpa using hcategory⟩, ?_⟩, rfl, hs⟩
    rw [ApexFile.buildInfoStem?, hpath]
    rfl

/-- The pipeline of system images makes the parts by set of architectures. -/
theorem apexImages_split
    (h : Pipeline.apexImages.split (m.split .apexImages) = .ok parts) : parts = m.imageParts := by
  rw [Pipeline.apexImages, Pipeline.split_singleton] at h
  obtain ⟨images, himages, h⟩ := bind_eq_ok_iff.mp h
  have hlabels : images = m.imageEntries := eq_of_labels himages
  rw [← Except.ok.inj h, hlabels, occurringLabels_imageEntries]
  rfl

/-- The parts of a module, kind by kind. -/
theorem eq_of_parts (h : m.parts dimensions options = .ok parts) :
    parts = m.libraryParts dimensions options ++
      (languageParts dimensions options resourceLanguage? (m.plainResources dimensions) ++
        m.densityParts dimensions) ++ m.imageParts ++
      languageParts dimensions options assetLanguage? (m.split .assets) ++
      [m.split .dex, m.split .root] := by
  obtain ⟨libraries, hlibraries, h⟩ := bind_eq_ok_iff.mp h
  obtain ⟨resources, hresources, h⟩ := bind_eq_ok_iff.mp h
  obtain ⟨images, himages, h⟩ := bind_eq_ok_iff.mp h
  obtain ⟨assets, hassets, h⟩ := bind_eq_ok_iff.mp h
  rw [resources_split] at hresources
  rw [assets_split] at hassets
  rw [← Except.ok.inj h, nativeLibraries_split hlibraries, ← Except.ok.inj hresources,
    apexImages_split himages, ← Except.ok.inj hassets]

end AppModule

end AppBundle
