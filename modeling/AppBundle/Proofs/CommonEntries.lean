import AppBundle.Proofs.PartEntries

/-!
# The entries for all packages

An entry of a module goes into all packages unless it is a native library of an
architecture, a variant of a resource for one density, or part of a system image,
and content is divided accordingly. The untargeted parts and the parts by language
hold exactly these entries, each once, if no path of the module occurs twice, and
the parts for sets of architectures hold the system images.
-/

namespace AppBundle

/-- Whether a targeting is made for all packages: it may have a language only. -/
def Targeting.isCommon (t : Targeting) : Bool := !t.hasAbi && !t.hasDensity && !t.hasMultiAbi

namespace AppModule

/-- Whether an entry of a module goes into all packages. -/
def isCommon (m : AppModule) (dimensions : OrderedSet Dimension) (e : Entry) : Bool :=
  !(.abi ∈ dimensions && e.abi?.isSome) &&
    !(.screenDensity ∈ dimensions && (DensityVariant.ofEntry? e).isSome) &&
    (m.imageSet? e).isNone

variable {m : AppModule} {dimensions : OrderedSet Dimension} {options : ShardingOptions}

section Images

/-- The path of a file that tells how an image was built is made from its stem. -/
theorem path_of_buildInfoStem? {path stem : String}
    (h : ApexFile.buildInfoStem? path = some stem) :
    path = "apex/" ++ (stem ++ ".build_info.pb") := by
  unfold ApexFile.buildInfoStem? ApexFile.ofPath at h
  cases hname : Text.after? "apex/" path with
  | none => simp [hname] at h
  | some name =>
    cases hstem : Text.before? ".build_info.pb" name with
    | none => cases himage : Text.before? ".img" name <;> simp [hname, hstem, himage] at h
    | some stem' =>
      simp only [hname, hstem, Option.some.injEq] at h
      rw [Text.after?_eq_some_iff.mp hname, Text.before?_eq_some_iff.mp hstem, h]

/-- Different files that tell how an image was built have different stems. -/
theorem nodup_buildInfoStems {entries : List Entry} (hpaths : (entries.map Entry.path).Nodup) :
    ((entries.filterMap fun e => (ApexFile.buildInfoStem? e.path).map (·, e)).map
      Prod.fst).Nodup := by
  have hstems : (entries.filterMap fun e => (ApexFile.buildInfoStem? e.path).map (·, e)).map
      Prod.fst = (entries.map Entry.path).filterMap ApexFile.buildInfoStem? := by
    rw [List.map_filterMap, List.filterMap_map]
    refine List.filterMap_congr fun e _ => ?_
    rw [Option.map_map, Function.comp_apply]
    exact Option.map_id'
  rw [hstems]
  refine hpaths.filterMap fun path path' stem h h' => ?_
  rw [path_of_buildInfoStem? h, path_of_buildInfoStem? h']

/-- The files that tell how an image was built go with the images of their set. -/
theorem labelBuildInfo_perm (hpaths : (m.entries.map Entry.path).Nodup) :
    (labelBuildInfo (m.entriesIn .apexImages) m.imageSets).Perm
      (((m.entriesIn .apexImages).filter fun e =>
        (ApexFile.buildInfoStem? e.path).isSome).map fun e => (e, m.imageSet? e)) := by
  let files := (m.entriesIn .apexImages).filterMap fun e =>
    (ApexFile.buildInfoStem? e.path).map (·, e)
  have hkeys : (files.map Prod.fst).Nodup :=
    nodup_buildInfoStems (hpaths.sublist (List.filter_sublist.map Entry.path))
  have hlabels : (files.map fun f =>
      (f.2, (ApexFile.abis? f.1).filter (· ∈ m.imageSets))) =
      ((m.entriesIn .apexImages).filter fun e =>
        (ApexFile.buildInfoStem? e.path).isSome).map fun e => (e, m.imageSet? e) := by
    rw [List.map_filterMap, ← List.filterMap_eq_map, List.filterMap_filter]
    refine List.filterMap_congr fun e _ => ?_
    cases hstem : ApexFile.buildInfoStem? e.path with
    | none => rfl
    | some stem => simp [imageSet?, hstem]
  rw [← hlabels]
  exact (OrderedMap.ofList_perm hkeys).map _

/-- The entries below `apex` go with the images of their set. -/
theorem imageLabels_perm (hpaths : (m.entries.map Entry.path).Nodup) :
    m.imageLabels.Perm ((m.entriesIn .apexImages).map fun e => (e, m.imageSet? e)) := by
  have himages : m.imageEntries =
      ((m.entriesIn .apexImages).filter fun e =>
        !(ApexFile.buildInfoStem? e.path).isSome).map fun e => (e, m.imageSet? e) := by
    have hselect : ((m.entriesIn .apexImages).filter fun e =>
        (ApexFile.buildInfoStem? e.path).isNone) =
        (m.entriesIn .apexImages).filter fun e =>
          !(ApexFile.buildInfoStem? e.path).isSome := by
      refine List.filter_congr fun e _ => ?_
      rw [Option.not_isSome]
    rw [imageEntries, hselect]
    refine List.map_congr_left fun e he => ?_
    obtain ⟨_, hnone⟩ := List.mem_filter.mp he
    rw [Bool.not_eq_true', Option.isSome_eq_false_iff, Option.isNone_iff_eq_none] at hnone
    rw [imageSet?, hnone]
  have hsplit := (List.filter_append_perm (fun e : Entry =>
    (ApexFile.buildInfoStem? e.path).isSome) (m.entriesIn .apexImages)).map fun e =>
      (e, m.imageSet? e)
  rw [List.map_append] at hsplit
  rw [imageLabels, himages]
  exact ((labelBuildInfo_perm hpaths).append_left _).trans (List.perm_append_comm.trans hsplit)

end Images

section Categories

variable {e : Entry}

/-- Only native libraries have an architecture. -/
theorem abi?_eq_none (h : e.category ≠ .nativeLibraries) : e.abi? = none :=
  Option.eq_none_iff_forall_ne_some.mpr fun _ ha => h (Entry.category_of_abi? ha)

/-- Only resources have a density. -/
theorem ofEntry?_eq_none (h : e.category ≠ .resources) : DensityVariant.ofEntry? e = none :=
  Option.eq_none_iff_forall_ne_some.mpr fun _ hv => h (DensityVariant.category_of_ofEntry? hv)

/-- Only what lies below `apex` goes with system images. -/
theorem imageSet?_eq_none (h : e.category ≠ .apexImages) : m.imageSet? e = none :=
  Option.eq_none_iff_forall_ne_some.mpr fun _ hs => h (category_of_imageSet? hs)

/-- A native library is no variant of a resource. -/
theorem ofEntry?_of_abi? {a : Abi} (h : e.abi? = some a) : DensityVariant.ofEntry? e = none := by
  have hcategory := Entry.category_of_abi? h
  exact ofEntry?_eq_none (by rw [hcategory]; decide)

/-- What goes with system images is no native library. -/
theorem abi?_of_imageSet? {s : AbiSet} (h : m.imageSet? e = some s) : e.abi? = none := by
  have hcategory := category_of_imageSet? h
  exact abi?_eq_none (by rw [hcategory]; decide)

/-- What goes with system images is no variant of a resource. -/
theorem ofEntry?_of_imageSet? {s : AbiSet} (h : m.imageSet? e = some s) :
    DensityVariant.ofEntry? e = none := by
  have hcategory := category_of_imageSet? h
  exact ofEntry?_eq_none (by rw [hcategory]; decide)

end Categories

/-- The parts of the native libraries for all packages. -/
theorem common_libraryParts :
    ((m.libraryParts dimensions options).filter (·.targeting.isCommon)).flatMap Split.entries =
      (m.entriesIn .nativeLibraries).filter (m.isCommon dimensions) := by
  have hcommon : (m.entriesIn .nativeLibraries).filter (m.isCommon dimensions) =
      (m.entriesIn .nativeLibraries).filter fun e => !(.abi ∈ dimensions && e.abi?.isSome) := by
    refine List.filter_congr fun e he => ?_
    have hcategory : e.category = .nativeLibraries := by simpa using (List.mem_filter.mp he).2
    rw [isCommon, ofEntry?_eq_none (by rw [hcategory]; decide),
      imageSet?_eq_none (by rw [hcategory]; decide)]
    simp
  rw [hcommon, libraryParts]
  by_cases hdim : .abi ∈ dimensions
  · have hkept : (none : Option Abi).all options.keeps = true := rfl
    rw [if_pos hdim, entries_divide_of_untargeted rfl fun _ _ => rfl, libraryLabels,
      entriesLabelled_filter hkept]
    refine (map_fst_filter_labelled Entry.abi? (· = none) _).trans ?_
    refine List.filter_congr fun e _ => ?_
    cases habi : e.abi? <;> simp [hdim]
  · rw [if_neg hdim]
    have hall : (m.entriesIn .nativeLibraries).filter
        (fun e => !(.abi ∈ dimensions && e.abi?.isSome)) = m.entriesIn .nativeLibraries :=
      List.filter_eq_self.mpr fun e _ => by simp [hdim]
    rw [hall]
    exact List.append_nil _

/-- The parts of a split by language are for all packages and hold its entries. -/
theorem common_languageParts {s : Split} (language? : String → Option Language)
    (hs : s.targeting = .untargeted) :
    (((languageParts dimensions options language? s).filter
      (·.targeting.isCommon)).flatMap Split.entries).Perm s.entries := by
  have hall : (languageParts dimensions options language? s).filter (·.targeting.isCommon) =
      languageParts dimensions options language? s := by
    obtain ⟨languages, hlanguages, _⟩ := targetings_languageParts dimensions options language? hs
    refine List.filter_eq_self.mpr fun p hp => ?_
    have ht : p.targeting ∈ (languageParts dimensions options language? s).map Split.targeting :=
      List.mem_map_of_mem hp
    rw [hlanguages] at ht
    rcases List.mem_cons.mp ht with ht | ht
    · rw [ht]
      rfl
    · obtain ⟨l, _, ht⟩ := List.mem_map.mp ht
      rw [← ht]
      rfl
  rw [hall, languageParts]
  by_cases hdivides : Pipeline.dividesLanguages dimensions options
  · have hfst : (Prod.fst ∘ fun e : Entry => (e, language? e.path)) = id := rfl
    rw [if_pos hdivides]
    refine entries_divide_perm.trans ?_
    rw [List.map_map, hfst, List.map_id]
  · rw [if_neg hdivides]
    simp

/-- The plain resources are the resources for all packages. -/
theorem entries_plainResources :
    (m.plainResources dimensions).entries =
      (m.entriesIn .resources).filter (m.isCommon dimensions) := by
  have hcommon : (m.entriesIn .resources).filter (m.isCommon dimensions) =
      (m.entriesIn .resources).filter fun e =>
        !(.screenDensity ∈ dimensions && (DensityVariant.ofEntry? e).isSome) := by
    refine List.filter_congr fun e he => ?_
    have hcategory : e.category = .resources := by simpa using (List.mem_filter.mp he).2
    rw [isCommon, abi?_eq_none (by rw [hcategory]; decide),
      imageSet?_eq_none (by rw [hcategory]; decide)]
    simp
  rw [hcommon, plainResources]
  by_cases hdim : .screenDensity ∈ dimensions
  · rw [if_pos hdim]
    refine List.filter_congr fun e _ => ?_
    simp [hdim]
  · rw [if_neg hdim]
    exact (List.filter_eq_self.mpr fun e _ => by simp [hdim]).symm

/-- The parts of the system images for all packages. -/
theorem common_imageParts (hpaths : (m.entries.map Entry.path).Nodup) :
    ((m.imageParts.filter (·.targeting.isCommon)).flatMap Split.entries).Perm
      ((m.entriesIn .apexImages).filter (m.isCommon dimensions)) := by
  have hcommon : (m.entriesIn .apexImages).filter (m.isCommon dimensions) =
      (((m.entriesIn .apexImages).map fun e => (e, m.imageSet? e)).filter
        (·.2 = none)).map Prod.fst := by
    refine Eq.trans ?_ (map_fst_filter_labelled m.imageSet? (· = none) _).symm
    refine List.filter_congr fun e he => ?_
    have hcategory : e.category = .apexImages := by simpa using (List.mem_filter.mp he).2
    rw [isCommon, abi?_eq_none (by rw [hcategory]; decide),
      ofEntry?_eq_none (by rw [hcategory]; decide)]
    cases hset : m.imageSet? e <;> simp
  rw [imageParts, entries_divide_of_untargeted rfl fun _ _ => rfl, hcommon]
  exact ((imageLabels_perm hpaths).filter _).map _

/-- Content of other kinds is for all packages. -/
theorem filter_isCommon_entriesIn (c : Category) (hlibraries : c ≠ .nativeLibraries)
    (hresources : c ≠ .resources) (himages : c ≠ .apexImages) :
    (m.entriesIn c).filter (m.isCommon dimensions) = m.entriesIn c := by
  refine List.filter_eq_self.mpr fun e he => ?_
  have hcategory : e.category = c := by simpa using (List.mem_filter.mp he).2
  rw [isCommon, abi?_eq_none (hcategory ▸ hlibraries), ofEntry?_eq_none (hcategory ▸ hresources),
    imageSet?_eq_none (hcategory ▸ himages)]
  simp

/-- Every entry is of one kind of content. -/
theorem filter_categories_perm (p : Entry → Bool) :
    ([Category.nativeLibraries, .resources, .apexImages, .assets, .dex, .root].flatMap
      fun c => (m.entriesIn c).filter p).Perm (m.entries.filter p) := by
  have hswap (c : Category) :
      (m.entriesIn c).filter p = (m.entries.filter p).filter (·.category = c) := by
    rw [entriesIn, List.filter_filter, List.filter_filter]
    exact List.filter_congr fun e _ => Bool.and_comm _ _
  simp only [hswap]
  refine perm_flatMap_filter (by decide) fun e _ => ?_
  cases e.category <;> decide

/-- The parts for all packages hold the entries for all packages, each once. -/
theorem common_parts {parts : List Split} (hpaths : (m.entries.map Entry.path).Nodup)
    (h : m.parts dimensions options = .ok parts) :
    ((parts.filter (·.targeting.isCommon)).flatMap Split.entries).Perm
      (m.entries.filter (m.isCommon dimensions)) := by
  have hdensities : (m.densityParts dimensions).filter (·.targeting.isCommon) = [] := by
    refine List.filter_eq_nil_iff.mpr fun p hp => ?_
    obtain ⟨d, _, rfl⟩ := List.mem_map.mp hp
    simp [Targeting.isCommon]
  have hdensityEntries :
      ((m.densityParts dimensions).filter (·.targeting.isCommon)).flatMap Split.entries = [] := by
    rw [hdensities, List.flatMap_nil]
  have hresources : (((languageParts dimensions options resourceLanguage?
      (m.plainResources dimensions)).filter (·.targeting.isCommon)).flatMap Split.entries).Perm
      ((m.entriesIn .resources).filter (m.isCommon dimensions)) := by
    rw [← entries_plainResources]
    exact common_languageParts resourceLanguage? (owns_plainResources m dimensions).2
  have hassets : (((languageParts dimensions options assetLanguage? (m.split .assets)).filter
      (·.targeting.isCommon)).flatMap Split.entries).Perm
      ((m.entriesIn .assets).filter (m.isCommon dimensions)) := by
    rw [filter_isCommon_entriesIn .assets nofun nofun nofun]
    exact common_languageParts assetLanguage? rfl
  have hrest : ([m.split .dex, m.split .root].filter (·.targeting.isCommon)).flatMap Split.entries =
      (m.entriesIn .dex).filter (m.isCommon dimensions) ++
        (m.entriesIn .root).filter (m.isCommon dimensions) := by
    rw [filter_isCommon_entriesIn .dex nofun nofun nofun,
      filter_isCommon_entriesIn .root nofun nofun nofun]
    exact congrArg (m.entriesIn .dex ++ ·) (List.append_nil _)
  refine List.Perm.trans ?_ (filter_categories_perm (m.isCommon dimensions))
  rw [eq_of_parts h]
  simp only [List.filter_append, List.flatMap_append, common_libraryParts, hdensityEntries, hrest,
    List.append_nil, List.flatMap_cons, List.flatMap_nil, List.append_assoc]
  refine List.Perm.append_left _ (hresources.append ?_)
  exact (common_imageParts hpaths).append (hassets.append_right _)

/-- The parts for sets of architectures hold the system images and what goes with them, each
once. -/
theorem multiAbi_parts {parts : List Split} (hpaths : (m.entries.map Entry.path).Nodup)
    (h : m.parts dimensions options = .ok parts) :
    ((parts.filter (·.targeting.hasMultiAbi)).flatMap Split.entries).Perm
      (m.entries.filter fun e => (m.imageSet? e).isSome) := by
  have hnone {others : List Split}
      (hothers : (others.map Split.targeting).filter Targeting.hasMultiAbi = []) :
      others.filter (·.targeting.hasMultiAbi) = [] := by
    rw [List.filter_map, List.map_eq_nil_iff] at hothers
    exact hothers
  have hlibraries : (m.libraryParts dimensions options).filter (·.targeting.hasMultiAbi) = [] :=
    hnone (filter_targetings_libraryParts rfl fun _ _ => rfl)
  have hresources : (languageParts dimensions options resourceLanguage?
      (m.plainResources dimensions)).filter (·.targeting.hasMultiAbi) = [] :=
    hnone (filter_targetings_languageParts rfl _ (owns_plainResources m dimensions).2
      fun _ => rfl)
  have hdensities : (m.densityParts dimensions).filter (·.targeting.hasMultiAbi) = [] :=
    hnone (filter_targetings_densityParts fun _ _ => rfl)
  have hassets : (languageParts dimensions options assetLanguage? (m.split .assets)).filter
      (·.targeting.hasMultiAbi) = [] :=
    hnone (filter_targetings_languageParts rfl _ rfl fun _ => rfl)
  have hrest : [m.split .dex, m.split .root].filter (·.targeting.hasMultiAbi) = [] := hnone rfl
  have hselect : m.entries.filter (fun e => (m.imageSet? e).isSome) =
      (((m.entriesIn .apexImages).map fun e => (e, m.imageSet? e)).filter
        (·.2.isSome)).map Prod.fst := by
    refine Eq.trans ?_ (map_fst_filter_labelled m.imageSet? Option.isSome _).symm
    refine (filter_entriesIn fun e he => ?_).symm
    obtain ⟨s, hs⟩ := Option.isSome_iff_exists.mp he
    exact category_of_imageSet? hs
  rw [eq_of_parts h]
  simp only [List.filter_append, hlibraries, hresources, hdensities, hassets, hrest,
    List.nil_append, List.append_nil]
  rw [imageParts, hselect]
  exact (entries_divide_of_targeted rfl fun _ _ => rfl).trans
    (((imageLabels_perm hpaths).filter _).map _)

end AppModule

end AppBundle
