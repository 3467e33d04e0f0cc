import AppBundle.Proofs.InternalErrors
import AppBundle.Proofs.JoinedTexts
import AppBundle.Proofs.SplitEntries
import AppBundle.Proofs.SystemImage

/-!
# The packages of a module of system images

A module of system images has one package for each set of architectures among the stems of its
images. The package holds the images of that set, the files that tell how they were built, and
all that goes with no image. Making the packages fails only at an image whose stem lists no
architectures.
-/

namespace AppBundle

/-- A text does not end in two ways that exclude each other. -/
theorem Text.before?_eq_none {tail other : String} (htail : ¬ tail.toList <:+ other.toList)
    (hother : ¬ other.toList <:+ tail.toList) (lead : String) :
    before? tail (lead ++ other) = none := by
  rw [Option.eq_none_iff_forall_ne_some]
  intro rest hrest
  have hsuffix : tail.toList <:+ (lead ++ other).toList := by
    rw [before?_eq_some_iff.mp hrest, String.toList_append]
    exact List.suffix_append _ _
  have hsuffix' : other.toList <:+ (lead ++ other).toList := by
    rw [String.toList_append]
    exact List.suffix_append _ _
  rcases List.suffix_or_suffix_of_suffix hsuffix hsuffix' with h | h
  · exact htail h
  · exact hother h

/-- The targeting of a set of architectures selects it. -/
theorem Targeting.multiAbi_forAbiSet (s : AbiSet) (others : OrderedSet AbiSet) :
    (forAbiSet s others).multiAbi = .one s others := rfl

/-- Entries with different paths have no path with two contents. -/
theorem PathsConsistent.of_nodup {entries : List Entry} (h : (entries.map Entry.path).Nodup) :
    PathsConsistent entries := fun _ he _ hf hpath =>
  congrArg Entry.content (List.inj_on_of_nodup_map h he hf hpath)

/-- What is not targeted adds nothing to a selection. -/
theorem Selection.combine_empty_cons {α : Type} [Ord α] [Std.TransOrd α] [Std.LawfulEqOrd α]
    [DecidableEq α] {t : Selection α} (h : ∀ a ∈ t.alternatives, a ∉ t.values) :
    combine [∅, t] = t := by
  have hempty (a : α) : a ∉ (∅ : Selection α).values ∧ a ∉ (∅ : Selection α).alternatives :=
    ⟨OrderedSet.not_mem_empty a, OrderedSet.not_mem_empty a⟩
  have hvalues : (combine [∅, t]).values = t.values :=
    OrderedSet.ext fun a => by simp [mem_values_combine, hempty a]
  have halternatives : (combine [∅, t]).alternatives = t.alternatives :=
    OrderedSet.ext fun a => by simpa [mem_alternatives_combine, hempty a] using h a
  exact congrArg₂ mk hvalues halternatives

/-- What is not targeted adds nothing to the targeting of a set of architectures. -/
theorem Targeting.combine_untargeted_forAbiSet (s : AbiSet) (sets : OrderedSet AbiSet) :
    combine [untargeted, forAbiSet s (sets.filter (· ≠ s))] =
      forAbiSet s (sets.filter (· ≠ s)) := by
  have hnone {α : Type} [Ord α] [Std.TransOrd α] [Std.LawfulEqOrd α] [DecidableEq α] :
      Selection.combine [(∅ : Selection α), ∅] = ∅ :=
    Selection.combine_empty_cons fun a ha => absurd ha (OrderedSet.not_mem_empty a)
  have hsets : Selection.combine [∅, Selection.one s (sets.filter (· ≠ s))] =
      .one s (sets.filter (· ≠ s)) := by
    refine Selection.combine_empty_cons fun a ha => ?_
    have hne := (OrderedSet.mem_filter.mp ha).2
    exact fun hvalue => of_decide_eq_true hne (OrderedSet.mem_singleton.mp hvalue)
  rw [combine_eq, forAbiSet, mk.injEq]
  exact ⟨hnone, hnone, hnone, hsets⟩

namespace ApexFile

/-- A stem denotes a set of architectures if it lists their names between dots, in any order
and perhaps more than once. -/
def Denotes (stem : String) (s : AbiSet) : Prop :=
  ∃ abis : List Abi, abis ≠ [] ∧ stem = Text.join "." (abis.map Abi.name) ∧ s = .ofList abis

variable {stem path : String} {s s' : AbiSet}

/-- Names of architectures read as these architectures, and nothing else does. -/
theorem mapM_ofName?_eq_some_iff {names : List String} {abis : List Abi} :
    names.mapM Abi.ofName? = some abis ↔ names = abis.map Abi.name := by
  induction names generalizing abis with
  | nil => cases abis <;> simp
  | cons name names ih =>
    rw [List.mapM_cons]
    constructor
    · intro h
      obtain ⟨a, ha, h⟩ := Option.bind_eq_some_iff.mp h
      obtain ⟨rest, hrest, h⟩ := Option.bind_eq_some_iff.mp h
      rw [← Option.some.inj h, List.map_cons, Abi.ofName?_eq_some_iff.mp ha, ih.mp hrest]
    · intro h
      cases abis with
      | nil => cases h
      | cons a rest =>
        obtain ⟨rfl, hnames⟩ := List.cons.inj h
        exact Option.bind_eq_some_iff.mpr ⟨a, Abi.ofName?_eq_some_iff.mpr rfl,
          Option.bind_eq_some_iff.mpr ⟨rest, ih.mpr hnames, rfl⟩⟩

/-- Reading a stem gives the set that it denotes. -/
theorem abis?_eq_some_iff : abis? stem = some s ↔ Denotes stem s := by
  have hmarks (abis : List Abi) : ∀ name ∈ abis.map Abi.name, name ≠ "" ∧ '.' ∉ name.toList :=
    List.forall_mem_map.mpr fun a _ => by cases a <;> decide
  unfold abis?
  constructor
  · intro h
    split at h
    · cases h
    · obtain ⟨abis, habis, rfl⟩ := Option.map_eq_some_iff.mp h
      have hnames := mapM_ofName?_eq_some_iff.mp habis
      refine ⟨abis, ?_, ?_, rfl⟩
      · rintro rfl
        exact Text.split_ne_nil _ _ hnames
      · rw [← hnames, Text.join_split rfl]
  · rintro ⟨abis, hne, rfl, rfl⟩
    have hnames : abis.map Abi.name ≠ [] := fun h => hne (List.map_eq_nil_iff.mp h)
    rw [if_neg (Text.join_ne_empty rfl hnames (hmarks abis)),
      Text.split_join rfl hnames fun name hname => (hmarks abis name hname).2,
      mapM_ofName?_eq_some_iff.mpr rfl, Option.map_some]

/-- A stem denotes one set at most. -/
theorem Denotes.unique (h : Denotes stem s) (h' : Denotes stem s') : s = s' := by
  rw [← abis?_eq_some_iff] at h h'
  exact Option.some.inj (h.symm.trans h')

/-- An image is a file `apex/<stem>.img`. -/
theorem ofPath_eq_image_iff : ofPath path = .image stem ↔ path = "apex/" ++ stem ++ ".img" := by
  constructor
  · intro h
    unfold ofPath at h
    cases hname : Text.after? "apex/" path with
    | none => simp [hname] at h
    | some name =>
      cases hinfo : Text.before? ".build_info.pb" name with
      | some stem' => simp [hname, hinfo] at h
      | none =>
        cases hstem : Text.before? ".img" name with
        | none => simp [hname, hinfo, hstem] at h
        | some stem' =>
          simp only [hname, hinfo, hstem, image.injEq] at h
          rw [Text.after?_eq_some_iff.mp hname, Text.before?_eq_some_iff.mp hstem, h,
            String.append_assoc]
  · rintro rfl
    have hname : Text.after? "apex/" ("apex/" ++ stem ++ ".img") = some (stem ++ ".img") :=
      Text.after?_eq_some_iff.mpr (String.append_assoc ..)
    have hinfo : Text.before? ".build_info.pb" (stem ++ ".img") = none :=
      Text.before?_eq_none (by decide) (by decide) stem
    have hstem : Text.before? ".img" (stem ++ ".img") = some stem :=
      Text.before?_eq_some_iff.mpr rfl
    simp only [ofPath, hname, hinfo, hstem]

/-- A file that tells how an image was built is a file `apex/<stem>.build_info.pb`. -/
theorem buildInfoStem?_eq_some_iff :
    buildInfoStem? path = some stem ↔ path = "apex/" ++ stem ++ ".build_info.pb" := by
  constructor
  · intro h
    rw [AppModule.path_of_buildInfoStem? h, String.append_assoc]
  · rintro rfl
    have hname : Text.after? "apex/" ("apex/" ++ stem ++ ".build_info.pb") =
        some (stem ++ ".build_info.pb") := Text.after?_eq_some_iff.mpr (String.append_assoc ..)
    have hstem : Text.before? ".build_info.pb" (stem ++ ".build_info.pb") = some stem :=
      Text.before?_eq_some_iff.mpr rfl
    simp only [buildInfoStem?, ofPath, hname, hstem]

end ApexFile

namespace Entry

/-- The image of a set of architectures. -/
def IsImageOf (e : Entry) (s : AbiSet) : Prop :=
  ∃ stem, e.path = "apex/" ++ stem ++ ".img" ∧ ApexFile.Denotes stem s

/-- A file that tells how the image of a set of architectures was built. -/
def IsBuildInfoOf (e : Entry) (s : AbiSet) : Prop :=
  ∃ stem, e.path = "apex/" ++ stem ++ ".build_info.pb" ∧ ApexFile.Denotes stem s

/-- An image whose stem lists no architectures. -/
def IsMalformedImage (e : Entry) : Prop :=
  ∃ stem, e.path = "apex/" ++ stem ++ ".img" ∧ ∀ s, ¬ ApexFile.Denotes stem s

variable {e : Entry} {s s' : AbiSet}

/-- An entry has the set of architectures that it is an image of. -/
theorem imageAbis?_eq_some_iff_isImageOf : e.imageAbis? = some s ↔ e.IsImageOf s := by
  simp only [imageAbis?_eq_some_iff, ApexFile.ofPath_eq_image_iff, ApexFile.abis?_eq_some_iff]
  rfl

/-- An entry is an image of one set at most. -/
theorem IsImageOf.unique (h : e.IsImageOf s) (h' : e.IsImageOf s') : s = s' := by
  rw [← imageAbis?_eq_some_iff_isImageOf] at h h'
  exact Option.some.inj (h.symm.trans h')

/-- An image lies below `apex`. -/
theorem category_of_image {stem : String} (h : e.path = "apex/" ++ stem ++ ".img") :
    e.category = .apexImages := by
  refine ApexFile.category_of_ofPath_ne ?_
  rw [ApexFile.ofPath_eq_image_iff.mpr h]
  exact nofun

/-- An image tells nothing about how an image was built. -/
theorem buildInfoStem?_of_image {stem : String} (h : e.path = "apex/" ++ stem ++ ".img") :
    ApexFile.buildInfoStem? e.path = none := by
  rw [ApexFile.buildInfoStem?, ApexFile.ofPath_eq_image_iff.mpr h]

/-- The set of architectures of an image is refused if the stem lists no architectures. -/
theorem imageAbis_eq_error_iff {cause : PathError} :
    ApexFile.imageAbis e.path = .error cause ↔
      e.IsMalformedImage ∧ cause = .malformedApexImage e.path := by
  unfold ApexFile.imageAbis
  constructor
  · intro h
    cases hpath : ApexFile.ofPath e.path with
    | buildInfo stem => simp [hpath] at h
    | other => simp [hpath] at h
    | image stem =>
      cases habis : ApexFile.abis? stem with
      | some s => simp [hpath, habis] at h
      | none =>
        simp only [hpath, habis, Except.error.injEq] at h
        refine ⟨⟨stem, ApexFile.ofPath_eq_image_iff.mp hpath, fun s hs => ?_⟩, h.symm⟩
        rw [ApexFile.abis?_eq_some_iff.mpr hs] at habis
        cases habis
  · rintro ⟨⟨stem, hpath, hstem⟩, rfl⟩
    have habis : ApexFile.abis? stem = none :=
      Option.eq_none_iff_forall_ne_some.mpr fun s hs => hstem s (ApexFile.abis?_eq_some_iff.mp hs)
    simp only [ApexFile.ofPath_eq_image_iff.mpr hpath, habis]

end Entry

/-- Labelling images fails only at an image whose stem lists no architectures. -/
theorem exists_of_labelImages_error {entries : List Entry} {cause : PathError}
    (h : labelImages entries = .error cause) :
    ∃ e ∈ entries, e.IsMalformedImage ∧ cause = .malformedApexImage e.path := by
  obtain ⟨e, he, h⟩ := exists_of_mapM_eq_error h
  rcases bind_eq_error_iff.mp h with h | ⟨_, _, h⟩
  · exact ⟨e, (List.mem_filter.mp he).1, Entry.imageAbis_eq_error_iff.mp h⟩
  · cases h

/-- Labelling images fails at every image whose stem lists no architectures. -/
theorem not_isMalformedImage_of_labelImages {entries : List Entry}
    {labelled : List (Entry × Option AbiSet)} (h : labelImages entries = .ok labelled) :
    ∀ e ∈ entries, ¬ e.IsMalformedImage := by
  intro e he hmalformed
  obtain ⟨stem, hpath, _⟩ := id hmalformed
  have hselected : e ∈ entries.filter fun e => (ApexFile.buildInfoStem? e.path).isNone := by
    refine List.mem_filter.mpr ⟨he, ?_⟩
    rw [Entry.buildInfoStem?_of_image hpath]
    rfl
  obtain ⟨_, hlabel⟩ := exists_of_mem_of_mapM_eq_ok h hselected
  obtain ⟨_, hok, _⟩ := bind_eq_ok_iff.mp hlabel
  rw [Entry.imageAbis_eq_error_iff.mpr ⟨hmalformed, rfl⟩] at hok
  cases hok

namespace Entry

variable {e : Entry} {s s' : AbiSet}

/-- An entry belongs to the image of a set of architectures: it is the image, or it tells how
the image was built. -/
def BelongsTo (e : Entry) (s : AbiSet) : Prop := e.IsImageOf s ∨ e.IsBuildInfoOf s

/-- An image belongs to its own set only. -/
theorem IsImageOf.belongsTo_iff (h : e.IsImageOf s) : e.BelongsTo s' ↔ s' = s := by
  constructor
  · rintro (himage | ⟨stem, hpath, _⟩)
    · exact himage.unique h
    · obtain ⟨_, himage, _⟩ := h
      have hinfo := ApexFile.buildInfoStem?_eq_some_iff.mpr hpath
      rw [buildInfoStem?_of_image himage] at hinfo
      cases hinfo
  · rintro rfl
    exact .inl h

end Entry

namespace AppModule

variable {m : AppModule} {options : ShardingOptions} {parts splits : List Split}
variable {e : Entry} {s : AbiSet}

/-- The sets of architectures of a module are those of its images. -/
theorem mem_imageSets_iff : s ∈ m.imageSets ↔ ∃ e ∈ m.entries, e.IsImageOf s := by
  simp only [mem_imageSets, Entry.imageAbis?_eq_some_iff_isImageOf]

/-- An entry goes with the images of the set that it belongs to, if there are any. -/
theorem imageSet?_eq_some_iff (he : e ∈ m.entries) :
    m.imageSet? e = some s ↔ s ∈ m.imageSets ∧ e.BelongsTo s := by
  unfold imageSet?
  cases hinfo : ApexFile.buildInfoStem? e.path with
  | some stem =>
    have hpath := ApexFile.buildInfoStem?_eq_some_iff.mp hinfo
    simp only [Option.filter_eq_some_iff, decide_eq_true_eq]
    rw [and_comm, ApexFile.abis?_eq_some_iff]
    refine and_congr_right fun _ => ⟨fun h => .inr ⟨stem, hpath, h⟩, ?_⟩
    rintro (⟨_, himage, _⟩ | ⟨stem', hpath', hdenotes⟩)
    · rw [Entry.buildInfoStem?_of_image himage] at hinfo
      cases hinfo
    · rw [ApexFile.buildInfoStem?_eq_some_iff.mpr hpath'] at hinfo
      rwa [← Option.some.inj hinfo]
  | none =>
    dsimp only
    rw [Entry.imageAbis?_eq_some_iff_isImageOf]
    constructor
    · intro h
      exact ⟨mem_imageSets_iff.mpr ⟨e, he, h⟩, .inl h⟩
    · rintro ⟨_, h | ⟨stem, hpath, _⟩⟩
      · exact h
      · rw [ApexFile.buildInfoStem?_eq_some_iff.mpr hpath] at hinfo
        cases hinfo

/-- An entry goes with no image if it belongs to none. -/
theorem imageSet?_eq_none_iff (he : e ∈ m.entries) :
    m.imageSet? e = none ↔ ∀ s ∈ m.imageSets, ¬ e.BelongsTo s := by
  simp only [Option.eq_none_iff_forall_ne_some, ne_eq, imageSet?_eq_some_iff he, not_and]

section Failure

/-- The images of a module that can be divided list architectures in their stems. -/
theorem not_isMalformedImage_of_parts {dimensions : OrderedSet Dimension}
    (h : m.parts dimensions options = .ok parts) : ∀ e ∈ m.entries, ¬ e.IsMalformedImage := by
  obtain ⟨_, _, h⟩ := bind_eq_ok_iff.mp h
  obtain ⟨_, _, h⟩ := bind_eq_ok_iff.mp h
  obtain ⟨_, himages, _⟩ := bind_eq_ok_iff.mp h
  rw [Pipeline.apexImages, Pipeline.split_singleton] at himages
  obtain ⟨labelled, hlabelled, _⟩ := bind_eq_ok_iff.mp himages
  intro e he hmalformed
  obtain ⟨stem, hpath, _⟩ := id hmalformed
  have hmem : e ∈ m.entriesIn .apexImages :=
    List.mem_filter.mpr ⟨he, decide_eq_true (Entry.category_of_image hpath)⟩
  exact not_isMalformedImage_of_labelImages hlabelled e hmem hmalformed

/-- The parts of a module cannot be made only if its native libraries cannot be divided or the stem
of an image lists no architectures. -/
theorem exists_of_parts_error {dimensions : OrderedSet Dimension} {cause : PathError}
    (h : m.parts dimensions options = .error cause) :
    (Pipeline.nativeLibraries dimensions options).split (m.split .nativeLibraries) =
        .error cause ∨
      ∃ e ∈ m.entries, e.IsMalformedImage ∧ cause = .malformedApexImage e.path := by
  rcases bind_eq_error_iff.mp h with h | ⟨_, _, h⟩
  · exact .inl h
  rcases bind_eq_error_iff.mp h with h | ⟨_, _, h⟩
  · rw [resources_split] at h
    cases h
  rcases bind_eq_error_iff.mp h with h | ⟨_, _, h⟩
  · rw [Pipeline.apexImages, Pipeline.split_singleton] at h
    rcases bind_eq_error_iff.mp h with h | ⟨_, _, h⟩
    · obtain ⟨e, he, hmalformed, hcause⟩ := exists_of_labelImages_error h
      exact .inr ⟨e, (List.mem_filter.mp he).1, hmalformed, hcause⟩
    · cases h
  rcases bind_eq_error_iff.mp h with h | ⟨_, _, h⟩
  · rw [assets_split] at h
    cases h
  · cases h

end Failure

section Shards

variable {dimensions : OrderedSet Dimension}

/-- Every set of architectures of a module has one split. -/
theorem targetings_forAbiSet (h : m.splits dimensions options = .ok splits) :
    (splits.filter (·.targeting.hasMultiAbi)).map Split.targeting =
      targetsOf .forAbiSet m.imageSets := by
  obtain ⟨parts, hparts, rfl⟩ := exists_parts h
  rw [targetings_filter_of_parts hparts Targeting.hasMultiAbi rfl fun _ => rfl,
    filter_targetsOf_eq_nil fun _ _ => rfl, filter_targetsOf_eq_nil fun _ _ => rfl,
    filter_targetsOf_eq_self fun _ _ => rfl, List.nil_append, List.nil_append]
  exact eraseDups_of_nodup (nodup_targetsOf _ fun h =>
    injective_of_select Targeting.multiAbi_forAbiSet h)

/-- The packages of a module of system images are fused from its master split with each of the
splits for a set of architectures. -/
theorem shardApex_eq (h : m.splits ∅ options = .ok splits) {master : Split}
    (hmaster : splits.filter (!·.targeting.hasMultiAbi) = [master])
    (huntargeted : master.targeting.isUntargeted) :
    shardApex m options =
      ((splits.filter (·.targeting.hasMultiAbi)).map fun s => [master, s]).mapM
        (Package.fuse · ∅) := by
  have hgroup : groupApexSplits splits =
      .ok ((splits.filter (·.targeting.hasMultiAbi)).map fun s => [master, s]) := by
    simp only [groupApexSplits, hmaster, huntargeted, if_true]
  rw [shardApex, h]
  simp only [bind, Except.bind, hgroup]

end Shards

section Splits

/-- The parts for a set of architectures hold the images of the set and what tells how they were
built. -/
theorem entriesFor_forAbiSet {dimensions : OrderedSet Dimension}
    (h : m.parts dimensions options = .ok parts) (hs : s ∈ m.imageSets) :
    entriesFor parts (.forAbiSet s (m.imageSets.filter (· ≠ s))) =
      entriesLabelled m.imageLabels (some s) := by
  have hnone {others : List Split}
      (hothers : (others.map Split.targeting).filter Targeting.hasMultiAbi = []) :
      entriesFor others (.forAbiSet s (m.imageSets.filter (· ≠ s))) = [] :=
    entriesFor_of_filter Targeting.hasMultiAbi rfl hothers
  have hrest : ([m.split .dex, m.split .root].map Split.targeting).filter Targeting.hasMultiAbi =
      [] := rfl
  rw [eq_of_parts h]
  simp only [entriesFor_append]
  rw [hnone (filter_targetings_libraryParts rfl fun _ _ => rfl),
    hnone (filter_targetings_languageParts rfl _ (owns_plainResources m dimensions).2 fun _ => rfl),
    hnone (filter_targetings_densityParts fun _ _ => rfl),
    hnone (filter_targetings_languageParts rfl _ rfl fun _ => rfl), hnone hrest,
    List.nil_append, List.nil_append, List.append_nil, List.append_nil, List.nil_append, imageParts]
  rw [← occurringLabels_imageLabels] at hs ⊢
  refine entriesFor_divide hs (fun k others h => ?_) fun h =>
    injective_of_select Targeting.multiAbi_forAbiSet h
  simpa using congrArg Targeting.hasMultiAbi h

variable (hpaths : (m.entries.map Entry.path).Nodup)
include hpaths

/-- The split of a set of architectures holds the entries that belong to the set. -/
theorem mem_entries_of_forAbiSet {dimensions : OrderedSet Dimension}
    (h : m.splits dimensions options = .ok splits) (hs : s ∈ m.imageSets) {split : Split}
    (hsplit : split ∈ splits)
    (ht : split.targeting = .forAbiSet s (m.imageSets.filter (· ≠ s))) :
    e ∈ split.entries ↔ e ∈ m.entries ∧ e.BelongsTo s := by
  obtain ⟨parts, hparts, rfl⟩ := exists_parts h
  have hlabels := imageLabels_perm hpaths
  have hnodup : ((entriesLabelled m.imageLabels (some s)).map Entry.path).Nodup := by
    have hall : ((m.imageLabels.map Prod.fst).map Entry.path).Nodup := by
      rw [((hlabels.map Prod.fst).map Entry.path).nodup_iff, List.map_map, List.map_map]
      exact hpaths.sublist (List.filter_sublist.map _)
    exact hall.sublist ((List.filter_sublist.map _).map _)
  rw [entries_of_mem_splitsOf hsplit, ht, entriesFor_forAbiSet hparts hs,
    uniquePaths_of_nodup hnodup, mem_entriesLabelled, hlabels.mem_iff, List.mem_map]
  constructor
  · rintro ⟨e', he', heq⟩
    obtain ⟨rfl, hset⟩ := Prod.mk.inj heq
    have he := (List.mem_filter.mp he').1
    exact ⟨he, ((imageSet?_eq_some_iff he).mp hset).2⟩
  · rintro ⟨he, hbelongs⟩
    have hset := (imageSet?_eq_some_iff he).mpr ⟨hs, hbelongs⟩
    exact ⟨e, List.mem_filter.mpr ⟨he, decide_eq_true (category_of_imageSet? hset)⟩, by rw [hset]⟩

/-- The master split of a module that is divided by its images only holds the entries that
belong to no image. -/
theorem mem_entries_of_apexMaster (h : m.splits ∅ options = .ok splits) {master : Split}
    (hmaster : splits.filter (!·.targeting.hasMultiAbi) = [master])
    (huntargeted : master.targeting.isUntargeted) :
    e ∈ master.entries ↔ e ∈ m.entries ∧ ∀ s ∈ m.imageSets, ¬ e.BelongsTo s := by
  have hcommon : splits.filter (·.targeting.isCommon) = [master] := by
    have hselect : splits.filter (·.targeting.isCommon) =
        (splits.filter (!·.targeting.hasMultiAbi)).filter
          fun s => !s.targeting.hasAbi && !s.targeting.hasDensity := by
      rw [List.filter_filter]
      rfl
    have hkept : (!master.targeting.hasAbi && !master.targeting.hasDensity) = true := by
      rw [of_decide_eq_true huntargeted]
      rfl
    rw [hselect, hmaster, List.filter_singleton, hkept]
    rfl
  have hentries := (common_splits hpaths h).mem_iff (a := e)
  rw [hcommon, List.flatMap_singleton, List.mem_filter] at hentries
  rw [hentries]
  refine and_congr_right fun he => ?_
  rw [← imageSet?_eq_none_iff he, isCommon]
  simp

end Splits

/-- The package for a set of architectures in a module of system images. -/
structure IsImagePackage (m : AppModule) (s : AbiSet) (p : Package) : Prop where
  /-- The package serves the set, beside the other sets of the module. -/
  targeting : p.targeting = .forAbiSet s (m.imageSets.filter (· ≠ s))
  /-- It has the module only. -/
  modules : p.modules = [m.name]
  /-- Its entries come in the order of their paths. -/
  increasing : (p.entries.map Entry.path).Pairwise (compare · · = .lt)
  /-- Its entries are the images of the set, the files that tell how these were built, and the
  entries of the module that belong to no image. -/
  entries : ∀ e, e ∈ p.entries ↔ e ∈ m.entries ∧ (e.IsImageOf s ∨ e.IsBuildInfoOf s ∨
    ∀ s' ∈ m.imageSets, ¬ e.IsImageOf s' ∧ ¬ e.IsBuildInfoOf s')

/-- Some packages are those of a module of system images. -/
structure HasImagePackages (m : AppModule) (packages : List Package) : Prop where
  /-- The sets of architectures of the module are those of its images. -/
  sets : ∀ s, s ∈ m.imageSets ↔ ∃ e ∈ m.entries, e.IsImageOf s
  /-- There is one package for each set, in the order of the sets. -/
  each : List.Forall₂ m.IsImagePackage m.imageSets.toList packages
  /-- Every image is in exactly one package. -/
  image : ∀ e ∈ m.entries, ∀ stem, e.path = "apex/" ++ stem ++ ".img" →
    packages.countP (e ∈ ·.entries) = 1
  /-- What belongs to no image is in every package. -/
  other : ∀ e ∈ m.entries, (∀ s ∈ m.imageSets, ¬ e.IsImageOf s ∧ ¬ e.IsBuildInfoOf s) →
    ∀ p ∈ packages, e ∈ p.entries

section Packages

variable (hpaths : (m.entries.map Entry.path).Nodup)
include hpaths

/-- The master split and the split of a set of architectures make the package of the set. -/
theorem exists_imagePackage (h : m.splits ∅ options = .ok splits) {master split : Split}
    (hmaster : splits.filter (!·.targeting.hasMultiAbi) = [master])
    (huntargeted : master.targeting.isUntargeted) (hs : s ∈ m.imageSets) (hsplit : split ∈ splits)
    (ht : split.targeting = .forAbiSet s (m.imageSets.filter (· ≠ s))) :
    ∃ p, Package.fuse [master, split] ∅ = .ok p ∧ m.IsImagePackage s p := by
  have hne : [master, split] ≠ [] := List.cons_ne_nil _ _
  have hmem : master ∈ splits :=
    (List.mem_filter.mp (hmaster ▸ List.mem_singleton_self master)).1
  have hname : ∀ t ∈ [master, split], t.moduleName = m.name := by
    have hdivision := isDivision_of_splits h
    simp [(hdivision.isPart master hmem).moduleName, (hdivision.isPart split hsplit).moduleName]
  have hentries (e : Entry) : e ∈ fusedEntries [master, split] ∅ ↔ e ∈ m.entries ∧
      (e.BelongsTo s ∨ ∀ s' ∈ m.imageSets, ¬ e.BelongsTo s') := by
    rw [mem_fusedEntries_of_forall_eq hne hname]
    simp only [List.mem_cons, List.not_mem_nil, or_false, exists_eq_or_imp, exists_eq_left,
      mem_entries_of_apexMaster hpaths h hmaster huntargeted,
      mem_entries_of_forAbiSet hpaths h hs hsplit ht]
    rw [← and_or_left, or_comm]
  obtain ⟨p, hp⟩ := Package.exists_fuse_iff.mpr
    ((PathsConsistent.of_nodup hpaths).subset fun e he => ((hentries e).mp he).1)
  obtain ⟨files, _, hfiles⟩ := Package.fuse_eq_ok_iff.mp hp
  refine ⟨p, hp, ⟨?_, ?_, p.paths_increasing, fun e => ?_⟩⟩
  · rw [hfiles, Package.targeting_ofFiles, List.map_cons, List.map_singleton, ht,
      of_decide_eq_true huntargeted]
    exact Targeting.combine_untargeted_forAbiSet s m.imageSets
  · rw [hfiles, Package.modules_ofFiles, shardModules_of_forall_eq hne hname]
  · rw [Package.mem_entries_of_fuse hp, hentries]
    simp only [Entry.BelongsTo, or_assoc, not_or]

/-- A module of system images that can be divided has its packages. -/
theorem exists_imagePackages (h : m.splits ∅ options = .ok splits) :
    ∃ packages, shardApex m options = .ok packages ∧
      List.Forall₂ m.IsImagePackage m.imageSets.toList packages := by
  obtain ⟨master, hmaster, huntargeted⟩ := exists_apexMaster h
  have htargetings := targetings_forAbiSet h
  rw [targetsOf, ← List.forall₂_eq_eq_eq, List.forall₂_map_left_iff, List.forall₂_map_right_iff]
    at htargetings
  have hmem := (List.forall₂_and_left _ _).mpr
    ⟨fun _ hsplit => (List.mem_filter.mp hsplit).1, htargetings⟩
  have hsets := (List.forall₂_and_left _ _).mpr ⟨fun _ hs => hs, hmem.flip⟩
  obtain ⟨packages, hpackages, hfused⟩ := exists_forall₂ hsets fun s split hs => by
    obtain ⟨p, hp, himage⟩ :=
      exists_imagePackage hpaths h hmaster huntargeted hs.1 hs.2.1 hs.2.2
    exact ⟨p, himage, hp⟩
  refine ⟨packages, ?_, hpackages⟩
  rw [shardApex_eq h hmaster huntargeted, mapM_eq_ok_iff, List.forall₂_map_left_iff]
  exact hfused

omit hpaths in
/-- Packages for the sets of architectures of well-formed images divide the entries of the
module. -/
theorem hasImagePackages_of_forall₂ {packages : List Package}
    (hwell : ∀ e ∈ m.entries, ¬ e.IsMalformedImage)
    (h : List.Forall₂ m.IsImagePackage m.imageSets.toList packages) :
    m.HasImagePackages packages where
  sets _ := mem_imageSets_iff
  each := h
  image e he stem hpath := by
    obtain ⟨s, hdenotes⟩ : ∃ s, ApexFile.Denotes stem s := by
      by_contra hnone
      exact hwell e he ⟨stem, hpath, fun s hs => hnone ⟨s, hs⟩⟩
    have himage : e.IsImageOf s := ⟨stem, hpath, hdenotes⟩
    have hs : s ∈ m.imageSets := mem_imageSets_iff.mpr ⟨e, he, himage⟩
    have hmem (s' : AbiSet) (p : Package) (hp : m.IsImagePackage s' p) :
        decide (e ∈ p.entries) = (s' == s) := by
      have hbelongs {s' : AbiSet} : e.BelongsTo s' ↔ s' = s := himage.belongsTo_iff
      rw [Bool.eq_iff_iff, decide_eq_true_eq, beq_iff_eq, hp.entries, and_iff_right he, ← hbelongs,
        Entry.BelongsTo, ← or_assoc]
      refine or_iff_left fun hother => ?_
      exact (hother s hs).1 himage
    rw [countP_eq_of_forall₂ h hmem]
    exact List.count_eq_one_of_mem m.imageSets.nodup_toList hs
  other e he hother p hp := by
    obtain ⟨s, _, hpackage⟩ := exists_of_mem_of_forall₂ h hp
    exact (hpackage.entries e).mpr ⟨he, .inr (.inr hother)⟩

/-- A module of system images cannot be divided only if the stem of an image lists no
architectures. -/
theorem exists_of_splits_error {cause : ShardError} (h : m.splits ∅ options = .error cause) :
    ∃ e ∈ m.entries, e.IsMalformedImage ∧ cause = .refusedPath (.malformedApexImage e.path) := by
  cases hparts : m.parts ∅ options with
  | ok parts =>
    rw [splits_of_parts (.of_nodup hpaths) hparts] at h
    cases h
  | error refused =>
    obtain ⟨e, he, hmalformed, rfl⟩ :=
      (exists_of_parts_error hparts).resolve_left fun h => by cases h
    rw [splits, hparts] at h
    exact ⟨e, he, hmalformed, (Except.error.inj h).symm⟩

end Packages

/-- A module whose paths are all different is packed image by image: that fails exactly if the
stem of an image lists no architectures, and names such an image; otherwise there is one package
for each set of architectures. -/
theorem hasImagePackages_of_shardApex (hpaths : (m.entries.map Entry.path).Nodup)
    (options : ShardingOptions) :
    ((∃ cause, shardApex m options = .error cause) ↔ ∃ e ∈ m.entries, e.IsMalformedImage) ∧
      (∀ cause, shardApex m options = .error cause → ∃ e ∈ m.entries, e.IsMalformedImage ∧
        cause = .refusedPath (.malformedApexImage e.path)) ∧
      ∀ packages, shardApex m options = .ok packages → m.HasImagePackages packages := by
  cases hsplits : m.splits ∅ options with
  | error cause =>
    have herror : shardApex m options = .error cause := bind_eq_error_iff.mpr (.inl hsplits)
    obtain ⟨e, he, hmalformed, hcause⟩ := exists_of_splits_error hpaths hsplits
    refine ⟨iff_of_true ⟨cause, herror⟩ ⟨e, he, hmalformed⟩, fun cause' h => ?_,
      fun packages h => ?_⟩
    · rw [herror] at h
      exact ⟨e, he, hmalformed, Except.error.inj h ▸ hcause⟩
    · rw [herror] at h
      cases h
  | ok splits =>
    obtain ⟨parts, hparts, _⟩ := exists_parts hsplits
    have hwell := not_isMalformedImage_of_parts hparts
    obtain ⟨packages, hok, heach⟩ := exists_imagePackages hpaths hsplits
    refine ⟨iff_of_false ?_ ?_, fun cause h => ?_, fun packages' h => ?_⟩
    · rintro ⟨cause, h⟩
      rw [hok] at h
      cases h
    · rintro ⟨e, he, hmalformed⟩
      exact hwell e he hmalformed
    · rw [hok] at h
      cases h
    · rw [hok] at h
      exact Except.ok.inj h ▸ hasImagePackages_of_forall₂ hwell heach

/-- A module with images of two sets of architectures, whose stems repeat and reorder names, with
a file about an image that is there and one about an image that is not. -/
def sampleImages : AppModule where
  name := "images"
  entries :=
    [⟨"apex/x86.img", ⟨#[1]⟩⟩, ⟨"apex/x86.x86.img", ⟨#[2]⟩⟩, ⟨"apex/x86_64.x86.img", ⟨#[3]⟩⟩,
      ⟨"apex/x86.x86_64.x86.build_info.pb", ⟨#[4]⟩⟩, ⟨"apex/mips.build_info.pb", ⟨#[5]⟩⟩,
      ⟨"apex/apex_manifest.json", ⟨#[6]⟩⟩, ⟨"res/drawable-hdpi/icon.png", ⟨#[7]⟩⟩]

/-- The sample is packed image by image. -/
theorem hasImagePackages_sampleImages :
    (sampleImages.entries.map Entry.path).Nodup ∧
      ∃ packages, shardApex sampleImages {} = .ok packages ∧
        sampleImages.HasImagePackages packages := by
  have hpaths : (sampleImages.entries.map Entry.path).Nodup := by decide
  obtain ⟨packages, h⟩ := exists_of_isSome_toOption (x := shardApex sampleImages {})
    (by decide +kernel)
  exact ⟨hpaths, packages, h, (hasImagePackages_of_shardApex hpaths {}).2.2 packages h⟩

end AppModule

end AppBundle
