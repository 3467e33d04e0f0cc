import AppBundle.Proofs.DeclaredMetadata
import AppBundle.Proofs.RepeatedPipelines
import Mathlib.Data.List.Pairwise

/-!
# Splits of system images

The images of a split are divided by the sets of architectures that their stems list, not by the
stems. Two stems that list one set make one part with both images, and a file that tells how an
image was built goes with all images of its set. So there is one part for each image, with the
file about it, exactly if no set is listed by two stems.
-/

namespace AppBundle

namespace Entry

/-- Whether an entry is named as an image. -/
def isImage (e : Entry) : Bool :=
  match ApexFile.ofPath e.path with
  | .image _ => true
  | _ => false

/-- The stem of an image, or of a file that tells how one was built. -/
def apexStem? (e : Entry) : Option String :=
  match ApexFile.ofPath e.path with
  | .image stem | .buildInfo stem => some stem
  | .other => none

variable {e : Entry} {stem : String} {abis : AbiSet}

theorem ofPath_eq_buildInfo_iff : ApexFile.ofPath e.path = .buildInfo stem ↔
    e.path = "apex/" ++ stem ++ ".build_info.pb" := by
  rw [← ApexFile.buildInfoStem?_eq_some_iff, ApexFile.buildInfoStem?]
  cases ApexFile.ofPath e.path <;> simp

/-- An entry has a stem if it is an image of it, or tells how such an image was built. -/
theorem apexStem?_eq_some_iff : e.apexStem? = some stem ↔
    e.path = "apex/" ++ stem ++ ".img" ∨ e.path = "apex/" ++ stem ++ ".build_info.pb" := by
  rw [← ApexFile.ofPath_eq_image_iff, ← ofPath_eq_buildInfo_iff, apexStem?]
  cases ApexFile.ofPath e.path <;> simp

/-- What an entry belongs to is told by its stem. -/
theorem belongsTo_iff : e.BelongsTo abis ↔
    ∃ stem, e.apexStem? = some stem ∧ ApexFile.Denotes stem abis := by
  simp only [apexStem?_eq_some_iff, or_and_right, exists_or]
  rfl

/-- An entry belongs to one set at most. -/
theorem BelongsTo.unique {other : AbiSet} (h : e.BelongsTo abis) (h' : e.BelongsTo other) :
    abis = other := by
  obtain ⟨stem, hstem, hdenotes⟩ := belongsTo_iff.mp h
  obtain ⟨stem', hstem', hdenotes'⟩ := belongsTo_iff.mp h'
  obtain rfl := Option.some.inj (hstem.symm.trans hstem')
  exact hdenotes.unique hdenotes'

/-- An image with a stem lies at the path of this stem. -/
theorem IsImageOf.path_eq (h : e.IsImageOf abis) (hstem : e.apexStem? = some stem) :
    e.path = "apex/" ++ stem ++ ".img" := by
  obtain ⟨stem', hpath, _⟩ := h
  have hstem' := apexStem?_eq_some_iff.mpr (.inl hpath)
  rwa [Option.some.inj (hstem.symm.trans hstem')]

/-- What is an image of a set of architectures is named as an image. -/
theorem IsImageOf.isImage (h : e.IsImageOf abis) : e.isImage := by
  obtain ⟨stem, hpath, _⟩ := h
  rw [Entry.isImage, ApexFile.ofPath_eq_image_iff.mpr hpath]

/-- A malformed image is named as an image. -/
theorem IsMalformedImage.isImage (h : e.IsMalformedImage) : e.isImage := by
  obtain ⟨stem, hpath, _⟩ := h
  rw [Entry.isImage, ApexFile.ofPath_eq_image_iff.mpr hpath]

/-- What is named as an image has a set of architectures, if it is not malformed. -/
theorem isSome_imageAbis? (h : ¬ e.IsMalformedImage) : e.imageAbis?.isSome = e.isImage := by
  cases hpath : ApexFile.ofPath e.path with
  | other => simp [imageAbis?, ApexFile.imageAbis, acceptedLabel, isImage, hpath]
  | buildInfo stem => simp [imageAbis?, ApexFile.imageAbis, acceptedLabel, isImage, hpath]
  | image stem =>
    cases habis : ApexFile.abis? stem with
    | some s => simp [imageAbis?, ApexFile.imageAbis, acceptedLabel, isImage, hpath, habis]
    | none =>
      refine absurd ⟨stem, ApexFile.ofPath_eq_image_iff.mp hpath, fun s hs => ?_⟩ h
      rw [ApexFile.abis?_eq_some_iff.mpr hs] at habis
      cases habis

end Entry

namespace Split

/-- The sets of architectures of the images of a split. -/
def imageSets (s : Split) : OrderedSet AbiSet := occurringLabels s.images

/-- The images of a set of architectures, and the files that tell how such images were built. -/
def imageFiles (s : Split) (abis : AbiSet) : List Entry :=
  s.entries.filter (·.imageAbis? = some abis) ++
    ((buildFiles s.entries).toList.filter fun f => ApexFile.abis? f.1 = some abis).map Prod.snd

/-- A split holds one image, and besides it at most the file that tells how this image was built. -/
def HoldsOneImage (p : Split) : Prop :=
  ∃ stem image, image.path = "apex/" ++ stem ++ ".img" ∧
    (p.entries = [image] ∨
      ∃ info, info.path = "apex/" ++ stem ++ ".build_info.pb" ∧ p.entries = [image, info])

/-- All images of a set of architectures in a split have one stem, and so have all files that
tell how images of the set were built. -/
def SpellsOnce (s : Split) (abis : AbiSet) : Prop :=
  ∀ e ∈ s.entries, ∀ f ∈ s.entries, e.BelongsTo abis → f.BelongsTo abis →
    e.apexStem? = f.apexStem?

variable {s : Split} {parts : List Split} {abis : AbiSet} {e : Entry}

theorem mem_imageSets_iff : abis ∈ s.imageSets ↔ ∃ e ∈ s.entries, e.IsImageOf abis := by
  simp only [imageSets, mem_occurringLabels, mem_images, Entry.imageAbis?_eq_some_iff_isImageOf]

section Files

variable (hpaths : (s.entries.map Entry.path).Nodup)
include hpaths

/-- The files that tell how images were built are found by their stems. -/
theorem mem_buildFiles {stem : String} : (stem, e) ∈ (buildFiles s.entries).toList ↔
    e ∈ s.entries ∧ ApexFile.buildInfoStem? e.path = some stem := by
  rw [buildFiles, (OrderedMap.ofList_perm (AppModule.nodup_buildInfoStems hpaths)).mem_iff,
    List.mem_filterMap]
  constructor
  · rintro ⟨f, hf, hpair⟩
    obtain ⟨_, hstem, heq⟩ := Option.map_eq_some_iff.mp hpair
    obtain ⟨rfl, rfl⟩ := Prod.mk.inj heq
    exact ⟨hf, hstem⟩
  · rintro ⟨he, hstem⟩
    exact ⟨e, he, Option.map_eq_some_iff.mpr ⟨stem, hstem, rfl⟩⟩

/-- The files of a set of architectures are those that belong to it. -/
theorem mem_imageFiles : e ∈ s.imageFiles abis ↔ e ∈ s.entries ∧ e.BelongsTo abis := by
  have hinfo : e ∈ ((buildFiles s.entries).toList.filter fun f =>
      ApexFile.abis? f.1 = some abis).map Prod.snd ↔ e ∈ s.entries ∧ e.IsBuildInfoOf abis := by
    rw [List.mem_map]
    constructor
    · rintro ⟨⟨stem, f⟩, hf, rfl⟩
      obtain ⟨hmem, habis⟩ := List.mem_filter.mp hf
      obtain ⟨hmem, hstem⟩ := (mem_buildFiles hpaths).mp hmem
      exact ⟨hmem, stem, ApexFile.buildInfoStem?_eq_some_iff.mp hstem,
        ApexFile.abis?_eq_some_iff.mp (of_decide_eq_true habis)⟩
    · rintro ⟨hmem, stem, hpath, hdenotes⟩
      refine ⟨(stem, e), List.mem_filter.mpr ⟨(mem_buildFiles hpaths).mpr ⟨hmem,
        ApexFile.buildInfoStem?_eq_some_iff.mpr hpath⟩, ?_⟩, rfl⟩
      exact decide_eq_true (ApexFile.abis?_eq_some_iff.mpr hdenotes)
  rw [imageFiles, List.mem_append, hinfo, List.mem_filter, decide_eq_true_eq,
    Entry.imageAbis?_eq_some_iff_isImageOf, ← and_or_left]
  rfl

end Files

/-- The part of a split for a set of architectures. -/
def imagePart (s : Split) (abis : AbiSet) : Split :=
  s.derive (s.imageFiles abis) (.forAbiSet abis (s.imageSets.filter (· ≠ abis)))

/-- The sets that occur among all labels are those of the images. -/
theorem occurringLabels_images_append :
    occurringLabels (s.images ++ labelBuildInfo s.entries s.imageSets) = s.imageSets := by
  refine OrderedSet.ext fun abis => ?_
  simp only [mem_occurringLabels, List.mem_append, exists_or]
  refine (or_congr_left mem_occurringLabels.symm).trans (or_iff_left_of_imp ?_)
  rintro ⟨e, he⟩
  obtain ⟨_, _, hpair⟩ := List.mem_map.mp he
  obtain ⟨_, hset⟩ := Option.filter_eq_some_iff.mp (congrArg Prod.snd hpair)
  exact of_decide_eq_true hset

/-- The files of a set of architectures are those that are labelled with it. -/
theorem entriesLabelled_images_append (habis : abis ∈ s.imageSets) :
    entriesLabelled (s.images ++ labelBuildInfo s.entries s.imageSets) (some abis) =
      s.imageFiles abis := by
  have himages : entriesLabelled s.images (some abis) =
      s.entries.filter (·.imageAbis? = some abis) := by
    refine (map_fst_filter_labelled Entry.imageAbis? (· = some abis) _).trans ?_
    rw [List.filter_filter]
    refine List.filter_congr fun e _ => ?_
    by_cases himage : e.imageAbis? = some abis
    · obtain ⟨stem, hpath, _⟩ := Entry.imageAbis?_eq_some_iff_isImageOf.mp himage
      simp [himage, Entry.buildInfoStem?_of_image hpath]
    · simp [himage]
  have hinfo : entriesLabelled (labelBuildInfo s.entries s.imageSets) (some abis) =
      ((buildFiles s.entries).toList.filter fun f => ApexFile.abis? f.1 = some abis).map
        Prod.snd := by
    rw [entriesLabelled, labelBuildInfo, List.filter_map, List.map_map]
    congr 1
    refine List.filter_congr fun f _ => decide_eq_decide.mpr ?_
    rw [Option.filter_eq_some_iff]
    exact and_iff_left_of_imp fun _ => decide_eq_true habis
  rw [imageFiles, ← himages, ← hinfo, entriesLabelled, List.filter_append, List.map_append]
  rfl

/-- Dividing a split by its images makes one part for each set of architectures, and before them
the part of all else. -/
theorem exists_of_byImageAbis (h : s.byImageAbis = .ok parts) :
    ∃ rest, parts = s.derive rest .untargeted :: s.imageSets.toList.map s.imagePart := by
  obtain ⟨images, himages, hparts⟩ := bind_eq_ok_iff.mp h
  have hwell := not_isMalformedImage_of_labelImages himages
  obtain rfl : s.images = images :=
    Except.ok.inj ((Splitter.labelImages_eq hwell).symm.trans himages)
  obtain rfl := Except.ok.inj hparts
  change ∃ rest, s.divide (s.images ++ labelBuildInfo s.entries s.imageSets) .forAbiSet = _
  refine ⟨_, congrArg (List.cons _) ?_⟩
  rw [occurringLabels_images_append]
  refine List.map_congr_left fun abis habis => ?_
  rw [entriesLabelled_images_append habis]
  rfl

section OneStem

variable (hpaths : (s.entries.map Entry.path).Nodup) {stem : String}
  (hstem : ∀ e ∈ s.entries, e.BelongsTo abis → e.apexStem? = some stem)
include hpaths hstem

/-- If all files of a set of architectures have one stem, the set has one image at most. -/
theorem filter_imageAbis?_eq_singleton {image : Entry} (himage : image ∈ s.entries)
    (hof : image.IsImageOf abis) : s.entries.filter (·.imageAbis? = some abis) = [image] := by
  rw [← filter_eq_singleton hpaths himage]
  refine List.filter_congr fun e he => decide_eq_decide.mpr ?_
  rw [Entry.imageAbis?_eq_some_iff_isImageOf]
  constructor
  · intro he'
    rw [he'.path_eq (hstem e he (.inl he')), hof.path_eq (hstem image himage (.inl hof))]
  · intro hsame
    rwa [List.inj_on_of_nodup_map hpaths he himage hsame]

/-- If all files of a set of architectures have one stem, one of them at most tells how images were
built. -/
theorem filter_buildFiles_eq_nil_or_singleton :
    let files := (buildFiles s.entries).toList.filter fun f => ApexFile.abis? f.1 = some abis
    files = [] ∨ ∃ info, info.path = "apex/" ++ stem ++ ".build_info.pb" ∧
      files = [(stem, info)] := by
  intro files
  have hfiles : ∀ f ∈ files, f.1 = stem ∧ f.2.path = "apex/" ++ stem ++ ".build_info.pb" := by
    rintro ⟨stem', info⟩ hf
    obtain ⟨hf, hdenotes⟩ := List.mem_filter.mp hf
    obtain ⟨hinfo, hstem'⟩ := (mem_buildFiles hpaths).mp hf
    have hpath := ApexFile.buildInfoStem?_eq_some_iff.mp hstem'
    have hbelongs : info.BelongsTo abis :=
      .inr ⟨stem', hpath, ApexFile.abis?_eq_some_iff.mp (of_decide_eq_true hdenotes)⟩
    have hown := Entry.apexStem?_eq_some_iff.mpr (.inr hpath)
    obtain rfl := Option.some.inj (hown.symm.trans (hstem info hinfo hbelongs))
    exact ⟨rfl, hpath⟩
  -- the files are kept by their stems, so there is one at most for each stem
  have hkeys : (files.map Prod.fst).Nodup :=
    (buildFiles s.entries).nodup_keys.sublist (List.filter_sublist.map _)
  rcases eq_nil_or_singleton_of_nodup hkeys fun f hf => (hfiles f hf).1 with hnil | ⟨f, hf, rfl⟩
  · exact .inl hnil
  · exact .inr ⟨f.2, (hfiles f (hf ▸ List.mem_singleton_self f)).2, hf⟩

end OneStem

/-- The part of a set of architectures holds one image, and besides it at most the file about this
image, exactly if no two stems list the set. -/
theorem holdsOneImage_imagePart_iff (hpaths : (s.entries.map Entry.path).Nodup)
    (habis : abis ∈ s.imageSets) : (s.imagePart abis).HoldsOneImage ↔ s.SpellsOnce abis := by
  constructor
  · rintro ⟨stem, image, himage, hentries⟩ e he f hf hebelongs hfbelongs
    have hstem (g : Entry) (hg : g ∈ s.entries) (hbelongs : g.BelongsTo abis) :
        g.apexStem? = some stem := by
      have hmem : g ∈ (s.imagePart abis).entries := (mem_imageFiles hpaths).mpr ⟨hg, hbelongs⟩
      rw [Entry.apexStem?_eq_some_iff]
      rcases hentries with hentries | ⟨info, hinfo, hentries⟩
      · rw [hentries, List.mem_singleton] at hmem
        exact .inl (hmem ▸ himage)
      · rw [hentries, List.mem_pair] at hmem
        rcases hmem with rfl | rfl
        · exact .inl himage
        · exact .inr hinfo
    rw [hstem e he hebelongs, hstem f hf hfbelongs]
  · intro hspells
    obtain ⟨image, himage, hof⟩ := mem_imageSets_iff.mp habis
    obtain ⟨stem, hpath, _⟩ := id hof
    have hown := Entry.apexStem?_eq_some_iff.mpr (.inl hpath)
    have hstem : ∀ e ∈ s.entries, e.BelongsTo abis → e.apexStem? = some stem :=
      fun e he hbelongs => (hspells e he image himage hbelongs (.inl hof)).trans hown
    refine ⟨stem, image, hpath, ?_⟩
    change s.imageFiles abis = _ ∨ ∃ info : Entry, _ ∧ s.imageFiles abis = _
    rw [imageFiles, filter_imageAbis?_eq_singleton hpaths hstem himage hof]
    rcases filter_buildFiles_eq_nil_or_singleton hpaths hstem with hnil | ⟨info, hinfo, hsingle⟩
    · rw [hnil]
      exact .inl rfl
    · rw [hsingle]
      exact .inr ⟨info, hinfo, rfl⟩

/-- No two images of a split have the same set of architectures. -/
def ImagesDiffer (s : Split) : Prop :=
  ∀ e ∈ s.entries, ∀ f ∈ s.entries, ∀ abis, e.IsImageOf abis → f.IsImageOf abis → e = f

/-- Images of different sets are those whose sets, listed for each image, are different. -/
theorem nodup_imageAbis?_iff (hnodup : s.entries.Nodup) :
    (s.entries.filterMap Entry.imageAbis?).Nodup ↔ s.ImagesDiffer := by
  rw [List.Nodup, List.pairwise_filterMap]
  constructor
  · intro hpairwise e he f hf abis hof hof'
    by_contra hne
    have hsymm : Std.Symm fun e f : Entry => ∀ a, e.imageAbis? = some a →
        ∀ b, f.imageAbis? = some b → a ≠ b := ⟨fun _ _ h a ha b hb => (h b hb a ha).symm⟩
    rw [← Entry.imageAbis?_eq_some_iff_isImageOf] at hof hof'
    exact hpairwise.forall he hf hne abis hof abis hof' rfl
  · intro hdiffer
    refine hnodup.pairwise_of_forall_ne fun e he f hf hne abis hof abis' hof' hsame => hne ?_
    rw [Entry.imageAbis?_eq_some_iff_isImageOf] at hof hof'
    exact hdiffer e he f hf abis hof (hsame ▸ hof')

/-- There are as many sets of architectures as images exactly if no two images have the same. -/
theorem length_imageSets_eq_iff (hnodup : s.entries.Nodup)
    (hwell : ∀ e ∈ s.entries, ¬ e.IsMalformedImage) :
    s.imageSets.toList.length = s.entries.countP Entry.isImage ↔ s.ImagesDiffer := by
  have hcount : s.entries.countP Entry.isImage =
      (s.entries.filterMap Entry.imageAbis?).length := by
    rw [List.length_filterMap_eq_countP]
    exact List.countP_congr fun e he => by rw [Entry.isSome_imageAbis? (hwell e he)]
  have hmem (abis : AbiSet) :
      abis ∈ s.imageSets.toList ↔ abis ∈ s.entries.filterMap Entry.imageAbis? := by
    simp only [OrderedSet.mem_toList, mem_imageSets_iff, List.mem_filterMap,
      Entry.imageAbis?_eq_some_iff_isImageOf]
  rw [hcount, ← nodup_imageAbis?_iff hnodup]
  constructor
  · intro hlength
    have hsubperm := List.subperm_of_subset s.imageSets.nodup_toList fun abis => (hmem abis).mp
    exact (hsubperm.perm_of_length_le hlength.ge).nodup_iff.mp s.imageSets.nodup_toList
  · intro hsets
    exact ((List.perm_ext_iff_of_nodup s.imageSets.nodup_toList hsets).mpr hmem).length_eq

/-- If no set of architectures is listed by two stems, the images have different sets. -/
theorem imagesDiffer_of_spellsOnce (hpaths : (s.entries.map Entry.path).Nodup)
    (h : ∀ abis ∈ s.imageSets, s.SpellsOnce abis) : s.ImagesDiffer := by
  intro e he f hf abis hof hof'
  have habis : abis ∈ s.imageSets := mem_imageSets_iff.mpr ⟨e, he, hof⟩
  obtain ⟨stem, hpath, _⟩ := id hof
  have hstem := Entry.apexStem?_eq_some_iff.mpr (.inl hpath)
  have hsame := h abis habis f hf e he (.inl hof') (.inl hof)
  refine List.inj_on_of_nodup_map hpaths he hf ?_
  rw [hof.path_eq hstem, hof'.path_eq (hsame.trans hstem)]

/-- A part of a split for a set of architectures. -/
structure IsImagePart (s : Split) (abis : AbiSet) (p : Split) : Prop where
  /-- The part serves the set, beside the other sets of the split. -/
  targeting : p.targeting = .forAbiSet abis (s.imageSets.filter (· ≠ abis))
  /-- It holds the images of the set and the files that tell how such images were built. -/
  entries : ∀ e, e ∈ p.entries ↔ e ∈ s.entries ∧ (e.IsImageOf abis ∨ e.IsBuildInfoOf abis)
  /-- It holds one image, and besides it at most the file about this image, exactly if no two
  stems list the set. -/
  holdsOneImage_iff : p.HoldsOneImage ↔ s.SpellsOnce abis

/-- Some parts are those of a split that is divided by its images. -/
structure HasImageParts (s : Split) (parts : List Split) : Prop where
  /-- There is one part for each set of architectures, in the order of the sets. -/
  each : List.Forall₂ s.IsImagePart s.imageSets.toList (parts.filter (·.targeting.hasMultiAbi))
  /-- Every part holds one image, and besides it at most the file about this image, exactly if no
  set is listed by two stems. -/
  holdsOneImage_iff : (∀ p ∈ parts, p.targeting.hasMultiAbi → p.HoldsOneImage) ↔
    ∀ abis ∈ s.imageSets, s.SpellsOnce abis
  /-- Then there is one part for each image. -/
  length_eq : (∀ p ∈ parts, p.targeting.hasMultiAbi → p.HoldsOneImage) →
    (parts.filter (·.targeting.hasMultiAbi)).length = s.entries.countP Entry.isImage
  /-- There is one part for each image only if no two images have the same set. -/
  length_eq_iff : (parts.filter (·.targeting.hasMultiAbi)).length =
    s.entries.countP Entry.isImage ↔ s.ImagesDiffer
  /-- A module with these images has one package for each part. -/
  packages : ∀ (m : AppModule) (options : ShardingOptions), (m.entries.map Entry.path).Nodup →
    (∀ e, e.isImage → (e ∈ m.entries ↔ e ∈ s.entries)) →
    ∃ packages, shardApex m options = .ok packages ∧
      packages.length = (parts.filter (·.targeting.hasMultiAbi)).length

/-- The targeted parts of a split that is divided by its images are those of the sets. -/
theorem filter_hasMultiAbi_of_byImageAbis (h : s.byImageAbis = .ok parts) :
    parts.filter (·.targeting.hasMultiAbi) = s.imageSets.toList.map s.imagePart := by
  obtain ⟨rest, rfl⟩ := exists_of_byImageAbis h
  rw [List.filter_cons_of_neg (by simp)]
  refine List.filter_eq_self.mpr fun p hp => ?_
  obtain ⟨abis, _, rfl⟩ := List.mem_map.mp hp
  rfl

/-- The packages of a module with the images of a split are one for each set of architectures of the
split. -/
theorem exists_packages (hwell : ∀ e ∈ s.entries, ¬ e.IsMalformedImage) {m : AppModule}
    (options : ShardingOptions) (hpaths : (m.entries.map Entry.path).Nodup)
    (himages : ∀ e, e.isImage → (e ∈ m.entries ↔ e ∈ s.entries)) :
    ∃ packages, shardApex m options = .ok packages ∧
      packages.length = s.imageSets.toList.length := by
  have hsets : m.imageSets = s.imageSets := by
    refine OrderedSet.ext fun abis => ?_
    rw [AppModule.mem_imageSets_iff, mem_imageSets_iff]
    exact exists_congr fun e => and_congr_left fun hof => himages e hof.isImage
  cases hsplits : m.splits ∅ options with
  | error cause =>
    obtain ⟨e, he, hmalformed, _⟩ := AppModule.exists_of_splits_error hpaths hsplits
    exact absurd hmalformed (hwell e ((himages e hmalformed.isImage).mp he))
  | ok splits =>
    obtain ⟨packages, hpackages, heach⟩ := AppModule.exists_imagePackages hpaths hsplits
    exact ⟨packages, hpackages, hsets ▸ heach.length_eq.symm⟩

/-- Dividing a split whose paths are all different makes one part for each set of architectures of
its images; a part holds one image, and besides it at most the file about this image, exactly if no
two stems list its set. -/
theorem hasImageParts_of_split (hs : s.targeting.isUntargeted)
    (hpaths : (s.entries.map Entry.path).Nodup) (h : Splitter.apexImages.split s = .ok parts) :
    s.HasImageParts parts := by
  rw [Splitter.split, if_pos hs] at h
  obtain ⟨_, himages, _⟩ := bind_eq_ok_iff.mp h
  have hwell := not_isMalformedImage_of_labelImages himages
  have hparts := filter_hasMultiAbi_of_byImageAbis h
  have hcount := length_imageSets_eq_iff (.of_map _ hpaths) hwell
  have hlength : (parts.filter (·.targeting.hasMultiAbi)).length = s.imageSets.toList.length := by
    rw [hparts, List.length_map]
  have hall : (∀ p ∈ parts, p.targeting.hasMultiAbi → p.HoldsOneImage) ↔
      ∀ abis ∈ s.imageSets, s.SpellsOnce abis := by
    have hmulti : (∀ p ∈ parts, p.targeting.hasMultiAbi → p.HoldsOneImage) ↔
        ∀ p ∈ parts.filter (·.targeting.hasMultiAbi), p.HoldsOneImage := by
      simp only [List.mem_filter, and_imp]
    rw [hmulti, hparts, List.forall_mem_map]
    exact forall₂_congr fun abis habis => holdsOneImage_imagePart_iff hpaths habis
  refine ⟨?_, hall, fun hone => ?_, hlength ▸ hcount, fun m options hm hsame => ?_⟩
  · rw [hparts, List.forall₂_map_right_iff, List.forall₂_same]
    exact fun abis habis =>
      ⟨rfl, fun e => mem_imageFiles hpaths, holdsOneImage_imagePart_iff hpaths habis⟩
  · rw [hlength]
    exact hcount.mpr (imagesDiffer_of_spellsOnce hpaths (hall.mp hone))
  · rw [hlength]
    exact exists_packages hwell options hm hsame

/-- An image of one set of architectures with the file about it, an image of another set, a file
about no image, and a file that is no system image. -/
def sampleImageParts : Split :=
  .ofEntries "images"
    [⟨"apex/x86.build_info.pb", ⟨#[1]⟩⟩, ⟨"apex/x86.x86_64.img", ⟨#[2]⟩⟩,
      ⟨"apex/mips.build_info.pb", ⟨#[3]⟩⟩, ⟨"apex/x86.img", ⟨#[4]⟩⟩,
      ⟨"apex/apex_manifest.json", ⟨#[5]⟩⟩] .untargeted

/-- The sample is divided by its two images. -/
theorem hasImageParts_sampleImageParts :
    sampleImageParts.targeting.isUntargeted ∧ (sampleImageParts.entries.map Entry.path).Nodup ∧
      ∃ parts, Splitter.apexImages.split sampleImageParts = .ok parts ∧
        parts.map Split.paths = [["apex/apex_manifest.json", "apex/mips.build_info.pb"],
          ["apex/x86.img", "apex/x86.build_info.pb"], ["apex/x86.x86_64.img"]] ∧
        sampleImageParts.HasImageParts parts := by
  have hs : sampleImageParts.targeting.isUntargeted := by decide
  have hpaths : (sampleImageParts.entries.map Entry.path).Nodup := by decide
  obtain ⟨parts, h⟩ := exists_of_isSome_toOption
    (x := Splitter.apexImages.split sampleImageParts) (by decide +kernel)
  have hfiles : (Splitter.apexImages.split sampleImageParts).toOption.map (·.map Split.paths) =
      some [["apex/apex_manifest.json", "apex/mips.build_info.pb"],
        ["apex/x86.img", "apex/x86.build_info.pb"], ["apex/x86.x86_64.img"]] := by
    decide +kernel
  rw [h] at hfiles
  exact ⟨hs, hpaths, parts, h, Option.some.inj hfiles, hasImageParts_of_split hs hpaths h⟩

/-- Two images whose stems list one set of architectures. -/
def twinImages : Split :=
  .ofEntries baseName [⟨"apex/x86.x86_64.img", ⟨#[1]⟩⟩, ⟨"apex/x86_64.x86.img", ⟨#[2]⟩⟩] .untargeted

/-- Two images that are listed under one set of architectures are in one part. -/
theorem exists_two_images_twinImages :
    twinImages.targeting.isUntargeted ∧ (twinImages.entries.map Entry.path).Nodup ∧
      ∃ parts, Splitter.apexImages.split twinImages = .ok parts ∧
        (∃ p ∈ parts, p.targeting.hasMultiAbi ∧
          p.paths = ["apex/x86.x86_64.img", "apex/x86_64.x86.img"] ∧ ¬ p.HoldsOneImage) ∧
        (parts.filter (·.targeting.hasMultiAbi)).length ≠ twinImages.entries.countP Entry.isImage := by
  let part : Split := twinImages.derive twinImages.entries
    (.forAbiSet (.ofList [.x86, .x86_64]) ∅)
  have hsplit : (Splitter.apexImages.split twinImages).toOption =
      some [twinImages.derive [] .untargeted, part] := by
    decide +kernel
  obtain ⟨parts, h⟩ := exists_of_isSome_toOption (x := Splitter.apexImages.split twinImages)
    (by rw [hsplit]; rfl)
  rw [h] at hsplit
  obtain rfl := Option.some.inj hsplit
  refine ⟨by decide, by decide, _, h, ⟨part, by simp, by decide, by decide, ?_⟩, by decide⟩
  rintro ⟨stem, image, -, hentries | ⟨info, hpath, hentries⟩⟩
  · have hlength : 2 = 1 := congrArg List.length hentries
    cases hlength
  · -- the second file is an image, and not a file about one
    obtain ⟨-, hinfo⟩ := List.cons.inj hentries
    obtain rfl := List.singleton_inj.mp hinfo
    have hnone : ApexFile.buildInfoStem? "apex/x86_64.x86.img" = none := by decide
    have hsome := ApexFile.buildInfoStem?_eq_some_iff.mpr hpath
    exact absurd (hsome.symm.trans hnone) (Option.some_ne_none stem)

end Split

end AppBundle
