import AppBundle.Proofs.DensityParts
import AppBundle.Proofs.RefusedPaths

/-!
# What a splitter takes out of a split

A splitter concerns certain entries and leaves all others in the first part. The other parts hold
entries that it concerns and are targeted in one dimension. The main statement says this of all
splitters at once: what a splitter makes of a split depends only on the entries that it concerns,
and the rest passes through it.
-/

namespace AppBundle

/-- One value is selected, and it is not among the alternatives. -/
def Selection.IsOne {α : Type} [Ord α] (s : Selection α) : Prop :=
  ∃ a, s.values.toList = [a] ∧ a ∉ s.alternatives

/-- A value beside other ones is selected alone. -/
theorem Selection.isOne_one {α : Type} [Ord α] {a : α} {others : OrderedSet α}
    (h : a ∉ others) : (one a others).IsOne := ⟨a, rfl, h⟩

/-- A dimension in which a value is selected is targeted. -/
theorem Selection.IsOne.isEmpty_eq_false {α : Type} [Ord α] {s : Selection α} (h : s.IsOne) :
    s.isEmpty = false := by
  obtain ⟨a, ha, _⟩ := h
  rw [isEmpty, OrderedSet.isEmpty, ha]
  rfl

/-- Exactly one dimension is targeted, by one value that is not among the alternatives. -/
inductive Targeting.IsOneDimensional : Targeting → Prop
  | abi {s : Selection Abi} (h : s.IsOne) : IsOneDimensional { abi := s }
  | density {s : Selection Density} (h : s.IsOne) : IsOneDimensional { density := s }
  | language {s : Selection Language} (h : s.IsOne) : IsOneDimensional { language := s }
  | multiAbi {s : Selection AbiSet} (h : s.IsOne) : IsOneDimensional { multiAbi := s }

/-- What is targeted in one dimension is not untargeted. -/
theorem Targeting.IsOneDimensional.isUntargeted_eq_false {t : Targeting}
    (h : t.IsOneDimensional) : t.isUntargeted = false := by
  cases h with
  | abi h => simp [isUntargeted_eq, hasAbi, h.isEmpty_eq_false]
  | density h => simp [isUntargeted_eq, hasDensity, h.isEmpty_eq_false]
  | language h => simp [isUntargeted_eq, hasLanguage, h.isEmpty_eq_false]
  | multiAbi h => simp [isUntargeted_eq, hasMultiAbi, h.isEmpty_eq_false]

namespace Entry

/-- Whether an entry is a native library of an architecture or is refused as a stray one. -/
def isLibrary (e : Entry) : Bool :=
  match libraryAbi e.path with
  | .ok none => false
  | _ => true

variable {e : Entry}

/-- Native libraries lie below `lib`. -/
theorem category_of_isLibrary (h : e.isLibrary) : e.category = .nativeLibraries := by
  cases hlib : Text.after? "lib/" e.path with
  | none => simp [isLibrary, libraryAbi, hlib] at h
  | some rest => exact Category.ofPath_of_lib hlib

/-- What has an architecture is a library. -/
theorem isLibrary_of_abi? (h : e.abi?.isSome) : e.isLibrary := by
  obtain ⟨a, ha⟩ := Option.isSome_iff_exists.mp h
  simp only [isLibrary, (abi?_eq_some_iff.mp ha).libraryAbi_eq]

/-- A library that is not refused has an architecture, and nothing else has. -/
theorem isSome_abi? (h : ¬ e.IsStrayLibrary) : e.abi?.isSome = e.isLibrary := by
  cases hlabel : libraryAbi e.path with
  | ok abi? => cases abi? <;> simp [abi?, isLibrary, acceptedLabel, hlabel]
  | error cause => exact absurd (libraryAbi_eq_error_iff.mp hlabel).1 h

/-- Stray libraries are libraries. -/
theorem IsStrayLibrary.isLibrary (h : e.IsStrayLibrary) : e.isLibrary := by
  simp only [Entry.isLibrary, h.libraryAbi_eq]

/-- Whether an entry is a system image or tells how one was built. -/
def isApexFile (e : Entry) : Bool := ApexFile.ofPath e.path ≠ .other

/-- A malformed image is a system image. -/
theorem IsMalformedImage.isApexFile (h : e.IsMalformedImage) : e.isApexFile := by
  obtain ⟨stem, hpath, _⟩ := h
  rw [Entry.isApexFile, ApexFile.ofPath_eq_image_iff.mpr hpath]
  rfl

/-- A file that tells how an image was built lies below `apex`. -/
theorem isApexFile_of_buildInfoStem? (h : (ApexFile.buildInfoStem? e.path).isSome) :
    e.isApexFile := by
  by_contra hnot
  have hother : ApexFile.ofPath e.path = .other := by simpa [isApexFile] using hnot
  rw [ApexFile.buildInfoStem?, hother] at h
  cases h

/-- What is no system image and does not tell how one was built has no set of architectures. -/
theorem isNone_imageAbis? (h : ¬ e.IsMalformedImage) :
    (decide (e.imageAbis? = none) && (ApexFile.buildInfoStem? e.path).isNone) = !e.isApexFile := by
  cases hpath : ApexFile.ofPath e.path with
  | other =>
    simp [imageAbis?, ApexFile.imageAbis, acceptedLabel, ApexFile.buildInfoStem?, isApexFile, hpath]
  | buildInfo stem => simp [ApexFile.buildInfoStem?, isApexFile, hpath]
  | image stem =>
    cases habis : ApexFile.abis? stem with
    | some s =>
      simp [imageAbis?, ApexFile.imageAbis, acceptedLabel, isApexFile, hpath, habis]
    | none =>
      refine absurd ⟨stem, ApexFile.ofPath_eq_image_iff.mp hpath, fun s hs => ?_⟩ h
      rw [ApexFile.abis?_eq_some_iff.mpr hs] at habis
      cases habis

/-- An entry with a set of architectures is a system image. -/
theorem isApexFile_of_imageAbis? (h : e.imageAbis?.isSome) : e.isApexFile := by
  obtain ⟨s, hs⟩ := Option.isSome_iff_exists.mp h
  obtain ⟨stem, hpath, _⟩ := imageAbis?_eq_some_iff.mp hs
  rw [isApexFile, hpath]
  rfl

end Entry

namespace Splitter

/-- Whether a splitter concerns an entry: whether it can take the entry out of its place. -/
def concerns : Splitter → Entry → Bool
  | nativeLibraries _, e => e.isLibrary
  | densityResources, e => e.resourceKey?.isSome
  | languageResources, e => (resourceLanguage? e.path).isSome
  | languageAssets, e => (assetLanguage? e.path).isSome
  | apexImages, e => e.isApexFile

/-- Two splits of one module and name are the same for a splitter: they hold the same entries that
concern it, in the same order. -/
structure Agrees (splitter : Splitter) (s t : Split) : Prop where
  moduleName : t.moduleName = s.moduleName
  splitName : t.splitName = s.splitName
  entries : t.entries.filter splitter.concerns = s.entries.filter splitter.concerns

/-- What remains in the first part when a splitter takes out what concerns it and puts some entries
back. -/
def remaining (splitter : Splitter) (s : Split) (left : List Entry) : Split :=
  s.derive (s.entries.filter (!splitter.concerns ·) ++ left) .untargeted

/-- What a splitter makes of an untargeted split: it takes the entries that concern it out of the
first part, puts some of them back behind all others, and makes targeted parts. All this depends
only on the entries that concern it. -/
structure Takes (splitter : Splitter) (s : Split) (left : List Entry) (targeted : List Split) :
    Prop where
  /-- The other parts are targeted in one dimension. -/
  isOneDimensional : ∀ p ∈ targeted, p.targeting.IsOneDimensional
  /-- The other parts belong to the split. -/
  eq_derive : ∀ p ∈ targeted, p = s.derive p.entries p.targeting
  /-- Only entries that concern the splitter are put back. -/
  concerns_left : ∀ e ∈ left, splitter.concerns e
  /-- Only files that tell how images were built are put back. -/
  left_eq_nil : splitter ≠ .apexImages → left = []
  /-- The outcome is the same for all splits that agree. -/
  split_eq : ∀ t, t.targeting.isUntargeted → splitter.Agrees s t →
    splitter.split t = .ok (splitter.remaining t left :: targeted)

end Splitter

/-- The entries of a split but those that tell how images were built, with the sets of
architectures of the images. -/
def Split.images (s : Split) : List (Entry × Option AbiSet) :=
  (s.entries.filter fun e => (ApexFile.buildInfoStem? e.path).isNone).map fun e => (e, e.imageAbis?)

section Labels

variable {κ : Type} [Ord κ] [Std.TransOrd κ] [Std.LawfulEqOrd κ] [DecidableEq κ]
variable {labelled : List (Entry × Option κ)} {target : κ → OrderedSet κ → Targeting} {s t : Split}

/-- The parts of a split for the labels that occur. -/
def Split.labelledParts (s : Split) (labelled : List (Entry × Option κ))
    (target : κ → OrderedSet κ → Targeting) : List Split :=
  (occurringLabels labelled).toList.map fun k =>
    s.derive (entriesLabelled labelled (some k))
      (target k ((occurringLabels labelled).filter (· ≠ k)))

omit [DecidableEq κ] in
/-- The entries without a label play no role for the labels that occur. -/
theorem occurringLabels_filter_isSome :
    occurringLabels (labelled.filter (·.2.isSome)) = occurringLabels labelled := by
  refine OrderedSet.ext fun k => ?_
  simp [mem_occurringLabels]

/-- A division leaves the entries without a label, and makes its other parts from those with one. -/
theorem Split.divide_eq :
    s.divide labelled target = s.derive (entriesLabelled labelled none) .untargeted ::
      s.labelledParts (labelled.filter (·.2.isSome)) target := by
  rw [divide, labelledParts, occurringLabels_filter_isSome]
  congr 1
  refine List.map_congr_left fun k _ => ?_
  rw [entriesLabelled_filter (by rfl)]

/-- Splits of one module and name have the same parts for the same labels. -/
theorem Split.labelledParts_congr (hmodule : t.moduleName = s.moduleName)
    (hname : t.splitName = s.splitName) :
    t.labelledParts labelled target = s.labelledParts labelled target := by
  simp only [labelledParts, derive, hmodule, hname]

variable (labelled) in
/-- A splitter that divides by labels takes out what is labelled. -/
theorem Splitter.takes_of_divide {splitter : Splitter} {left : List Entry}
    (hdivide : ∀ t, t.targeting.isUntargeted → splitter.Agrees s t → ∃ l,
      splitter.split t = .ok (t.divide l target) ∧ l.filter (·.2.isSome) = labelled ∧
      entriesLabelled l none = t.entries.filter (!splitter.concerns ·) ++ left)
    (htarget : ∀ k others, k ∉ others → (target k others).IsOneDimensional)
    (hleft : ∀ e ∈ left, splitter.concerns e) (hnil : splitter ≠ .apexImages → left = []) :
    splitter.Takes s left (s.labelledParts labelled target) where
  isOneDimensional p hp := by
    obtain ⟨k, _, rfl⟩ := List.mem_map.mp hp
    exact htarget k _ (by simp)
  eq_derive p hp := by
    obtain ⟨k, _, rfl⟩ := List.mem_map.mp hp
    rfl
  concerns_left := hleft
  left_eq_nil := hnil
  split_eq t huntargeted hagrees := by
    obtain ⟨l, hsplit, hlabelled, hnone⟩ := hdivide t huntargeted hagrees
    rw [hsplit, Split.divide_eq, hlabelled, hnone, Splitter.remaining,
      Split.labelledParts_congr hagrees.moduleName hagrees.splitName]

end Labels

namespace Splitter

variable {s t : Split} {parts : List Split} {splitter : Splitter}

section Agrees

variable (hagrees : splitter.Agrees s t)
include hagrees

/-- What concerns a splitter in a split is in all splits that agree with it. -/
theorem Agrees.mem {e : Entry} (he : e ∈ t.entries) (hconcerns : splitter.concerns e) :
    e ∈ s.entries := by
  have hmem : e ∈ t.entries.filter splitter.concerns := List.mem_filter.mpr ⟨he, hconcerns⟩
  rw [hagrees.entries] at hmem
  exact (List.mem_filter.mp hmem).1

/-- Splits that agree have the same entries of a kind that concerns the splitter. -/
theorem Agrees.filter {p : Entry → Bool} (hp : ∀ e, p e → splitter.concerns e) :
    t.entries.filter p = s.entries.filter p := by
  have hselect (u : Split) :
      u.entries.filter p = (u.entries.filter splitter.concerns).filter p := by
    rw [List.filter_filter]
    refine List.filter_congr fun e _ => ?_
    by_cases he : p e
    · simp [he, hp e he]
    · simp [he]
  rw [hselect t, hselect s, hagrees.entries]

/-- Splits that agree give the same to what looks only at entries that concern the splitter. -/
theorem Agrees.filterMap {β : Type} {f : Entry → Option β}
    (hf : ∀ e, (f e).isSome → splitter.concerns e) :
    t.entries.filterMap f = s.entries.filterMap f := by
  have hselect (u : Split) :
      u.entries.filterMap f = (u.entries.filter fun e => (f e).isSome).filterMap f := by
    rw [List.filterMap_filter]
    refine List.filterMap_congr fun e _ => ?_
    cases f e <;> rfl
  rw [hselect t, hselect s, hagrees.filter hf]

/-- Splits that agree have the same labels on entries that concern the splitter. -/
theorem Agrees.labelled {κ : Type} {label : Entry → Option κ}
    (hlabel : ∀ e, (label e).isSome → splitter.concerns e) :
    (t.entries.map fun e => (e, label e)).filter (·.2.isSome) =
      (s.entries.map fun e => (e, label e)).filter (·.2.isSome) := by
  rw [List.filter_map, List.filter_map]
  exact congrArg _ (hagrees.filter hlabel)

end Agrees

/-- Labelling native libraries succeeds if none of them is stray. -/
theorem labelLibraries_eq {entries : List Entry} (h : ∀ e ∈ entries, ¬ e.IsStrayLibrary) :
    labelLibraries entries = .ok (entries.map fun e => (e, e.abi?)) := by
  cases hlabel : labelLibraries entries with
  | ok labelled => rw [eq_of_labels hlabel]; rfl
  | error cause =>
    obtain ⟨e, he, hstray, _⟩ := exists_of_labelLibraries_error hlabel
    exact absurd hstray (h e he)

/-- The entries that have no label are those that do not concern a splitter. -/
theorem entriesLabelled_none {κ : Type} [DecidableEq κ] {label : Entry → Option κ}
    {entries : List Entry} (h : ∀ e ∈ entries, (label e).isSome = splitter.concerns e) :
    entriesLabelled (entries.map fun e => (e, label e)) none =
      entries.filter (!splitter.concerns ·) := by
  refine (map_fst_filter_labelled label (· = none) entries).trans ?_
  refine List.filter_congr fun e he => ?_
  rw [← h e he]
  cases label e <;> rfl

/-- Dividing by architecture takes out the native libraries. -/
theorem exists_takes_nativeLibraries {keep64Bit : Bool} (h : s.byLibraryAbi keep64Bit = .ok parts) :
    ∃ targeted, (nativeLibraries keep64Bit).Takes s [] targeted := by
  obtain ⟨labelled, hlabelled, _⟩ := bind_eq_ok_iff.mp h
  have hstray := not_isStrayLibrary_of_labelLibraries hlabelled
  let keeps (p : Entry × Option Abi) : Bool := keep64Bit || !p.2.any Abi.is64Bit
  refine ⟨_, takes_of_divide (((s.entries.map fun e => (e, e.abi?)).filter
    (·.2.isSome)).filter keeps) (fun t ht hagrees => ?_)
    (fun k others hk => .abi (Selection.isOne_one hk)) (by simp) fun _ => rfl⟩
  -- a stray library of a split that agrees would be in the divided split as well
  have hstray' : ∀ e ∈ t.entries, ¬ e.IsStrayLibrary := fun e he hstray' =>
    hstray e (hagrees.mem he hstray'.isLibrary) hstray'
  refine ⟨(t.entries.map fun e => (e, e.abi?)).filter keeps,
    (if_pos ht).trans (bind_eq_ok_iff.mpr ⟨_, labelLibraries_eq hstray', rfl⟩), ?_, ?_⟩
  · rw [List.filter_comm, hagrees.labelled fun e => Entry.isLibrary_of_abi?]
  · refine (entriesLabelled_filter (p := fun a => keep64Bit || !a.any Abi.is64Bit)
      (by simp)).trans ?_
    rw [List.append_nil]
    exact entriesLabelled_none fun e he => Entry.isSome_abi? (hstray' e he)

/-- Dividing by language takes out what has a language. -/
theorem exists_takes_of_byLanguage {language? : String → Option Language}
    (hconcerns : ∀ e, splitter.concerns e = (language? e.path).isSome)
    (hsplit : ∀ t, t.targeting.isUntargeted → splitter.split t = .ok (t.byLanguage language?))
    (s : Split) : ∃ targeted, splitter.Takes s [] targeted := by
  refine ⟨_, takes_of_divide ((s.entries.map fun e => (e, language? e.path)).filter
    (·.2.isSome)) (fun t ht hagrees => ⟨_, hsplit t ht, ?_, ?_⟩)
    (fun k others _ => .language (Selection.isOne_one (OrderedSet.not_mem_empty k))) (by simp)
    fun _ => rfl⟩
  · exact hagrees.labelled fun e he => (hconcerns e).trans he
  · rw [entriesLabelled_none fun e _ => (hconcerns e).symm, List.append_nil]

/-- Dividing by density takes out the variants of resources. -/
theorem exists_takes_densityResources (s : Split) :
    ∃ targeted, densityResources.Takes s [] targeted := by
  refine ⟨s.classParts s.variants, fun p hp => ?_, fun p hp => ?_, by simp, fun _ => rfl,
    fun t ht hagrees => ?_⟩
  · obtain ⟨d, entries, rfl⟩ := Split.exists_of_mem_classParts hp
    exact .density (Selection.isOne_one (by simp))
  · obtain ⟨d, entries, rfl⟩ := Split.exists_of_mem_classParts hp
    rfl
  · have hvariants : t.variants = s.variants :=
      hagrees.filterMap fun e he => Option.isSome_map.trans he
    have hrest : t.entries.filter (·.resourceKey?.isNone) =
        t.entries.filter (!densityResources.concerns ·) :=
      List.filter_congr fun e _ => (Option.not_isSome _).symm
    rw [Splitter.split, if_pos ht, Split.byDensity_eq, hrest, hvariants, remaining,
      Split.classParts_congr hagrees.moduleName hagrees.splitName, List.append_nil]

/-- Labelling system images succeeds if none of them is malformed. -/
theorem labelImages_eq (h : ∀ e ∈ s.entries, ¬ e.IsMalformedImage) :
    labelImages s.entries = .ok s.images := by
  cases hlabel : labelImages s.entries with
  | ok labelled => rw [eq_of_labels hlabel]; rfl
  | error cause =>
    obtain ⟨e, he, hmalformed, _⟩ := exists_of_labelImages_error hlabel
    exact absurd hmalformed (h e he)

/-- The files that tell how images were built are labelled in the same way in splits that agree. -/
theorem Agrees.labelBuildInfo (h : apexImages.Agrees s t) (images : OrderedSet AbiSet) :
    labelBuildInfo t.entries images = labelBuildInfo s.entries images := by
  rw [AppBundle.labelBuildInfo, AppBundle.labelBuildInfo, h.filterMap fun e he =>
    Entry.isApexFile_of_buildInfoStem? (Option.isSome_map.symm.trans he)]

/-- The images with their sets are the same in splits that agree. -/
theorem Agrees.images (h : apexImages.Agrees s t) :
    t.images.filter (·.2.isSome) = s.images.filter (·.2.isSome) := by
  rw [Split.images, Split.images, List.filter_map, List.filter_map, List.filter_filter,
    List.filter_filter, h.filter]
  intro e he
  exact Entry.isApexFile_of_imageAbis? (Bool.and_eq_true_iff.mp he).1

/-- What is no file below `apex` is left without a label. -/
theorem entriesLabelled_images (h : ∀ e ∈ s.entries, ¬ e.IsMalformedImage) :
    entriesLabelled s.images none = s.entries.filter (!apexImages.concerns ·) := by
  refine (map_fst_filter_labelled Entry.imageAbis? (· = none) _).trans ?_
  rw [List.filter_filter]
  exact List.filter_congr fun e he => Entry.isNone_imageAbis? (h e he)

/-- Dividing by sets of architectures takes out the system images with the files that tell how
they were built. The other such files are put back behind all other entries. -/
theorem exists_takes_apexImages (h : s.byImageAbis = .ok parts) :
    ∃ left targeted, apexImages.Takes s left targeted := by
  obtain ⟨images, himages, _⟩ := bind_eq_ok_iff.mp h
  have hmalformed := not_isMalformedImage_of_labelImages himages
  let info := labelBuildInfo s.entries (occurringLabels s.images)
  refine ⟨entriesLabelled info none, _, takes_of_divide ((s.images ++ info).filter (·.2.isSome))
    (fun t ht hagrees => ?_)
    (fun k others hk => .multiAbi (Selection.isOne_one hk)) ?_ fun hne => absurd rfl hne⟩
  · have hmalformed' : ∀ e ∈ t.entries, ¬ e.IsMalformedImage := fun e he hmalformed' =>
      hmalformed e (hagrees.mem he hmalformed'.isApexFile) hmalformed'
    -- whether a build file is put back depends only on which sets of architectures have images
    have hsets : occurringLabels t.images = occurringLabels s.images := by
      rw [← occurringLabels_filter_isSome, hagrees.images, occurringLabels_filter_isSome]
    have hinfo : labelBuildInfo t.entries (occurringLabels t.images) = info := by
      rw [hagrees.labelBuildInfo, hsets]
    refine ⟨t.images ++ info, ?_, ?_, ?_⟩
    · rw [split, if_pos ht, ← hinfo]
      exact bind_eq_ok_iff.mpr ⟨_, labelImages_eq hmalformed', rfl⟩
    · rw [List.filter_append, List.filter_append, hagrees.images]
    · rw [← entriesLabelled_images hmalformed']
      simp [entriesLabelled]
  · intro e he
    obtain ⟨⟨stem, f⟩, hfile, heq⟩ := List.mem_map.mp (mem_entriesLabelled.mp he)
    obtain ⟨g, _, hg⟩ := List.mem_filterMap.mp (OrderedMap.mem_of_mem_ofList hfile)
    obtain ⟨_, hstem, hpair⟩ := Option.map_eq_some_iff.mp hg
    obtain rfl : g = e := (congrArg Prod.snd hpair).trans (congrArg Prod.fst heq)
    exact Entry.isApexFile_of_buildInfoStem? (Option.isSome_of_eq_some hstem)

/-- A splitter that succeeds takes out some entries that concern it. -/
theorem exists_takes (hs : s.targeting.isUntargeted)
    (h : splitter.split s = .ok parts) : ∃ left targeted, splitter.Takes s left targeted := by
  unfold split at h
  rw [if_pos hs] at h
  cases splitter with
  | nativeLibraries keep64Bit => exact ⟨[], exists_takes_nativeLibraries h⟩
  | densityResources => exact ⟨[], exists_takes_densityResources s⟩
  | languageResources =>
    exact ⟨[], exists_takes_of_byLanguage (fun _ => rfl) (fun t ht => by rw [split, if_pos ht]) s⟩
  | languageAssets =>
    exact ⟨[], exists_takes_of_byLanguage (fun _ => rfl) (fun t ht => by rw [split, if_pos ht]) s⟩
  | apexImages => exact exists_takes_apexImages h

end Splitter

end AppBundle
