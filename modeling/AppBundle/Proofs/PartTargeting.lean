import AppBundle.Proofs.ModuleParts

/-!
# What the parts of a module serve

Every part of a module is untargeted or targeted in exactly one dimension, with
one value beside the values of its siblings. The file lists the targetings in
the order of the parts and derives what every single part has in common.
-/

namespace AppBundle

namespace AppModule

variable {m : AppModule} {dimensions : OrderedSet Dimension} {options : ShardingOptions}

/-- The targetings that parts of a module have: none, or one value of one dimension
beside the other values of the module. -/
inductive PartTargeting (m : AppModule) (dimensions : OrderedSet Dimension)
    (options : ShardingOptions) : Targeting → Prop
  | untargeted : PartTargeting m dimensions options .untargeted
  | forAbi {a : Abi} (h : a ∈ m.abis dimensions options) :
    PartTargeting m dimensions options (.forAbi a ((m.abis dimensions options).filter (· ≠ a)))
  | forDensity {d : Density} (h : d ∈ m.densities dimensions) :
    PartTargeting m dimensions options (.forDensity d ((m.densities dimensions).filter (· ≠ d)))
  | forLanguage {l : Language} (h : Pipeline.dividesLanguages dimensions options) :
    PartTargeting m dimensions options (.forLanguage l)
  | forAbiSet {s : AbiSet} (h : s ∈ m.imageSets) :
    PartTargeting m dimensions options (.forAbiSet s (m.imageSets.filter (· ≠ s)))

/-- A split belongs to a module: its entries are entries of the module, and it is
a master split if nothing is targeted. -/
structure Owns (m : AppModule) (p : Split) : Prop where
  /-- The split bears the name of the module. -/
  moduleName : p.moduleName = m.name
  /-- The master splits are the untargeted ones. -/
  isMaster : p.isMaster = p.targeting.isUntargeted
  /-- The entries of the split are entries of the module. -/
  entries : ∀ e ∈ p.entries, e ∈ m.entries

/-- What all parts of a module have in common. -/
structure IsPart (m : AppModule) (dimensions : OrderedSet Dimension) (options : ShardingOptions)
    (p : Split) : Prop extends m.Owns p where
  /-- A part serves at most one dimension. -/
  targeting : m.PartTargeting dimensions options p.targeting

/-- The split of a kind of content belongs to the module. -/
theorem owns_split (c : Category) : m.Owns (m.split c) :=
  ⟨rfl, rfl, fun _ he => (List.mem_filter.mp he).1⟩

/-- The parts of a division belong to the module of the divided split. -/
theorem owns_of_mem_divide {κ : Type} [Ord κ] [Std.TransOrd κ] [Std.LawfulEqOrd κ]
    [DecidableEq κ] {s p : Split} {labelled : List (Entry × Option κ)}
    {target : κ → OrderedSet κ → Targeting} (hs : m.Owns s)
    (hlabelled : ∀ e ∈ labelled.map Prod.fst, e ∈ m.entries) (h : p ∈ s.divide labelled target) :
    m.Owns p := by
  have hentries (e : Entry) (he : e ∈ p.entries) : e ∈ m.entries :=
    hlabelled e (entries_divide_perm.mem_iff.mp (List.mem_flatMap.mpr ⟨p, h, he⟩))
  rcases List.mem_cons.mp h with rfl | h
  · exact ⟨hs.moduleName, rfl, hentries⟩
  · obtain ⟨k, _, rfl⟩ := List.mem_map.mp h
    exact ⟨hs.moduleName, rfl, hentries⟩

/-- The kept libraries have the architectures of the module. -/
theorem occurringLabels_libraryLabels (h : .abi ∈ dimensions) :
    occurringLabels (m.libraryLabels options) = m.abis dimensions options := by
  refine OrderedSet.ext fun a => ?_
  rw [mem_occurringLabels, mem_abis, libraryLabels]
  simp only [List.mem_filter, List.mem_map, Prod.mk.injEq, entriesIn]
  constructor
  · rintro ⟨_, ⟨e, he, rfl, ha⟩, hkeeps⟩
    exact ⟨h, hkeeps, e, he.1, ha⟩
  · rintro ⟨_, hkeeps, e, he, ha⟩
    exact ⟨e, ⟨e, ⟨he, by simpa using Entry.category_of_abi? ha⟩, rfl, ha⟩, hkeeps⟩

/-- The images and what belongs to them have the sets of the images. -/
theorem occurringLabels_imageLabels : occurringLabels m.imageLabels = m.imageSets := by
  refine OrderedSet.ext fun s => ?_
  rw [mem_occurringLabels, imageLabels]
  constructor
  · rintro ⟨e, he⟩
    rcases List.mem_append.mp he with he | he
    · rw [← occurringLabels_imageEntries]
      exact mem_occurringLabels.mpr ⟨e, he⟩
    · obtain ⟨⟨stem, e'⟩, _, hpair⟩ := List.mem_map.mp he
      have hset := (Option.filter_eq_some_iff.mp (congrArg Prod.snd hpair)).2
      simpa using hset
  · intro hs
    rw [← occurringLabels_imageEntries] at hs
    obtain ⟨e, he⟩ := mem_occurringLabels.mp hs
    exact ⟨e, List.mem_append_left _ he⟩

/-- The parts of the native libraries. -/
theorem targetings_libraryParts :
    (m.libraryParts dimensions options).map Split.targeting =
      .untargeted :: targetsOf .forAbi (m.abis dimensions options) := by
  unfold libraryParts
  by_cases h : .abi ∈ dimensions
  · rw [if_pos h, targetings_divide, occurringLabels_libraryLabels h]
  · rw [if_neg h, abis, if_neg h]
    rfl

/-- The parts of the resources for density classes. -/
theorem targetings_densityParts :
    (m.densityParts dimensions).map Split.targeting =
      targetsOf .forDensity (m.densities dimensions) := by
  simp [densityParts, targetsOf]

/-- The parts of the system images. -/
theorem targetings_imageParts :
    m.imageParts.map Split.targeting = .untargeted :: targetsOf .forAbiSet m.imageSets := by
  rw [imageParts, targetings_divide, occurringLabels_imageLabels]

variable (dimensions options) in
/-- The parts of a split by language. -/
theorem targetings_languageParts {s : Split} (language? : String → Option Language)
    (hs : s.targeting = .untargeted) :
    ∃ languages : List Language,
      (languageParts dimensions options language? s).map Split.targeting =
        .untargeted :: languages.map .forLanguage ∧
      (languages ≠ [] → Pipeline.dividesLanguages dimensions options) := by
  unfold languageParts
  by_cases h : Pipeline.dividesLanguages dimensions options
  · rw [if_pos h]
    exact ⟨_, targetings_divide, fun _ => h⟩
  · rw [if_neg h]
    exact ⟨[], by rw [List.map_singleton, hs, List.map_nil], fun hne => absurd rfl hne⟩

variable (m dimensions) in
/-- The plain resources belong to the module and are untargeted. -/
theorem owns_plainResources :
    m.Owns (m.plainResources dimensions) ∧
      (m.plainResources dimensions).targeting = .untargeted := by
  unfold plainResources
  split
  · refine ⟨⟨rfl, rfl, fun e he => ?_⟩, rfl⟩
    exact (owns_split .resources).entries e (List.mem_filter.mp he).1
  · exact ⟨owns_split .resources, rfl⟩

/-- The parts of a split by language belong to its module. -/
theorem owns_of_mem_languageParts {s p : Split} {language? : String → Option Language}
    (hs : m.Owns s) (h : p ∈ languageParts dimensions options language? s) : m.Owns p := by
  unfold languageParts at h
  split at h
  · refine owns_of_mem_divide hs (fun e he => hs.entries e ?_) h
    simpa using he
  · rw [List.mem_singleton.mp h]
    exact hs

/-- The labelled native libraries are native libraries of the module. -/
theorem mem_entriesIn_of_libraryLabels {e : Entry}
    (he : e ∈ (m.libraryLabels options).map Prod.fst) : e ∈ m.entriesIn .nativeLibraries := by
  obtain ⟨l, hl, rfl⟩ := List.mem_map.mp he
  obtain ⟨e', he', rfl⟩ := List.mem_map.mp (List.mem_filter.mp hl).1
  exact he'

/-- The entries for a density class are resources of the module. -/
theorem mem_entriesIn_of_densityEntries {d : Density} {e : Entry} (he : e ∈ m.densityEntries d) :
    e ∈ m.entriesIn .resources := by
  obtain ⟨key, _, hbest⟩ := List.mem_filterMap.mp he
  obtain ⟨v, hv, rfl, _⟩ := DensityVariant.mem_of_best? hbest
  obtain ⟨e, he, hev⟩ := mem_variants.mp hv
  rw [DensityVariant.entry_of_ofEntry? hev]
  exact List.mem_filter.mpr ⟨he, decide_eq_true (DensityVariant.category_of_ofEntry? hev)⟩

/-- The labelled system images, and what belongs to them, lie below `apex` in the module. -/
theorem mem_entriesIn_of_imageLabels {e : Entry} (he : e ∈ m.imageLabels.map Prod.fst) :
    e ∈ m.entriesIn .apexImages := by
  obtain ⟨l, hl, rfl⟩ := List.mem_map.mp he
  rcases List.mem_append.mp hl with hl | hl
  · obtain ⟨e', he', rfl⟩ := List.mem_map.mp hl
    exact (List.mem_filter.mp he').1
  · obtain ⟨⟨stem, e⟩, hfile, rfl⟩ := List.mem_map.mp hl
    obtain ⟨e', he', hpair⟩ := List.mem_filterMap.mp (OrderedMap.mem_of_mem_ofList hfile)
    obtain ⟨_, _, hpair⟩ := Option.map_eq_some_iff.mp hpair
    obtain rfl : e' = e := congrArg Prod.snd hpair
    exact he'

/-- The parts of the native libraries belong to the module. -/
theorem owns_of_mem_libraryParts {p : Split} (h : p ∈ m.libraryParts dimensions options) :
    m.Owns p := by
  unfold libraryParts at h
  split at h
  · refine owns_of_mem_divide (owns_split _) (fun e he => ?_) h
    exact (List.mem_filter.mp (mem_entriesIn_of_libraryLabels he)).1
  · rw [List.mem_singleton.mp h]
    exact owns_split _

/-- The parts of the resources for density classes belong to the module. -/
theorem owns_of_mem_densityParts {p : Split} (h : p ∈ m.densityParts dimensions) : m.Owns p := by
  obtain ⟨d, _, rfl⟩ := List.mem_map.mp h
  exact ⟨rfl, rfl, fun e he => (List.mem_filter.mp (mem_entriesIn_of_densityEntries he)).1⟩

/-- The parts of the system images belong to the module. -/
theorem owns_of_mem_imageParts {p : Split} (h : p ∈ m.imageParts) : m.Owns p := by
  refine owns_of_mem_divide (owns_split _) (fun e he => ?_) h
  exact (List.mem_filter.mp (mem_entriesIn_of_imageLabels he)).1

variable {parts : List Split}

/-- The targetings of the parts, in the order of the parts. -/
theorem targetings_of_parts (h : m.parts dimensions options = .ok parts) :
    ∃ languages languages' : List Language,
      parts.map Split.targeting =
        (.untargeted :: targetsOf .forAbi (m.abis dimensions options)) ++
          (.untargeted :: languages.map .forLanguage ++
            targetsOf .forDensity (m.densities dimensions)) ++
          (.untargeted :: targetsOf .forAbiSet m.imageSets) ++
          (.untargeted :: languages'.map .forLanguage) ++ [.untargeted, .untargeted] ∧
      (languages ≠ [] ∨ languages' ≠ [] → Pipeline.dividesLanguages dimensions options) := by
  obtain ⟨languages, hlanguages, hdivides⟩ :=
    targetings_languageParts dimensions options resourceLanguage?
      (m.owns_plainResources dimensions).2
  obtain ⟨languages', hlanguages', hdivides'⟩ :=
    targetings_languageParts dimensions options assetLanguage?
      (rfl : (m.split .assets).targeting = .untargeted)
  refine ⟨languages, languages', ?_, fun hne => hne.elim hdivides hdivides'⟩
  rw [eq_of_parts h]
  simp only [List.map_append, targetings_libraryParts, hlanguages, targetings_densityParts,
    targetings_imageParts, hlanguages']
  rfl

/-- Every part of a module belongs to it. -/
theorem owns_of_mem_parts (h : m.parts dimensions options = .ok parts) {p : Split}
    (hp : p ∈ parts) : m.Owns p := by
  rw [eq_of_parts h] at hp
  simp only [List.mem_append, List.mem_cons, List.not_mem_nil, or_false] at hp
  rcases hp with (((hp | hp | hp) | hp) | hp) | rfl | rfl
  · exact owns_of_mem_libraryParts hp
  · exact owns_of_mem_languageParts (owns_plainResources m dimensions).1 hp
  · exact owns_of_mem_densityParts hp
  · exact owns_of_mem_imageParts hp
  · exact owns_of_mem_languageParts (owns_split _) hp
  · exact owns_split _
  · exact owns_split _

/-- Every part of a module belongs to it and serves at most one dimension. -/
theorem isPart_of_mem_parts (h : m.parts dimensions options = .ok parts) {p : Split}
    (hp : p ∈ parts) : m.IsPart dimensions options p := by
  refine ⟨owns_of_mem_parts h hp, ?_⟩
  obtain ⟨languages, languages', htargetings, hdivides⟩ := targetings_of_parts h
  have hmem : p.targeting ∈ parts.map Split.targeting := List.mem_map_of_mem hp
  rw [htargetings] at hmem
  simp only [List.mem_append, List.mem_cons, List.mem_map, targetsOf, List.not_mem_nil,
    or_false, or_self] at hmem
  have huntargeted (h : p.targeting = .untargeted) :
      m.PartTargeting dimensions options p.targeting := h ▸ .untargeted
  have hlanguage (ls : List Language) (h : ∃ l ∈ ls, .forLanguage l = p.targeting)
      (hls : ls ≠ [] → Pipeline.dividesLanguages dimensions options) :
      m.PartTargeting dimensions options p.targeting := by
    obtain ⟨l, hl, h⟩ := h
    exact h ▸ .forLanguage (hls (List.ne_nil_of_mem hl))
  rcases hmem with (((hmem | (hmem | hmem) | hmem) | hmem) | hmem) | hmem
  · rcases hmem with h | ⟨a, ha, h⟩
    · exact huntargeted h
    · exact h ▸ .forAbi ha
  · exact huntargeted hmem
  · exact hlanguage languages hmem (hdivides ∘ .inl)
  · obtain ⟨d, hd, h⟩ := hmem
    exact h ▸ .forDensity hd
  · rcases hmem with h | ⟨s, hs, h⟩
    · exact huntargeted h
    · exact h ▸ .forAbiSet hs
  · rcases hmem with h | h
    · exact huntargeted h
    · exact hlanguage languages' h (hdivides ∘ .inr)
  · exact huntargeted hmem

end AppModule

end AppBundle
