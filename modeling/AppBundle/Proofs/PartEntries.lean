import AppBundle.Proofs.PartTargeting

/-!
# The entries of the parts of a module

The parts that serve one architecture hold the native libraries of that
architecture, and those that serve one density class hold the variants that suit
it best.
-/

namespace AppBundle.AppModule

variable {m : AppModule} {dimensions : OrderedSet Dimension} {options : ShardingOptions}
variable {parts : List Split}

/-- Splits of other dimensions give no entries to a targeting. -/
theorem entriesFor_of_filter (p : Targeting → Bool) {t : Targeting} (hp : p t = true)
    (h : (parts.map Split.targeting).filter p = []) : entriesFor parts t = [] :=
  entriesFor_of_not_mem fun hmem => List.filter_eq_nil_iff.mp h t hmem hp

section Selected

variable {p : Targeting → Bool} (huntargeted : p .untargeted = false)
include huntargeted

/-- The parts of the native libraries are selected by architecture only. -/
theorem filter_targetings_libraryParts (habi : ∀ a others, p (.forAbi a others) = false) :
    ((m.libraryParts dimensions options).map Split.targeting).filter p = [] := by
  rw [targetings_libraryParts, List.filter_cons_of_neg (by simp [huntargeted]),
    filter_targetsOf_eq_nil habi]

/-- The parts of a split by language are selected by language only. -/
theorem filter_targetings_languageParts {s : Split} (language? : String → Option Language)
    (hs : s.targeting = .untargeted) (hlanguage : ∀ l, p (.forLanguage l) = false) :
    ((languageParts dimensions options language? s).map Split.targeting).filter p = [] := by
  obtain ⟨languages, hlanguages, _⟩ := targetings_languageParts dimensions options language? hs
  rw [hlanguages, List.filter_cons_of_neg (by simp [huntargeted]), List.filter_eq_nil_iff]
  intro t ht
  obtain ⟨l, _, rfl⟩ := List.mem_map.mp ht
  simp [hlanguage]

omit huntargeted in
/-- The parts of the resources for density classes are selected by density only. -/
theorem filter_targetings_densityParts (hdensity : ∀ d others, p (.forDensity d others) = false) :
    ((m.densityParts dimensions).map Split.targeting).filter p = [] := by
  rw [targetings_densityParts, filter_targetsOf_eq_nil hdensity]

/-- The parts of the system images are selected by set of architectures only. -/
theorem filter_targetings_imageParts (himage : ∀ s others, p (.forAbiSet s others) = false) :
    (m.imageParts.map Split.targeting).filter p = [] := by
  rw [targetings_imageParts, List.filter_cons_of_neg (by simp [huntargeted]),
    filter_targetsOf_eq_nil himage]

end Selected

/-- The parts that are targeted by architecture or density come from the native libraries and
the resources. -/
theorem entriesFor_of_parts (h : m.parts dimensions options = .ok parts) (p : Targeting → Bool)
    {t : Targeting} (hp : p t = true) (huntargeted : p .untargeted = false)
    (hlanguage : ∀ l, p (.forLanguage l) = false)
    (himage : ∀ s others, p (.forAbiSet s others) = false) :
    entriesFor parts t =
      entriesFor (m.libraryParts dimensions options) t ++
        entriesFor (m.densityParts dimensions) t := by
  have hresources : entriesFor (languageParts dimensions options resourceLanguage?
      (m.plainResources dimensions)) t = [] :=
    entriesFor_of_filter p hp (filter_targetings_languageParts huntargeted _
      (owns_plainResources m dimensions).2 hlanguage)
  have himages : entriesFor m.imageParts t = [] :=
    entriesFor_of_filter p hp (filter_targetings_imageParts huntargeted himage)
  have hassets : entriesFor (languageParts dimensions options assetLanguage? (m.split .assets)) t
      = [] :=
    entriesFor_of_filter p hp (filter_targetings_languageParts huntargeted _ rfl hlanguage)
  have hrest : entriesFor [m.split .dex, m.split .root] t = [] := by
    refine entriesFor_of_filter p hp (List.filter_eq_nil_iff.mpr fun u hu => ?_)
    have hu : u ∈ [Targeting.untargeted, .untargeted] := hu
    obtain rfl : u = .untargeted := by simpa using hu
    simp [huntargeted]
  rw [eq_of_parts h]
  simp only [entriesFor_append]
  rw [hresources, himages, hassets, hrest]
  simp

/-- The kept native libraries of an architecture are all those of the module. -/
theorem entriesLabelled_libraryLabels {a : Abi} (hkeeps : options.keeps a) :
    entriesLabelled (m.libraryLabels options) (some a) = m.entries.filter (·.abi? = some a) := by
  have hselect : m.entries.filter (·.abi? = some a) =
      (m.entriesIn .nativeLibraries).filter (·.abi? = some a) :=
    (filter_entriesIn fun e he => Entry.category_of_abi? (of_decide_eq_true he)).symm
  have hkept : (some a).all options.keeps = true := hkeeps
  rw [libraryLabels, entriesLabelled_filter hkept, hselect]
  exact map_fst_filter_labelled Entry.abi? (· = some a) _

/-- The parts for an architecture hold the native libraries of that architecture. -/
theorem entriesFor_forAbi (h : m.parts dimensions options = .ok parts) {a : Abi}
    (ha : a ∈ m.abis dimensions options) :
    entriesFor parts (.forAbi a ((m.abis dimensions options).filter (· ≠ a))) =
      m.entries.filter (·.abi? = some a) := by
  obtain ⟨hdim, hkeeps, _⟩ := mem_abis.mp ha
  rw [entriesFor_of_parts h Targeting.hasAbi rfl rfl (fun _ => rfl) fun _ _ => rfl,
    entriesFor_of_filter Targeting.hasAbi rfl (filter_targetings_densityParts fun _ _ => rfl),
    List.append_nil, ← entriesLabelled_libraryLabels hkeeps, libraryParts, if_pos hdim]
  rw [← occurringLabels_libraryLabels hdim] at ha ⊢
  refine entriesFor_divide ha (fun k others h => ?_) fun h =>
    injective_of_select Targeting.abi_forAbi h
  simpa using congrArg Targeting.hasAbi h

/-- The parts for a density class hold the variants that suit it best. -/
theorem entriesFor_forDensity (h : m.parts dimensions options = .ok parts) {d : Density}
    (hd : d ∈ m.densities dimensions) :
    entriesFor parts (.forDensity d ((m.densities dimensions).filter (· ≠ d))) =
      m.densityEntries d := by
  rw [entriesFor_of_parts h Targeting.hasDensity rfl rfl (fun _ => rfl) fun _ _ => rfl,
    entriesFor_of_filter Targeting.hasDensity rfl
      (filter_targetings_libraryParts rfl fun _ _ => rfl), List.nil_append, densityParts]
  exact entriesFor_targets hd fun h => injective_of_select Targeting.density_forDensity h

end AppBundle.AppModule
