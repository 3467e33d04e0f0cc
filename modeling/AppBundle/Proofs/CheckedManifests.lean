import AppBundle.BundleSpec
import AppBundle.Proofs.Outcomes

/-!
# Checked manifests

The checks of a manifest are made one after the other, and each of them passes for itself. This
file says what has passed when a manifest is accepted: its modules and metadata files are the
declared ones in their order, with trimmed names, and no name of a module is used twice.
-/

namespace AppBundle

/-- A module as a checked manifest has it. -/
def ModuleSection.trimmed (m : ModuleSection) : ModuleSource :=
  ⟨Text.trim m.name, Text.trim m.path, m.fused⟩

namespace Manifest

/-- A metadata file as a checked manifest has it. -/
def trimmedMetadata (file : String × String) : MetadataSource :=
  ⟨metadataPath file.1, Text.trim file.2⟩

/-- A manifest passes all checks, and a specification is made from it. -/
structure Passes (m : Manifest) (spec : BundleSpec) : Prop where
  version : m.version = 1
  modules_ne_nil : m.modules ≠ []
  dimensions : checkDimensions m.sharding.dimensions = .ok spec.dimensions
  modules : checkModules [] m.modules = .ok spec.modules
  device : checkDevice m.device = .ok ()
  metadata : m.metadata.toList.mapM checkMetadata = .ok spec.metadata
  /-- The rest of the manifest is taken over. -/
  rest : spec.version = m.version ∧ spec.device = m.device ∧
    spec.options = ⟨m.sharding.splitByLanguage, m.sharding.generate64Bit⟩

variable {m : Manifest} {spec : BundleSpec}

/-- A manifest is accepted if it passes all checks. -/
theorem normalize_eq_ok_iff : m.normalize = .ok spec ↔ m.Passes spec := by
  by_cases hversion : m.version = 1
  swap
  · rw [normalize_of_version_ne hversion]
    exact iff_of_false (fun h => by cases h) fun h => hversion h.version
  unfold normalize
  cases hmodules : m.modules with
  | nil =>
    simp only [hversion, ne_eq, not_true_eq_false, if_false, List.isEmpty_nil, if_true,
      bind_eq_ok_iff]
    refine iff_of_false ?_ fun h => h.modules_ne_nil hmodules
    rintro ⟨_, hthrow, _⟩
    cases hthrow
  | cons first others =>
    simp only [ne_eq, hversion, not_true_eq_false, if_false, List.isEmpty_cons, bind_eq_ok_iff,
      Bool.false_eq_true]
    constructor
    · rintro ⟨dimensions, hdimensions, modules, hchecked, _, hdevice, metadata, hmetadata, h⟩
      obtain rfl := Except.ok.inj h
      exact ⟨hversion, by simp [hmodules], hdimensions, hmodules ▸ hchecked, hdevice,
        hmetadata, hversion.symm, rfl, rfl⟩
    · intro h
      refine ⟨_, h.dimensions, _, hmodules ▸ h.modules, _, h.device, _, h.metadata, ?_⟩
      obtain ⟨version, device, options⟩ := h.rest
      rw [← hversion, ← version, ← device, ← options]
      rfl

/-- Modules are accepted if their trimmed names are neither empty nor used twice. -/
theorem checkModules_eq_ok_iff {used : List String} {sections : List ModuleSection}
    {sources : List ModuleSource} :
    checkModules used sections = .ok sources ↔ sources = sections.map ModuleSection.trimmed ∧
      (sources.map ModuleSource.name).Nodup ∧ ∀ s ∈ sources, s.name ≠ "" ∧ s.name ∉ used := by
  induction sections generalizing used sources with
  | nil =>
    rw [checkModules, List.map_nil]
    constructor
    · rintro h
      obtain rfl := Except.ok.inj h
      exact ⟨rfl, List.nodup_nil, by simp⟩
    · rintro ⟨rfl, -, -⟩
      rfl
  | cons first others ih =>
    have hname : Text.trim first.name = first.trimmed.name := rfl
    rw [checkModules, List.map_cons, hname]
    by_cases hempty : first.trimmed.name = ""
    · rw [if_pos hempty]
      refine iff_of_false (fun h => by cases h) ?_
      rintro ⟨rfl, -, hall⟩
      exact (hall _ List.mem_cons_self).1 hempty
    by_cases hused : first.trimmed.name ∈ used
    · rw [if_neg hempty, if_pos hused]
      refine iff_of_false (fun h => by cases h) ?_
      rintro ⟨rfl, -, hall⟩
      exact (hall _ List.mem_cons_self).2 hused
    rw [if_neg hempty, if_neg hused, bind_eq_ok_iff]
    -- the name of the first module is one of the names that the others must not have
    constructor
    · rintro ⟨rest, hrest, h⟩
      obtain rfl := Except.ok.inj h
      obtain ⟨rfl, hnodup, hall⟩ := ih.mp hrest
      refine ⟨rfl, List.nodup_cons.mpr ⟨fun hmem => ?_, hnodup⟩, fun s hs => ?_⟩
      · obtain ⟨s, hs, heq⟩ := List.mem_map.mp hmem
        exact (hall s hs).2 (heq ▸ List.mem_cons_self)
      · rcases List.mem_cons.mp hs with rfl | hs
        · exact ⟨hempty, hused⟩
        · exact ⟨(hall s hs).1, fun hmem => (hall s hs).2 (List.mem_cons_of_mem _ hmem)⟩
    · rintro ⟨rfl, hnodup, hall⟩
      obtain ⟨hfirst, hnodup⟩ := List.nodup_cons.mp hnodup
      refine ⟨_, ih.mpr ⟨rfl, hnodup, fun s hs => ?_⟩, rfl⟩
      obtain ⟨hne, hnew⟩ := hall s (List.mem_cons_of_mem _ hs)
      refine ⟨hne, fun hmem => ?_⟩
      rcases List.mem_cons.mp hmem with heq | hmem
      · exact hfirst (List.mem_map.mpr ⟨s, hs, heq⟩)
      · exact hnew hmem

/-- A metadata file is accepted if its path is not empty. -/
theorem checkMetadata_eq_ok_iff {file : String × String} {source : MetadataSource} :
    checkMetadata file = .ok source ↔ trimmedMetadata file = source ∧ source.path ≠ "" := by
  unfold checkMetadata
  dsimp only
  split
  · rename_i hempty
    refine iff_of_false (fun h => by cases h) ?_
    rintro ⟨rfl, hne⟩
    exact hne hempty
  · rename_i hne
    constructor
    · intro h
      obtain rfl := Except.ok.inj h
      exact ⟨rfl, hne⟩
    · rintro ⟨rfl, -⟩
      rfl

/-- The metadata files of an accepted manifest are the declared ones in the order of their keys,
and no path is empty. -/
theorem metadata_of_passes (h : m.Passes spec) :
    spec.metadata = m.metadata.toList.map trimmedMetadata ∧ ∀ s ∈ spec.metadata, s.path ≠ "" := by
  have hmetadata := mapM_eq_ok_iff.mp h.metadata
  generalize m.metadata.toList = declared, spec.metadata = sources at hmetadata
  induction hmetadata with
  | nil => exact ⟨rfl, by simp⟩
  | cons hfirst _ ih =>
    obtain ⟨rfl, hne⟩ := checkMetadata_eq_ok_iff.mp hfirst
    obtain ⟨rfl, hall⟩ := ih
    exact ⟨rfl, List.forall_mem_cons.mpr ⟨hne, hall⟩⟩

/-- The modules of an accepted manifest are the declared ones, and their names differ. -/
theorem modules_of_passes (h : m.Passes spec) :
    spec.modules = m.modules.map ModuleSection.trimmed ∧
      (spec.modules.map ModuleSource.name).Nodup ∧ ∀ s ∈ spec.modules, s.name ≠ "" := by
  obtain ⟨hmodules, hnodup, hall⟩ := checkModules_eq_ok_iff.mp h.modules
  exact ⟨hmodules, hnodup, fun s hs => (hall s hs).1⟩

end Manifest

end AppBundle
