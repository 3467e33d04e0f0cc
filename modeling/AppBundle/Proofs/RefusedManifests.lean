import AppBundle.Proofs.CheckedManifests
import AppBundle.Proofs.FirstOccurrences
import AppBundle.Proofs.LoadedBundles

/-!
# Refused manifests

A manifest is checked in a fixed order, and it is refused for the first check that it does not
pass. This file says of each check which manifests pass it and for which cause the others are
refused, and puts that together: the valid manifests are accepted, and nothing else is. The modules
of a bundle that was loaded from an accepted manifest are found by their names.
-/

namespace AppBundle

open Files

namespace Dimension

/-- A text names a dimension: it is a spelling of the name of the dimension, or of `density`, which
is another name of the dimension of screens. -/
def IsNamedBy (d : Dimension) (s : String) : Prop :=
  normalName s = d.name ∨ d = .screenDensity ∧ normalName s = "density"

variable {s : String} {d : Dimension}

/-- A text reads as the dimension that it names. -/
theorem parse_eq_ok_iff : parse s = .ok d ↔ d.IsNamedBy s := by
  unfold parse IsNamedBy
  by_cases hdensity : normalName s = "density"
  · have hname : ¬ "density" = d.name := by cases d <;> decide
    simp [hdensity, hname, eq_comm]
  · rw [← ofName?_eq_some_iff]
    cases hname : ofName? (normalName s) <;> simp [hdensity, hname]

/-- A text that names no dimension is refused with its common form. -/
theorem parse_eq_error_iff {cause : UnknownDimension} :
    parse s = .error cause ↔ (∀ d : Dimension, ¬ d.IsNamedBy s) ∧ cause = ⟨normalName s⟩ := by
  simp only [← parse_eq_ok_iff]
  unfold parse
  by_cases hdensity : normalName s = "density"
  · simp [hdensity]
  · cases hname : ofName? (normalName s) with
    | some d => simp [hdensity, hname]
    | none => simp [hdensity, hname, eq_comm]

end Dimension

/-- A text names one of the dimensions. -/
def IsKnownDimension (s : String) : Prop := ∃ d : Dimension, d.IsNamedBy s

theorem exists_parse_iff {s : String} : (∃ d, Dimension.parse s = .ok d) ↔ IsKnownDimension s :=
  exists_congr fun _ => Dimension.parse_eq_ok_iff

/-- Modules have names, no two of them the same one; blanks at the ends do not count. -/
structure HaveNames (sections : List ModuleSection) : Prop where
  nonempty : ∀ s ∈ sections, Text.trim s.name ≠ ""
  nodup : (sections.map fun s => Text.trim s.name).Nodup

/-- The checks of a manifest. -/
inductive ManifestCheck where
  | version
  | modules
  | dimensions
  | names
  | device
  | metadata
  deriving DecidableEq

namespace ManifestCheck

/-- All checks in the order in which they are made. -/
def all : List ManifestCheck := [version, modules, dimensions, names, device, metadata]

/-- A manifest passes a check. -/
def Passes (m : Manifest) : ManifestCheck → Prop
  | version => m.version = 1
  | modules => m.modules ≠ []
  | dimensions => ∀ s ∈ m.sharding.dimensions, IsKnownDimension s
  | names => HaveNames m.modules
  | device => ∀ d, m.device = some d → 0 < d.screenDensity ∧ d.supportedAbis ≠ []
  | metadata => ∀ file ∈ m.metadata.toList, Manifest.metadataPath file.1 ≠ ""

/-- A manifest does not pass a check and is refused for a cause. Of several dimensions, modules or
metadata files that are wrong, the first one gives the cause. -/
inductive Fails (m : Manifest) : ManifestCheck → ManifestError → Prop
  | version (h : m.version ≠ 1) : Fails m .version (.unsupportedVersion m.version)
  | modules (h : m.modules = []) : Fails m .modules .noModules
  | dimensions {before after : List String} {s : String}
      (hsplit : m.sharding.dimensions = before ++ s :: after)
      (hbefore : ∀ t ∈ before, IsKnownDimension t) (h : ¬ IsKnownDimension s) :
      Fails m .dimensions (.unknownDimension ⟨Dimension.normalName s⟩)
  | emptyName {before after : List ModuleSection} {s : ModuleSection}
      (hsplit : m.modules = before ++ s :: after) (hbefore : HaveNames before)
      (h : Text.trim s.name = "") : Fails m .names .emptyModuleName
  | usedName {before after : List ModuleSection} {s : ModuleSection}
      (hsplit : m.modules = before ++ s :: after) (hbefore : HaveNames before)
      (h : ∃ t ∈ before, Text.trim t.name = Text.trim s.name) :
      Fails m .names (.duplicateModule (Text.trim s.name))
  | zeroDensity {d : Device} (hdevice : m.device = some d) (h : d.screenDensity = 0) :
      Fails m .device (.invalidDevice .zeroDensity)
  | noAbis {d : Device} (hdevice : m.device = some d) (hdensity : 0 < d.screenDensity)
      (h : d.supportedAbis = []) : Fails m .device (.invalidDevice .noAbis)
  | metadata {before after : List (String × String)} {file : String × String}
      (hsplit : m.metadata.toList = before ++ file :: after)
      (hbefore : ∀ f ∈ before, Manifest.metadataPath f.1 ≠ "")
      (h : Manifest.metadataPath file.1 = "") : Fails m .metadata .emptyMetadataPath

/-- The outcome of a check. -/
def run (m : Manifest) : ManifestCheck → Except ManifestError Unit
  | version => if m.version ≠ 1 then .error (.unsupportedVersion m.version) else .ok ()
  | modules => if m.modules.isEmpty then .error .noModules else .ok ()
  | dimensions => (Manifest.checkDimensions m.sharding.dimensions).map fun _ => ()
  | names => (Manifest.checkModules [] m.modules).map fun _ => ()
  | device => Manifest.checkDevice m.device
  | metadata => (m.metadata.toList.mapM Manifest.checkMetadata).map fun _ => ()

end ManifestCheck

namespace Manifest

variable {m : Manifest} {spec : BundleSpec} {cause : ManifestError}

/-- Dimensions are accepted if all of them are known. -/
theorem exists_checkDimensions_iff {names : List String} :
    (∃ ds, checkDimensions names = .ok ds) ↔ ∀ s ∈ names, IsKnownDimension s := by
  simp only [← exists_parse_iff, ← exists_mapM_eq_ok_iff]
  unfold checkDimensions
  cases names.mapM Dimension.parse <;> simp

/-- Dimensions are refused for the first one that is not known. -/
theorem checkDimensions_eq_error_iff {names : List String} :
    checkDimensions names = .error cause ↔ ∃ before s after, names = before ++ s :: after ∧
      (∀ t ∈ before, IsKnownDimension t) ∧ ¬ IsKnownDimension s ∧
        cause = .unknownDimension ⟨Dimension.normalName s⟩ := by
  have hfails : checkDimensions names = .error cause ↔
      ∃ refused, names.mapM Dimension.parse = .error refused ∧ .unknownDimension refused = cause := by
    unfold checkDimensions
    cases names.mapM Dimension.parse <;> simp
  simp only [hfails, mapM_eq_error_iff, exists_parse_iff, Dimension.parse_eq_error_iff]
  constructor
  · rintro ⟨refused, ⟨before, s, after, hsplit, hbefore, hs, rfl⟩, rfl⟩
    exact ⟨before, s, after, hsplit, hbefore, fun hknown => hknown.elim hs, rfl⟩
  · rintro ⟨before, s, after, hsplit, hbefore, hs, rfl⟩
    exact ⟨_, ⟨before, s, after, hsplit, hbefore, fun d hd => hs ⟨d, hd⟩, rfl⟩, rfl⟩

/-- Modules are accepted if the first one has a new name, and the others have new names besides
this one. -/
theorem exists_checkModules_cons_iff {used : List String} {first : ModuleSection}
    {others : List ModuleSection} :
    (∃ sources, checkModules used (first :: others) = .ok sources) ↔
      Text.trim first.name ≠ "" ∧ Text.trim first.name ∉ used ∧
        ∃ sources, checkModules (Text.trim first.name :: used) others = .ok sources := by
  rw [checkModules]
  by_cases hempty : Text.trim first.name = ""
  · simp [hempty]
  by_cases hused : Text.trim first.name ∈ used
  · simp [hempty, hused]
  rw [if_neg hempty, if_neg hused, and_iff_right hempty, and_iff_right hused]
  simp only [bind_eq_ok_iff]
  constructor
  · rintro ⟨_, rest, hrest, -⟩
    exact ⟨rest, hrest⟩
  · rintro ⟨rest, hrest⟩
    exact ⟨_, rest, hrest, rfl⟩

/-- Modules are refused for the first one whose name is empty or used before. -/
theorem checkModules_eq_error_iff {used : List String} {sections : List ModuleSection} :
    checkModules used sections = .error cause ↔ ∃ before s after, sections = before ++ s :: after ∧
      (∃ sources, checkModules used before = .ok sources) ∧
        (Text.trim s.name = "" ∧ cause = .emptyModuleName ∨ Text.trim s.name ≠ "" ∧
          (Text.trim s.name ∈ used ∨ ∃ t ∈ before, Text.trim t.name = Text.trim s.name) ∧
            cause = .duplicateModule (Text.trim s.name)) := by
  induction sections generalizing used with
  | nil =>
    refine iff_of_false (fun h => by cases h) ?_
    rintro ⟨before, s, after, hsplit, -⟩
    exact absurd hsplit.symm (by simp)
  | cons first others ih =>
    constructor
    · intro h
      rw [checkModules] at h
      by_cases hempty : Text.trim first.name = ""
      · rw [if_pos hempty] at h
        exact ⟨[], first, others, rfl, ⟨[], rfl⟩, .inl ⟨hempty, (Except.error.inj h).symm⟩⟩
      by_cases hused : Text.trim first.name ∈ used
      · rw [if_neg hempty, if_pos hused] at h
        exact ⟨[], first, others, rfl, ⟨[], rfl⟩,
          .inr ⟨hempty, .inl hused, (Except.error.inj h).symm⟩⟩
      rw [if_neg hempty, if_neg hused] at h
      rcases bind_eq_error_iff.mp h with h | ⟨_, _, h⟩
      · obtain ⟨before, s, after, rfl, hbefore, hs⟩ := ih.mp h
        refine ⟨first :: before, s, after, rfl,
          exists_checkModules_cons_iff.mpr ⟨hempty, hused, hbefore⟩, ?_⟩
        refine hs.imp_right (And.imp_right (And.imp_left fun hmem => ?_))
        simpa [or_assoc, or_left_comm, eq_comm] using hmem
      · cases h
    · rintro ⟨before, s, after, hsplit, hbefore, hs⟩
      rw [checkModules]
      cases before with
      | nil =>
        obtain ⟨rfl, rfl⟩ := List.cons.inj hsplit
        rcases hs with ⟨hempty, rfl⟩ | ⟨hempty, hused | ⟨t, ht, -⟩, rfl⟩
        · rw [if_pos hempty]
        · rw [if_neg hempty, if_pos hused]
        · cases ht
      | cons b before =>
        obtain ⟨rfl, rfl⟩ := List.cons.inj hsplit
        obtain ⟨hempty, hused, hbefore⟩ := exists_checkModules_cons_iff.mp hbefore
        rw [if_neg hempty, if_neg hused]
        refine bind_eq_error_iff.mpr (.inl (ih.mpr ⟨before, s, after, rfl, hbefore, ?_⟩))
        refine hs.imp_right (And.imp_right (And.imp_left fun hmem => ?_))
        simpa [or_assoc, or_left_comm, eq_comm] using hmem

/-- Modules are accepted if they have different names. -/
theorem exists_checkModules_iff {sections : List ModuleSection} :
    (∃ sources, checkModules [] sections = .ok sources) ↔ HaveNames sections := by
  have hnames : (sections.map ModuleSection.trimmed).map ModuleSource.name =
      sections.map fun s => Text.trim s.name := List.map_map
  simp only [checkModules_eq_ok_iff]
  constructor
  · rintro ⟨sources, rfl, hnodup, hall⟩
    exact ⟨fun s hs => (hall _ (List.mem_map_of_mem hs)).1, hnames ▸ hnodup⟩
  · intro h
    refine ⟨_, rfl, hnames ▸ h.nodup, List.forall_mem_map.mpr fun s hs => ?_⟩
    exact ⟨h.nonempty s hs, List.not_mem_nil⟩

/-- A device is accepted if it has a screen and an architecture. -/
theorem checkDevice_eq_ok_iff {device : Option Device} : checkDevice device = .ok () ↔
    ∀ d, device = some d → 0 < d.screenDensity ∧ d.supportedAbis ≠ [] := by
  cases device with
  | none => simp [checkDevice]
  | some d =>
    rw [checkDevice]
    by_cases hdensity : d.screenDensity = 0
    · simp [hdensity]
    · have hpos : 0 < d.screenDensity := UInt32.pos_iff_ne_zero.mpr hdensity
      by_cases habis : d.supportedAbis = []
      · simp [hdensity, habis]
      · simp [hdensity, hpos, habis]

/-- A device is refused for its screen before it is refused for its architectures. -/
theorem checkDevice_eq_error_iff {device : Option Device} : checkDevice device = .error cause ↔
    ∃ d, device = some d ∧ (d.screenDensity = 0 ∧ cause = .invalidDevice .zeroDensity ∨
      0 < d.screenDensity ∧ d.supportedAbis = [] ∧ cause = .invalidDevice .noAbis) := by
  cases device with
  | none => simp [checkDevice]
  | some d =>
    rw [checkDevice]
    by_cases hdensity : d.screenDensity = 0
    · simp [hdensity, eq_comm]
    · have hpos : 0 < d.screenDensity := UInt32.pos_iff_ne_zero.mpr hdensity
      by_cases habis : d.supportedAbis = []
      · simp [hdensity, hpos, habis, eq_comm]
      · simp [hdensity, habis]

/-- A metadata file is refused if nothing is left of its path. -/
theorem checkMetadata_eq_error_iff {file : String × String} :
    checkMetadata file = .error cause ↔ metadataPath file.1 = "" ∧ cause = .emptyMetadataPath := by
  rw [checkMetadata]
  by_cases hempty : metadataPath file.1 = ""
  · simp [hempty, eq_comm]
  · simp [hempty]

theorem exists_checkMetadata_iff {file : String × String} :
    (∃ source, checkMetadata file = .ok source) ↔ metadataPath file.1 ≠ "" := by
  simp only [checkMetadata_eq_ok_iff, exists_eq_left']
  rfl

end Manifest

namespace ManifestCheck

variable {m : Manifest} {spec : BundleSpec} {cause : ManifestError} {c : ManifestCheck}

/-- The manifests that pass a check are those for which it succeeds. -/
theorem run_eq_ok_iff : c.run m = .ok () ↔ c.Passes m := by
  have hmap {α : Type} {x : Except ManifestError α} :
      (x.map fun _ => ()) = .ok () ↔ ∃ a, x = .ok a := by
    simp [map_eq_ok_iff]
  cases c with
  | version => simp [run, Passes]
  | modules => simp [run, Passes]
  | dimensions => exact hmap.trans Manifest.exists_checkDimensions_iff
  | names => exact hmap.trans Manifest.exists_checkModules_iff
  | device => exact Manifest.checkDevice_eq_ok_iff
  | metadata =>
    refine hmap.trans (exists_mapM_eq_ok_iff.trans ?_)
    exact forall₂_congr fun _ _ => Manifest.exists_checkMetadata_iff

theorem exists_run_iff : (∃ u, c.run m = .ok u) ↔ c.Passes m := by
  rw [← run_eq_ok_iff]
  constructor
  · rintro ⟨_, h⟩
    exact h
  · intro h
    exact ⟨(), h⟩

/-- The failure of a check is the cause for which the manifest is refused. -/
theorem run_eq_error_iff : c.run m = .error cause ↔ Fails m c cause := by
  cases c with
  | version =>
    rw [run]
    constructor
    · intro h
      by_cases hversion : m.version = 1
      · simp [hversion] at h
      · rw [if_pos hversion] at h
        exact Except.error.inj h ▸ .version hversion
    · intro h
      cases h with
      | version hversion => rw [if_pos hversion]
  | modules =>
    rw [run]
    constructor
    · intro h
      by_cases hmodules : m.modules = []
      · rw [if_pos (List.isEmpty_iff.mpr hmodules)] at h
        exact Except.error.inj h ▸ .modules hmodules
      · simp [hmodules] at h
    · intro h
      cases h with
      | modules hmodules => rw [if_pos (List.isEmpty_iff.mpr hmodules)]
  | dimensions =>
    refine map_eq_error_iff.trans (Manifest.checkDimensions_eq_error_iff.trans ?_)
    constructor
    · rintro ⟨before, s, after, hsplit, hbefore, hs, rfl⟩
      exact .dimensions hsplit hbefore hs
    · intro h
      cases h with
      | dimensions hsplit hbefore hs => exact ⟨_, _, _, hsplit, hbefore, hs, rfl⟩
  | names =>
    refine map_eq_error_iff.trans (Manifest.checkModules_eq_error_iff.trans ?_)
    simp only [Manifest.exists_checkModules_iff]
    constructor
    · rintro ⟨before, s, after, hsplit, hbefore, ⟨hempty, rfl⟩ | ⟨-, hused | hused, rfl⟩⟩
      · exact .emptyName hsplit hbefore hempty
      · cases hused
      · exact .usedName hsplit hbefore hused
    · intro h
      cases h with
      | emptyName hsplit hbefore hempty =>
        exact ⟨_, _, _, hsplit, hbefore, .inl ⟨hempty, rfl⟩⟩
      | usedName hsplit hbefore hused =>
        obtain ⟨t, ht, hsame⟩ := id hused
        have hne := hsame ▸ hbefore.nonempty t ht
        exact ⟨_, _, _, hsplit, hbefore, .inr ⟨hne, .inr hused, rfl⟩⟩
  | device =>
    refine Manifest.checkDevice_eq_error_iff.trans ?_
    constructor
    · rintro ⟨d, hd, ⟨hdensity, rfl⟩ | ⟨hdensity, habis, rfl⟩⟩
      · exact .zeroDensity hd hdensity
      · exact .noAbis hd hdensity habis
    · intro h
      cases h with
      | zeroDensity hd hdensity => exact ⟨_, hd, .inl ⟨hdensity, rfl⟩⟩
      | noAbis hd hdensity habis => exact ⟨_, hd, .inr ⟨hdensity, habis, rfl⟩⟩
  | metadata =>
    refine map_eq_error_iff.trans (mapM_eq_error_iff.trans ?_)
    simp only [Manifest.exists_checkMetadata_iff, Manifest.checkMetadata_eq_error_iff]
    constructor
    · rintro ⟨before, file, after, hsplit, hbefore, hempty, rfl⟩
      exact .metadata hsplit hbefore hempty
    · intro h
      cases h with
      | metadata hsplit hbefore hempty => exact ⟨_, _, _, hsplit, hbefore, hempty, rfl⟩

end ManifestCheck

namespace Manifest

variable {m : Manifest} {spec : BundleSpec} {cause : ManifestError}

/-- A manifest is refused for the first check that it does not pass. -/
def IsRefusedFor (m : Manifest) (cause : ManifestError) : Prop :=
  ∃ before check after, ManifestCheck.all = before ++ check :: after ∧
    (∀ c ∈ before, c.Passes m) ∧ check.Fails m cause

/-- A specification is what a manifest declares. -/
structure Specifies (m : Manifest) (spec : BundleSpec) : Prop where
  /-- The modules are the declared ones in their order, with trimmed names and paths. -/
  modules : spec.modules = m.modules.map ModuleSection.trimmed
  /-- The dimensions are those that the manifest names. -/
  dimensions : ∀ d, d ∈ spec.dimensions ↔ ∃ s ∈ m.sharding.dimensions, d.IsNamedBy s
  /-- The metadata files are the declared ones in the order of their keys. -/
  metadata : spec.metadata = m.metadata.toList.map trimmedMetadata
  /-- The rest of the manifest is taken over. -/
  rest : spec.version = m.version ∧ spec.device = m.device ∧
    spec.options = ⟨m.sharding.splitByLanguage, m.sharding.generate64Bit⟩

/-- Checking a manifest fails as its checks do, one after the other. -/
theorem normalize_eq_error_iff_run :
    m.normalize = .error cause ↔ ManifestCheck.all.mapM (ManifestCheck.run m) = .error cause := by
  have hcons (c : ManifestCheck) (cs : List ManifestCheck) :
      (c :: cs).mapM (ManifestCheck.run m) = .error cause ↔ c.run m = .error cause ∨
        (∃ u, c.run m = .ok u) ∧ cs.mapM (ManifestCheck.run m) = .error cause := by
    rw [List.mapM_cons, bind_eq_error_iff]
    simp [bind_eq_error_iff, pure, Except.pure]
  have hdone (spec : BundleSpec) : ¬ (pure spec : Except ManifestError BundleSpec) = .error cause :=
    fun h => by cases h
  have hnil : ¬ ([] : List ManifestCheck).mapM (ManifestCheck.run m) = .error cause :=
    fun h => by cases h
  simp only [ManifestCheck.all, hcons, hnil, ManifestCheck.run, map_eq_error_iff, map_eq_ok_iff]
  by_cases hversion : m.version = 1
  swap
  · simp [normalize_of_version_ne hversion, hversion]
  by_cases hmodules : m.modules = []
  · simp [normalize, hversion, hmodules, bind, Except.bind, throw, throwThe, MonadExceptOf.throw]
  simp only [normalize, hversion, List.isEmpty_iff, hmodules, ne_eq, not_true_eq_false, if_false,
    bind_eq_error_iff, hdone]
  simp

/-- Checking a manifest succeeds if all its checks do. -/
theorem exists_normalize_iff_run : (∃ spec, m.normalize = .ok spec) ↔
    ∃ us, ManifestCheck.all.mapM (ManifestCheck.run m) = .ok us := by
  have herror (cause : ManifestError) : m.normalize = .error cause ↔
      ManifestCheck.all.mapM (ManifestCheck.run m) = .error cause := normalize_eq_error_iff_run
  cases hspec : m.normalize with
  | ok spec =>
    cases hall : ManifestCheck.all.mapM (ManifestCheck.run m) with
    | ok us => simp
    | error cause => simp [(herror cause).mpr hall] at hspec
  | error cause => simp [(herror cause).mp hspec]

/-- The specification of an accepted manifest is what the manifest declares. -/
theorem specifies_of_normalize (h : m.normalize = .ok spec) : m.Specifies spec := by
  have hpasses := normalize_eq_ok_iff.mp h
  refine ⟨(modules_of_passes hpasses).1, fun d => ?_, (metadata_of_passes hpasses).1, hpasses.rest⟩
  obtain ⟨ds, hds, hset⟩ : ∃ ds, m.sharding.dimensions.mapM Dimension.parse = .ok ds ∧
      spec.dimensions = .ofList ds := by
    have hdimensions := hpasses.dimensions
    unfold checkDimensions at hdimensions
    cases hparse : m.sharding.dimensions.mapM Dimension.parse with
    | error cause => simp [hparse] at hdimensions
    | ok ds => exact ⟨ds, rfl, by simpa [hparse, eq_comm] using hdimensions⟩
  rw [hset, OrderedSet.mem_ofList, mem_iff_of_mapM_eq_ok hds]
  simp only [Dimension.parse_eq_ok_iff]

/-- A bundle that is loaded finds its modules by their names. -/
theorem findsModules_of_loads {v : Volume} {path : String} {b : Bundle} (h : Loads v path b) :
    List.Forall₂ (fun source module => b.module? source.name = some module) b.spec.modules
      b.modules := by
  obtain ⟨manifest, files, hloaded⟩ := loads_iff.mp h
  have hnames : List.Forall₂ (fun source module => source.name = AppModule.name module)
      b.spec.modules b.modules := by
    refine hloaded.modules.imp fun source module hmodule => ?_
    obtain ⟨_, children, _, rfl⟩ := hmodule
    rfl
  have hmap : b.spec.modules.map ModuleSource.name = b.modules.map AppModule.name := by
    rw [← List.forall₂_eq_eq_eq, List.forall₂_map_left_iff, List.forall₂_map_right_iff]
    exact hnames
  have hnodup : (b.modules.map AppModule.name).Nodup :=
    hmap ▸ (modules_of_passes (normalize_eq_ok_iff.mp hloaded.checked)).2.1
  have hmem := (List.forall₂_and_left _ _).mpr ⟨fun module h => h, hnames.flip⟩
  refine hmem.flip.imp fun source module hmodule => ?_
  rw [Bundle.module?, hmodule.2, ← List.head?_filter, filter_eq_singleton hnodup hmodule.1,
    List.head?_cons]

/-- Checking a manifest succeeds exactly if it passes all checks; otherwise it is refused for the
first check that it does not pass. A specification that is made of it is what the manifest declares,
and a bundle that is loaded with this specification finds its modules by their names. -/
theorem normalize_outcomes (m : Manifest) :
    ((∃ spec, m.normalize = .ok spec) ↔ ∀ check : ManifestCheck, check.Passes m) ∧
      (∀ cause, m.normalize = .error cause ↔ m.IsRefusedFor cause) ∧
      ∀ spec, m.normalize = .ok spec → m.Specifies spec ∧
        ∀ v path b, Loads v path b → b.spec = spec →
          List.Forall₂ (fun source module => b.module? source.name = some module) spec.modules
            b.modules := by
  refine ⟨?_, fun cause => ?_, fun spec h => ⟨specifies_of_normalize h, ?_⟩⟩
  · have hevery (c : ManifestCheck) : c ∈ ManifestCheck.all := by cases c <;> decide
    rw [exists_normalize_iff_run, exists_mapM_eq_ok_iff]
    simp only [ManifestCheck.exists_run_iff]
    exact ⟨fun h c => h c (hevery c), fun h c _ => h c⟩
  · rw [normalize_eq_error_iff_run, mapM_eq_error_iff]
    simp only [ManifestCheck.exists_run_iff, ManifestCheck.run_eq_error_iff]
    rfl
  · rintro v path b hloads rfl
    exact findsModules_of_loads hloads

/-- Dimensions are checked before names, and the first unknown one gives the cause. -/
example :
    normalize
      { version := 1
        sharding := { dimensions := [" Screen-Density ", "Pixel-Size", "color"] }
        modules := [{ name := " ", path := "base" }] } =
      .error (.unknownDimension ⟨"pixel_size"⟩) := by
  decide +kernel

end Manifest

end AppBundle
