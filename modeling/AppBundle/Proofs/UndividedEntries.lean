import AppBundle.Proofs.FusedEntries
import AppBundle.Proofs.PartEntries
import AppBundle.Proofs.Plan
import Mathlib.Data.List.Find

/-!
# Content that is not divided

Dex files and the files of no special kind, the manifest among them, are not divided in any
dimension: they stay in the master split of their module, whatever the dimensions are. So every
shard of a bundle has the same modules, the same dex files and the same manifest, and this file
gives all three by the modules alone.
-/

namespace AppBundle

/-- Whether content of a kind is divided in no dimension. -/
def Category.isUndivided : Category → Bool
  | .dex | .root => true
  | .nativeLibraries | .resources | .assets | .apexImages => false

/-- All entries of some splits are of one kind of content. -/
def AllOf (c : Category) (parts : List Split) : Prop := ∀ p ∈ parts, ∀ e ∈ p.entries, e.category = c

/-- Splits with content of another kind give no entries of a kind to any targeting. -/
theorem AllOf.filter_entriesFor {c c' : Category} {parts : List Split} (h : AllOf c' parts)
    (hne : c' ≠ c) (t : Targeting) : (entriesFor parts t).filter (·.category = c) = [] := by
  refine List.filter_eq_nil_iff.mpr fun e he hcategory => hne ?_
  obtain ⟨p, hp, he⟩ := List.mem_flatMap.mp he
  rw [← h p (List.mem_filter.mp hp).1 e he, of_decide_eq_true hcategory]

/-- The parts of a division hold content of the kind that was divided. -/
theorem allOf_divide {κ : Type} [Ord κ] [Std.TransOrd κ] [Std.LawfulEqOrd κ] [DecidableEq κ]
    {s : Split} {labelled : List (Entry × Option κ)} {target : κ → OrderedSet κ → Targeting}
    {c : Category} (h : ∀ e ∈ labelled.map Prod.fst, e.category = c) :
    AllOf c (s.divide labelled target) :=
  fun p hp e he => h e (entries_divide_perm.mem_iff.mp (List.mem_flatMap.mpr ⟨p, hp, he⟩))

namespace AppModule

variable {m : AppModule} {dimensions : OrderedSet Dimension} {options : ShardingOptions}
variable {parts own : List Split} {c : Category}

theorem category_of_mem_entriesIn {e : Entry} (he : e ∈ m.entriesIn c) : e.category = c :=
  of_decide_eq_true (List.mem_filter.mp he).2

/-- The split of a kind of content holds content of that kind. -/
theorem allOf_split (m : AppModule) (c : Category) : AllOf c [m.split c] := by
  intro p hp e he
  rw [List.mem_singleton.mp hp] at he
  exact category_of_mem_entriesIn he

theorem allOf_libraryParts : AllOf .nativeLibraries (m.libraryParts dimensions options) := by
  unfold libraryParts
  split
  · exact allOf_divide fun e he => category_of_mem_entriesIn (mem_entriesIn_of_libraryLabels he)
  · exact allOf_split m _

theorem allOf_languageParts {s : Split} {language? : String → Option Language} (h : AllOf c [s]) :
    AllOf c (languageParts dimensions options language? s) := by
  unfold languageParts
  split
  · refine allOf_divide fun e he => h s (List.mem_singleton_self s) e ?_
    simpa using he
  · exact h

theorem allOf_plainResources : AllOf .resources [m.plainResources dimensions] := by
  unfold plainResources
  split
  · intro p hp e he
    rw [List.mem_singleton.mp hp] at he
    exact category_of_mem_entriesIn (List.mem_filter.mp he).1
  · exact allOf_split m _

theorem allOf_densityParts : AllOf .resources (m.densityParts dimensions) := by
  intro p hp e he
  obtain ⟨d, _, rfl⟩ := List.mem_map.mp hp
  exact category_of_mem_entriesIn (mem_entriesIn_of_densityEntries he)

theorem allOf_imageParts : AllOf .apexImages m.imageParts :=
  allOf_divide fun _ he => category_of_mem_entriesIn (mem_entriesIn_of_imageLabels he)

/-- The untargeted parts of a module hold the content of an undivided kind, and the other parts
hold none of it. -/
theorem filter_entriesFor_of_parts (h : m.parts dimensions options = .ok parts)
    (hc : c.isUndivided) (t : Targeting) :
    (entriesFor parts t).filter (·.category = c) =
      if t = .untargeted then m.entriesIn c else [] := by
  have hlibraries : c ≠ .nativeLibraries := by rintro rfl; cases hc
  have hresources : c ≠ .resources := by rintro rfl; cases hc
  have himages : c ≠ .apexImages := by rintro rfl; cases hc
  have hassets : c ≠ .assets := by rintro rfl; cases hc
  have hrest : (entriesFor [m.split .dex, m.split .root] t).filter (·.category = c) =
      if t = .untargeted then m.entriesIn c else [] := by
    by_cases ht : t = .untargeted
    · have hentries : entriesFor [m.split .dex, m.split .root] t =
          m.entriesIn .dex ++ m.entriesIn .root := by
        rw [ht]
        exact congrArg (m.entriesIn .dex ++ ·) (List.append_nil _)
      have hkind (c' : Category) : (m.entriesIn c').filter (·.category = c) =
          if c' = c then m.entriesIn c else [] := by
        by_cases hcc : c' = c
        · rw [if_pos hcc, hcc]
          exact List.filter_eq_self.mpr fun e he => decide_eq_true (category_of_mem_entriesIn he)
        · rw [if_neg hcc]
          refine List.filter_eq_nil_iff.mpr fun e he hcategory => hcc ?_
          rw [← category_of_mem_entriesIn he, of_decide_eq_true hcategory]
      rw [hentries, List.filter_append, hkind, hkind, if_pos ht]
      cases c with
      | dex => exact List.append_nil _
      | root => rfl
      | nativeLibraries | resources | assets | apexImages => cases hc
    · rw [if_neg ht, entriesFor_of_not_mem, List.filter_nil]
      intro hmem
      have hmem : t ∈ [Targeting.untargeted, .untargeted] := hmem
      simp [ht] at hmem
  rw [eq_of_parts h]
  simp only [entriesFor_append, List.filter_append]
  rw [allOf_libraryParts.filter_entriesFor hlibraries.symm,
    (allOf_languageParts allOf_plainResources).filter_entriesFor hresources.symm,
    allOf_densityParts.filter_entriesFor hresources.symm,
    allOf_imageParts.filter_entriesFor himages.symm,
    (allOf_languageParts (allOf_split m .assets)).filter_entriesFor hassets.symm, hrest]
  rfl

/-- The master split of a module holds the content of an undivided kind, each path once, and the
other splits hold none of it. -/
theorem filter_entries_of_splits (h : m.splits dimensions options = .ok own) (hc : c.isUndivided)
    {s : Split} (hs : s ∈ own) :
    s.entries.filter (·.category = c) =
      if s.targeting = .untargeted then uniquePaths (m.entriesIn c) else [] := by
  obtain ⟨parts, hparts, rfl⟩ := exists_parts h
  have hcommute := filter_uniquePaths (Category.ofPath · = c) (entriesFor parts s.targeting)
  rw [entries_of_mem_splitsOf hs]
  refine hcommute.trans ?_
  have hfor := filter_entriesFor_of_parts hparts hc s.targeting
  by_cases ht : s.targeting = .untargeted
  · rw [if_pos ht] at hfor ⊢
    exact congrArg uniquePaths hfor
  · rw [if_neg ht] at hfor ⊢
    exact congrArg uniquePaths hfor

/-- A split is the master split of a module: it is untargeted, and it holds the content of the
undivided kinds, each path once. -/
structure IsMaster (m : AppModule) (s : Split) : Prop where
  /-- The split bears the name of the module. -/
  moduleName : s.moduleName = m.name
  /-- The split is untargeted. -/
  targeting : s.targeting = .untargeted
  /-- Undivided content is there, and each path once. -/
  undivided : ∀ c : Category, c.isUndivided →
    s.entries.filter (·.category = c) = uniquePaths (m.entriesIn c)

/-- A module has one master split. -/
theorem exists_isMaster (h : m.splits dimensions options = .ok own) :
    ∃ s, own.filter Split.isMaster = [s] ∧ m.IsMaster s := by
  have hdivision := isDivision_of_splits h
  obtain ⟨s, hs, ht⟩ := List.map_eq_singleton_iff.mp hdivision.untargeted
  have hmem : s ∈ own := mem_of_filter_eq_singleton hs
  refine ⟨s, by rw [filter_isMaster hdivision.isPart, hs], ?_, ht, fun c hc => ?_⟩
  · exact (hdivision.isPart s hmem).moduleName
  · rw [filter_entries_of_splits h hc hmem, if_pos ht]

/-- The splits of some modules have the master splits of the modules, in the same order. -/
theorem forall₂_isMaster {modules : List AppModule} {splitsOf : AppModule → List Split}
    (h : ∀ m ∈ modules, m.splits dimensions options = .ok (splitsOf m)) :
    List.Forall₂ IsMaster modules ((modules.flatMap splitsOf).filter Split.isMaster) := by
  induction modules with
  | nil => exact .nil
  | cons m ms ih =>
    obtain ⟨s, hs, hmaster⟩ := exists_isMaster (h m List.mem_cons_self)
    rw [List.flatMap_cons, List.filter_append, hs]
    exact .cons hmaster (ih fun n hn => h n (List.mem_cons_of_mem _ hn))

/-- Master splits bear the names of their modules. -/
theorem map_moduleName_of_isMaster {modules : List AppModule} {masters : List Split}
    (h : List.Forall₂ IsMaster modules masters) :
    masters.map Split.moduleName = modules.map AppModule.name := by
  induction h with
  | nil => rfl
  | cons hmaster _ ih => rw [List.map_cons, List.map_cons, hmaster.moduleName, ih]

/-- The master splits of a name hold the undivided content of the modules of that name. -/
theorem undivided_of_isMaster {modules : List AppModule} {masters : List Split}
    (h : List.Forall₂ IsMaster modules masters) (hc : c.isUndivided) (name : String) :
    (masters.filter (·.moduleName = name)).flatMap (fun s => s.entries.filter (·.category = c)) =
      (modules.filter (·.name = name)).flatMap fun m => uniquePaths (m.entriesIn c) := by
  induction h with
  | nil => rfl
  | @cons m s _ _ hmaster _ ih =>
    rw [List.filter_cons, List.filter_cons, hmaster.moduleName]
    by_cases hname : m.name = name
    · rw [if_pos (decide_eq_true hname), if_pos (decide_eq_true hname), List.flatMap_cons,
        List.flatMap_cons, hmaster.undivided c hc, ih]
    · rw [if_neg (by simpa using hname), if_neg (by simpa using hname), ih]

/-- Whether the module has dex files. -/
def hasDex (m : AppModule) : Bool := m.entries.any (·.category = .dex)

/-- Whether the module has the manifest of an application. -/
def hasManifest (m : AppModule) : Bool := m.entries.any (·.path = appManifest)

end AppModule

variable {modules : List AppModule} {dimensions : OrderedSet Dimension}
variable {options : ShardingOptions} {splits : List Split} {c : Category}

/-- The dex files of the modules of a name, each path once in each module. -/
def namedDex (modules : List AppModule) (name : String) : List Entry :=
  (modules.filter (·.name = name)).flatMap fun m => uniquePaths (m.entriesIn .dex)

/-- The names of some modules, each once, with the base module first. -/
def namesBaseFirst (modules : List AppModule) : List String :=
  let names := (modules.map AppModule.name).eraseDups
  names.filter (· = baseName) ++ names.filter (· ≠ baseName)

/-- Some modules with the base module first. -/
def baseFirst (modules : List AppModule) : List AppModule :=
  modules.filter (·.isBase) ++ modules.filter (!·.isBase)

section Bundle

variable (h : bundleSplits modules dimensions options = .ok splits)
variable (point : Option Abi × Option Density)
include h

/-- The splits of a shard are the master splits of all modules, and targeted ones after them. -/
theorem exists_shardAt_eq : ∃ masters targeted, shardAt splits point = masters ++ targeted ∧
    List.Forall₂ AppModule.IsMaster modules masters ∧
    ∀ s ∈ targeted, s.targeting ≠ .untargeted ∧ ∃ m ∈ modules, ∃ own,
      m.splits dimensions options = .ok own ∧ s ∈ own := by
  obtain ⟨_, splitsOf, hall, rfl⟩ := exists_of_bundleSplits h
  have hown {s : Split} (hs : s ∈ modules.flatMap splitsOf) : ∃ m ∈ modules, ∃ own,
      m.splits dimensions options = .ok own ∧ s ∈ own := by
    obtain ⟨m, hm, hs⟩ := List.mem_flatMap.mp hs
    exact ⟨m, hm, splitsOf m, hall m hm, hs⟩
  refine ⟨_, _, by rw [shardAt, List.append_assoc, List.append_assoc],
    AppModule.forall₂_isMaster hall, fun s hs => ?_⟩
  rcases List.mem_append.mp hs with hs | hs
  · obtain ⟨hs, hlanguage⟩ := List.mem_filter.mp hs
    exact ⟨fun ht => by simp [ht] at hlanguage, hown hs⟩
  · rcases List.mem_append.mp hs with hs | hs
    · have habi := hasAbi_of_mem_classAt hs
      exact ⟨fun ht => by simp [ht] at habi, hown (List.mem_filter.mp hs).1⟩
    · have hdensity := hasDensity_of_mem_classAt hs
      exact ⟨fun ht => by simp [ht] at hdensity, hown (List.mem_filter.mp hs).1⟩

/-- A shard has the modules of the bundle, in their order. -/
theorem shardModules_shardAt :
    shardModules (shardAt splits point) = (modules.map AppModule.name).eraseDups := by
  obtain ⟨masters, targeted, hshard, hmasters, htargeted⟩ := exists_shardAt_eq h point
  have hnone : (targeted.map Split.moduleName).removeAll (modules.map AppModule.name) = [] := by
    refine List.filter_eq_nil_iff.mpr fun name hname => ?_
    obtain ⟨s, hs, rfl⟩ := List.mem_map.mp hname
    obtain ⟨_, m, hm, own, hown, hs⟩ := htargeted s hs
    rw [((AppModule.isDivision_of_splits hown).isPart s hs).moduleName]
    simpa using ⟨m, hm, rfl⟩
  rw [shardModules, hshard, List.map_append, AppModule.map_moduleName_of_isMaster hmasters,
    List.eraseDups_append, hnone, List.eraseDups_nil, List.append_nil]

/-- The content of an undivided kind that a shard holds under a name is that of the modules of
the name. -/
theorem undivided_shardAt (hc : c.isUndivided) (name : String) :
    ((shardAt splits point).filter (·.moduleName = name)).flatMap
        (fun s => s.entries.filter (·.category = c)) =
      (modules.filter (·.name = name)).flatMap fun m => uniquePaths (m.entriesIn c) := by
  obtain ⟨masters, targeted, hshard, hmasters, htargeted⟩ := exists_shardAt_eq h point
  have hnone : (targeted.filter (·.moduleName = name)).flatMap
      (fun s => s.entries.filter (·.category = c)) = [] := by
    refine List.flatMap_eq_nil_iff.mpr fun s hs => ?_
    obtain ⟨ht, m, _, own, hown, hs⟩ := htargeted s (List.mem_filter.mp hs).1
    rw [AppModule.filter_entries_of_splits hown hc hs, if_neg ht]
  rw [hshard, List.filter_append, List.flatMap_append, hnone, List.append_nil]
  exact AppModule.undivided_of_isMaster hmasters hc name

/-- A shard holds a manifest under a name if a module of the name has one. -/
theorem any_manifest_shardAt (name : String) :
    (shardAt splits point).any (fun s => s.moduleName = name &&
        s.entries.any (·.path = appManifest)) =
      modules.any fun m => m.name = name && m.hasManifest := by
  have hroot {e : Entry} (hpath : e.path = appManifest) : e.category = .root := by
    rw [Entry.category, hpath, Category.ofPath_appManifest]
  have hentries := undivided_shardAt h point (c := .root) rfl name
  rw [Bool.eq_iff_iff, List.any_eq_true, List.any_eq_true]
  simp only [Bool.and_eq_true, decide_eq_true_eq, AppModule.hasManifest, List.any_eq_true]
  constructor
  · rintro ⟨s, hs, hname, e, he, hpath⟩
    have hmem : e ∈ ((shardAt splits point).filter (·.moduleName = name)).flatMap
        (fun s => s.entries.filter (·.category = .root)) :=
      List.mem_flatMap.mpr ⟨s, List.mem_filter.mpr ⟨hs, decide_eq_true hname⟩,
        List.mem_filter.mpr ⟨he, decide_eq_true (hroot hpath)⟩⟩
    rw [hentries] at hmem
    obtain ⟨m, hm, he⟩ := List.mem_flatMap.mp hmem
    obtain ⟨hm, hname⟩ := List.mem_filter.mp hm
    have he := (List.mem_filter.mp (mem_of_mem_uniquePaths he)).1
    exact ⟨m, hm, of_decide_eq_true hname, e, he, hpath⟩
  · rintro ⟨m, hm, hname, e, he, hpath⟩
    have hkept : e.path ∈ (uniquePaths (m.entriesIn .root)).map Entry.path :=
      mem_paths_uniquePaths.mpr (List.mem_map_of_mem
        (List.mem_filter.mpr ⟨he, decide_eq_true (hroot hpath)⟩))
    obtain ⟨f, hf, hfpath⟩ := List.mem_map.mp hkept
    have hmem : f ∈ (modules.filter (·.name = name)).flatMap
        fun m => uniquePaths (m.entriesIn .root) :=
      List.mem_flatMap.mpr ⟨m, List.mem_filter.mpr ⟨hm, decide_eq_true hname⟩, hf⟩
    rw [← hentries] at hmem
    obtain ⟨s, hs, hf⟩ := List.mem_flatMap.mp hmem
    obtain ⟨hs, hname⟩ := List.mem_filter.mp hs
    exact ⟨s, hs, of_decide_eq_true hname, f, (List.mem_filter.mp hf).1, hfpath.trans hpath⟩

/-- The modules of a shard with the base module first. -/
theorem modulesBaseFirst_shardAt :
    modulesBaseFirst (shardAt splits point) = namesBaseFirst modules := by
  rw [modulesBaseFirst, shardModules_shardAt h, namesBaseFirst]

/-- The dex files of a shard, module by module. -/
theorem dexByModule_shardAt :
    dexByModule (shardAt splits point) =
      ((namesBaseFirst modules).map (namedDex modules)).filter (!·.isEmpty) := by
  have hdex : moduleDex (shardAt splits point) = namedDex modules :=
    funext fun name => undivided_shardAt h point rfl name
  rw [dexByModule, modulesBaseFirst_shardAt h, hdex]

/-- The module whose manifest the package of a shard keeps. -/
theorem manifestOwner_shardAt :
    manifestOwner (shardAt splits point) =
      (namesBaseFirst modules).find? fun name =>
        modules.any fun m => m.name = name && m.hasManifest := by
  rw [manifestOwner, modulesBaseFirst_shardAt h]
  simp only [any_manifest_shardAt h]

end Bundle

/-- The modules with the base module first are the modules. -/
theorem baseFirst_perm (modules : List AppModule) : (baseFirst modules).Perm modules :=
  List.filter_append_perm _ modules

section DistinctNames

variable (hnames : (modules.map AppModule.name).Nodup)
include hnames

/-- The names of different modules with the base module first. -/
theorem namesBaseFirst_of_nodup :
    namesBaseFirst modules = (baseFirst modules).map AppModule.name := by
  have hother : modules.filter ((· ≠ baseName) ∘ AppModule.name) = modules.filter (!·.isBase) :=
    List.filter_congr fun m _ => by simp [AppModule.isBase]
  rw [namesBaseFirst, eraseDups_of_nodup hnames, List.filter_map, List.filter_map, hother,
    baseFirst, List.map_append]
  rfl

/-- The dex files of different modules, module by module. -/
theorem dexByModule_of_nodup (h : bundleSplits modules dimensions options = .ok splits)
    (point : Option Abi × Option Density) :
    dexByModule (shardAt splits point) =
      ((baseFirst modules).filter AppModule.hasDex).map
        fun m => uniquePaths (m.entriesIn .dex) := by
  have hdex (m : AppModule) (hm : m ∈ baseFirst modules) :
      namedDex modules m.name = uniquePaths (m.entriesIn .dex) := by
    have hm := (baseFirst_perm modules).mem_iff.mp hm
    rw [namedDex, filter_eq_singleton hnames hm, List.flatMap_singleton]
  have hsome (m : AppModule) : (!(uniquePaths (m.entriesIn .dex)).isEmpty) = m.hasDex := by
    rw [isEmpty_uniquePaths, AppModule.hasDex, AppModule.entriesIn, Bool.eq_iff_iff]
    simp [List.filter_eq_nil_iff]
  have hmap : (baseFirst modules).map (namedDex modules ∘ AppModule.name) =
      (baseFirst modules).map fun m => uniquePaths (m.entriesIn .dex) := List.map_congr_left hdex
  rw [dexByModule_shardAt h, namesBaseFirst_of_nodup hnames, List.map_map, hmap, List.filter_map]
  simp only [Function.comp_def, hsome]

/-- The manifest of different modules is that of the base module if it has one, else that of the
first one that has. -/
theorem manifestOwner_of_nodup (h : bundleSplits modules dimensions options = .ok splits)
    (point : Option Abi × Option Density) :
    manifestOwner (shardAt splits point) =
      ((baseFirst modules).find? AppModule.hasManifest).map AppModule.name := by
  have hmanifest (m : AppModule) (hm : m ∈ baseFirst modules) :
      (modules.any fun n => n.name = m.name && n.hasManifest) = m.hasManifest := by
    have hm := (baseFirst_perm modules).mem_iff.mp hm
    rw [← List.any_filter, filter_eq_singleton hnames hm, List.any_cons, List.any_nil,
      Bool.or_false]
  rw [manifestOwner_shardAt h, namesBaseFirst_of_nodup hnames, List.find?_map]
  exact congrArg (Option.map AppModule.name) (List.find?_congr hmanifest)

end DistinctNames

end AppBundle
