import AppBundle.Proofs.InternalErrors
import AppBundle.Proofs.UndividedEntries

/-!
# Conflicts and exact packages

A bundle of modules that are consistent in themselves can still not be packed if two modules
claim one path with different contents, or a module claims a path of the metadata. This file
proves that nothing else is ever reported as a conflict: dex files get new numbers, and of the
manifests one is kept. When there is no conflict, every package holds exactly what its shard and
the metadata give.
-/

namespace AppBundle

/-- A path is claimed with two contents, by two modules or by a module and the metadata. -/
inductive IsClash (modules : List AppModule) (metadata : Metadata) (path : String) : Prop
  | modules {m n : AppModule} {e f : Entry} (hm : m ∈ modules) (hn : n ∈ modules)
    (hne : m.name ≠ n.name) (he : e ∈ m.entries) (hf : f ∈ n.entries) (hepath : e.path = path)
    (hfpath : f.path = path) (hcontent : e.content ≠ f.content)
  | metadata {m : AppModule} {e : Entry} {file : String} {content : ByteArray} (hm : m ∈ modules)
    (he : e ∈ m.entries) (hepath : e.path = path) (hfile : metadata.get? file = some content)
    (hfilepath : path = "BUNDLE-METADATA/" ++ file) (hcontent : e.content ≠ content)

/-- The module whose manifest packages keep: the base module if it has one, else the first module
that has one. -/
def manifestModule? (modules : List AppModule) : Option AppModule :=
  (modules.find? fun m => m.isBase && m.hasManifest).or (modules.find? (·.hasManifest))

/-- The module whose manifest is kept is the first one with a manifest after the base module is
put first. -/
theorem manifestModule?_eq (modules : List AppModule) :
    manifestModule? modules = (baseFirst modules).find? AppModule.hasManifest := by
  rw [manifestModule?, baseFirst, List.find?_append, List.find?_filter, List.find?_filter]
  simp only [Bool.decide_and, Bool.decide_eq_true]
  cases hbase : modules.find? fun m => m.isBase && m.hasManifest with
  | some m => rfl
  | none =>
    refine List.find?_congr fun m hm => ?_
    have hm := List.find?_eq_none.mp hbase m hm
    cases hb : m.isBase with
    | false => simp
    | true =>
      rw [hb, Bool.true_and, Bool.not_eq_true] at hm
      rw [hm, Bool.and_false]

/-- A package holds exactly what its shard and the metadata give. -/
structure Package.IsExact (p : Package) (modules : List AppModule) (shard : Shard)
    (metadata : Metadata) : Prop where
  /-- The paths are strictly increasing. -/
  increasing : (p.entries.map Entry.path).Pairwise (compare · · = .lt)
  /-- Besides dex files the package has the entries of its splits, without manifests of other
  modules than one, and the metadata files. -/
  entries : ∀ e : Entry, e.category ≠ .dex → (e ∈ p.entries ↔
    (∃ s ∈ shard, e ∈ s.entries ∧
      (e.path = appManifest → (manifestModule? modules).map AppModule.name = some s.moduleName)) ∨
    ∃ file, metadata.get? file = some e.content ∧ e.path = "BUNDLE-METADATA/" ++ file)
  /-- It has the dex files of the shard, perhaps with new numbers, and no others. -/
  dex : (p.entries.filter (·.category = .dex)).Perm (packageDex shard)
  /-- No dex file is lost or repeated, whatever its path is. -/
  dexContents : ((p.entries.filter (·.category = .dex)).map Entry.content).Perm
    (((shard.flatMap Split.entries).filter (·.category = .dex)).map Entry.content)
  /-- There is a manifest if some module has one. -/
  exists_manifest : (∃ e ∈ p.entries, e.path = appManifest) ↔
    ∃ m ∈ modules, ∃ e ∈ m.entries, e.path = appManifest
  /-- The manifest is that of the base module if it has one, else that of the first module that
  has one. -/
  manifest : ∀ e : Entry, e.path = appManifest →
    (e ∈ p.entries ↔ ∃ m, manifestModule? modules = some m ∧ e ∈ m.entries)

section Bundle

variable {modules : List AppModule} {dimensions : OrderedSet Dimension}
variable {options : ShardingOptions} {metadata : Metadata} {splits : List Split}
variable {point : Option Abi × Option Density}

/-- Every split of a shard holds entries of the module whose name it bears. -/
theorem exists_module_of_mem_shardAt (h : bundleSplits modules dimensions options = .ok splits)
    {s : Split} (hs : s ∈ shardAt splits point) :
    ∃ m ∈ modules, s.moduleName = m.name ∧ ∀ e ∈ s.entries, e ∈ m.entries := by
  obtain ⟨m, hm, hpart⟩ := exists_isPart h (mem_of_mem_shardAt hs)
  exact ⟨m, hm, hpart.moduleName, hpart.entries⟩

variable (hnames : (modules.map AppModule.name).Nodup)
variable (hpaths : ∀ m ∈ modules, PathsConsistent m.entries)

include hnames in
/-- The dex files of a shard do not share paths after they got their numbers. -/
theorem nodup_paths_packageDex_shardAt
    (h : bundleSplits modules dimensions options = .ok splits)
    (point : Option Abi × Option Density) :
    ((packageDex (shardAt splits point)).map Entry.path).Nodup := by
  refine nodup_paths_packageDex fun name => ?_
  have hdex : moduleDex (shardAt splits point) name = namedDex modules name :=
    undivided_shardAt h point rfl name
  rw [hdex, namedDex]
  by_cases hname : ∃ m ∈ modules, m.name = name
  · obtain ⟨m, hm, rfl⟩ := hname
    rw [filter_eq_singleton hnames hm, List.flatMap_singleton]
    exact nodup_paths_uniquePaths _
  · have hnone : modules.filter (·.name = name) = [] := by
      refine List.filter_eq_nil_iff.mpr fun m hm hmname => hname ?_
      exact ⟨m, hm, of_decide_eq_true hmname⟩
    rw [hnone]
    exact List.nodup_nil

include hnames hpaths in
/-- Entries of two splits of a shard with one path and different contents are of different
modules. -/
theorem exists_modules_of_clash (h : bundleSplits modules dimensions options = .ok splits)
    {s t : Split} {e f : Entry} (hs : s ∈ shardAt splits point) (ht : t ∈ shardAt splits point)
    (he : e ∈ s.entries) (hf : f ∈ t.entries) (hpath : e.path = f.path)
    (hcontent : e.content ≠ f.content) :
    s.moduleName ≠ t.moduleName ∧ IsClash modules metadata e.path := by
  obtain ⟨m, hm, hmname, hmentries⟩ := exists_module_of_mem_shardAt h hs
  obtain ⟨n, hn, hnname, hnentries⟩ := exists_module_of_mem_shardAt h ht
  have hne : m.name ≠ n.name := by
    intro hname
    obtain rfl := List.inj_on_of_nodup_map hnames hm hn hname
    exact hcontent (hpaths m hm e (hmentries e he) f (hnentries f hf) hpath)
  constructor
  · rwa [hmname, hnname]
  · exact .modules hm hn hne (hmentries e he) (hnentries f hf) rfl hpath.symm hcontent

/-- An entry of a split and a metadata file with one path and different contents make a clash. -/
theorem isClash_of_metadata (h : bundleSplits modules dimensions options = .ok splits)
    {s : Split} {e f : Entry} (hs : s ∈ shardAt splits point) (he : e ∈ s.entries)
    (hf : f ∈ metadataEntries metadata) (hpath : e.path = f.path)
    (hcontent : e.content ≠ f.content) : IsClash modules metadata e.path := by
  obtain ⟨m, hm, _, hmentries⟩ := exists_module_of_mem_shardAt h hs
  obtain ⟨file, hfile, hfpath⟩ := mem_metadataEntries.mp hf
  exact .metadata hm (hmentries e he) rfl hfile (hpath.trans hfpath) hcontent

include hnames hpaths in
/-- A conflict in a shard is a clash of modules or metadata, and it is about neither a dex file
nor the manifest. -/
theorem isClash_of_fuse (h : bundleSplits modules dimensions options = .ok splits) {path : String}
    {t : Targeting} (hfuse : Package.fuse (shardAt splits point) metadata =
      .error (.conflict path t)) :
    Category.ofPath path ≠ .dex ∧ path ≠ appManifest ∧ IsClash modules metadata path := by
  obtain ⟨e, he, f, hf, rfl, hpath, hcontent⟩ := Package.exists_clash_of_fuse hfuse
  have hcategory : e.category ≠ .dex := by
    intro hdex
    have hfdex : f.category = .dex := by rw [Entry.category, hpath, ← Entry.category, hdex]
    rw [mem_fusedEntries_of_category hdex] at he
    rw [mem_fusedEntries_of_category hfdex] at hf
    have hnodup := nodup_paths_packageDex_shardAt hnames h point
    have hef := List.inj_on_of_nodup_map hnodup he hf hpath.symm
    exact hcontent (by rw [hef])
  have hfcategory : f.category ≠ .dex := by rwa [Entry.category, hpath]
  refine ⟨hcategory, ?_⟩
  rw [mem_fusedEntries_of_category_ne hcategory] at he
  rw [mem_fusedEntries_of_category_ne hfcategory] at hf
  rcases he with ⟨s, hs, hes, howner⟩ | hemetadata
  · rcases hf with ⟨t, ht, hft, howner'⟩ | hfmetadata
    · obtain ⟨hne, hclash⟩ :=
        exists_modules_of_clash hnames hpaths h hs ht hes hft hpath.symm hcontent
      refine ⟨fun hmanifest => hne ?_, hclash⟩
      have hs := howner hmanifest
      rw [howner' (hpath.trans hmanifest)] at hs
      exact (Option.some.inj hs).symm
    · have hmanifest := (category_of_mem_metadataEntries hfmetadata).2
      exact ⟨by rwa [hpath] at hmanifest,
        isClash_of_metadata h hs hes hfmetadata hpath.symm hcontent⟩
  · rcases hf with ⟨t, ht, hft, _⟩ | hfmetadata
    · have hclash := isClash_of_metadata h ht hft hemetadata hpath (Ne.symm hcontent)
      rw [hpath] at hclash
      exact ⟨(category_of_mem_metadataEntries hemetadata).2, hclash⟩
    · exact absurd (pathsConsistent_metadataEntries metadata e hemetadata f hfmetadata hpath.symm)
        hcontent

include hpaths in
/-- Planning the shards of a bundle reports no conflicts. -/
theorem planShards_ne_conflict (path : String) (t : Targeting) :
    planShards modules dimensions options none ≠ .error (.conflict path t) := by
  intro h
  rcases bind_eq_error_iff.mp h with h | ⟨splits, hsplits, h⟩
  · by_cases hmodules : modules = []
    · subst hmodules
      cases h
    · obtain ⟨m, hm, h⟩ := exists_of_bundleSplits_error hmodules h
      obtain ⟨cause, hcause⟩ := AppModule.refusedPath_of_splits_error (hpaths m hm) h
      cases hcause
  · rw [groupSplits_of_bundleSplits hsplits] at h
    dsimp only at h
    split at h
    · cases h
    · cases h

include hnames in
/-- The manifest of a shard is that of the module whose manifest is kept. -/
theorem manifestOwner_eq_manifestModule?
    (h : bundleSplits modules dimensions options = .ok splits) :
    manifestOwner (shardAt splits point) = (manifestModule? modules).map AppModule.name := by
  rw [manifestOwner_of_nodup hnames h, manifestModule?_eq]

/-- The module whose manifest is kept is a module of the bundle with a manifest. -/
theorem mem_of_manifestModule? {m : AppModule} (h : manifestModule? modules = some m) :
    m ∈ modules ∧ m.hasManifest := by
  rw [manifestModule?_eq] at h
  exact ⟨(baseFirst_perm modules).mem_iff.mp (List.mem_of_find?_eq_some h), List.find?_some h⟩

/-- Some manifest is kept if some module has one. -/
theorem exists_manifestModule? {m : AppModule} (hm : m ∈ modules) (hmanifest : m.hasManifest) :
    ∃ n, manifestModule? modules = some n := by
  rw [manifestModule?_eq]
  cases hfind : (baseFirst modules).find? AppModule.hasManifest with
  | some n => exact ⟨n, rfl⟩
  | none =>
    have hm := (baseFirst_perm modules).mem_iff.mpr hm
    exact absurd hmanifest (List.find?_eq_none.mp hfind m hm)

include hnames hpaths in
/-- The manifest is in the shard, in a split of the module whose manifest is kept. -/
theorem mem_manifest_iff (h : bundleSplits modules dimensions options = .ok splits)
    (point : Option Abi × Option Density) {e : Entry} (hpath : e.path = appManifest) :
    (∃ s ∈ shardAt splits point, e ∈ s.entries ∧
        manifestOwner (shardAt splits point) = some s.moduleName) ↔
      ∃ m, manifestModule? modules = some m ∧ e ∈ m.entries := by
  rw [manifestOwner_eq_manifestModule? hnames h]
  constructor
  · rintro ⟨s, hs, he, howner⟩
    obtain ⟨m, hmodule, hname⟩ := Option.map_eq_some_iff.mp howner
    obtain ⟨n, hn, hsname, hnentries⟩ := exists_module_of_mem_shardAt h hs
    have hm := (mem_of_manifestModule? hmodule).1
    obtain rfl := List.inj_on_of_nodup_map hnames hm hn (hname.trans hsname)
    exact ⟨m, hmodule, hnentries e he⟩
  · rintro ⟨m, hmodule, he⟩
    obtain ⟨hm, hmanifest⟩ := mem_of_manifestModule? hmodule
    have hany := any_manifest_shardAt h point m.name
    rw [List.any_eq_true.mpr ⟨m, hm, by simpa using hmanifest⟩, List.any_eq_true] at hany
    obtain ⟨s, hs, hany⟩ := hany
    rw [Bool.and_eq_true, decide_eq_true_eq, List.any_eq_true] at hany
    obtain ⟨hname, f, hf, hfpath⟩ := hany
    obtain ⟨n, hn, hsname, hnentries⟩ := exists_module_of_mem_shardAt h hs
    obtain rfl := List.inj_on_of_nodup_map hnames hm hn (hname.symm.trans hsname)
    -- the split holds an entry of that path, and the module has one content for it
    have hpathf : e.path = f.path := by rw [hpath, of_decide_eq_true hfpath]
    have hcontent := hpaths m hm e he f (hnentries f hf) hpathf
    have hef := Entry.ext hpathf hcontent
    exact ⟨s, hs, hef ▸ hf, by rw [hmodule, Option.map_some, hname]⟩

include hnames hpaths in
/-- The package of a shard is exact. -/
theorem isExact_of_fuse (h : bundleSplits modules dimensions options = .ok splits) {p : Package}
    (hfuse : Package.fuse (shardAt splits point) metadata = .ok p) :
    p.IsExact modules (shardAt splits point) metadata := by
  have hmanifest (e : Entry) (hpath : e.path = appManifest) :
      e ∈ p.entries ↔ ∃ m, manifestModule? modules = some m ∧ e ∈ m.entries := by
    have hcategory : e.category ≠ .dex := by
      rw [Entry.category, hpath, Category.ofPath_appManifest]
      decide
    have hmetadata : e ∉ metadataEntries metadata :=
      fun he => (category_of_mem_metadataEntries he).2 hpath
    rw [Package.mem_entries_of_fuse hfuse, mem_fusedEntries_of_category_ne hcategory,
      or_iff_left hmetadata, ← mem_manifest_iff hnames hpaths h point hpath]
    simp only [hpath, forall_const]
  have hdex := p.dex_perm_of_fuse hfuse (nodup_paths_packageDex_shardAt hnames h point)
  constructor
  · exact p.paths_increasing
  · intro e hcategory
    rw [Package.mem_entries_of_fuse hfuse, mem_fusedEntries_of_category_ne hcategory,
      mem_metadataEntries, manifestOwner_eq_manifestModule? hnames h]
    rfl
  · exact hdex
  · exact (hdex.map _).trans (content_packageDex_perm _)
  · constructor
    · rintro ⟨e, he, hpath⟩
      obtain ⟨m, hmodule, he⟩ := (hmanifest e hpath).mp he
      exact ⟨m, (mem_of_manifestModule? hmodule).1, e, he, hpath⟩
    · rintro ⟨m, hm, e, he, hpath⟩
      have hhas : m.hasManifest := List.any_eq_true.mpr ⟨e, he, decide_eq_true hpath⟩
      obtain ⟨n, hn⟩ := exists_manifestModule? hm hhas
      obtain ⟨f, hf, hfpath⟩ := List.any_eq_true.mp (mem_of_manifestModule? hn).2
      have hfpath := of_decide_eq_true hfpath
      exact ⟨f, (hmanifest f hfpath).mpr ⟨n, hn, hf⟩, hfpath⟩
  · exact hmanifest

end Bundle

/-- Modules that are consistent in themselves are packed unless two of them, or one of them and
the metadata, claim one path with different contents; other conflicts are not reported, and
packages are exact. -/
theorem isClash_isExact_of_shardBundle {modules : List AppModule}
    (dimensions : OrderedSet Dimension) (options : ShardingOptions) (metadata : Metadata)
    (hnames : (modules.map AppModule.name).Nodup)
    (hpaths : ∀ m ∈ modules, PathsConsistent m.entries) :
    (∀ path t, shardBundle modules dimensions options metadata = .error (.conflict path t) →
      Category.ofPath path ≠ .dex ∧ path ≠ appManifest ∧ IsClash modules metadata path) ∧
    ∀ packages, shardBundle modules dimensions options metadata = .ok packages →
      ∃ shards, planShards modules dimensions options none = .ok shards ∧
        List.Forall₂ (fun shard p => Package.IsExact p modules shard metadata) shards packages := by
  constructor
  · intro path t h
    rcases bind_eq_error_iff.mp h with h | ⟨shards, hshards, h⟩
    · exact absurd h (planShards_ne_conflict hpaths path t)
    · obtain ⟨splits, hsplits, _, rfl⟩ := exists_of_planShards hshards
      obtain ⟨shard, hshard, h⟩ := exists_of_mapM_eq_error h
      obtain ⟨point, _, rfl⟩ := List.mem_map.mp hshard
      exact isClash_of_fuse hnames hpaths hsplits h
  · intro packages h
    obtain ⟨splits, hsplits, hagree, h⟩ := shardBundle_eq_ok_iff.mp h
    refine ⟨_, planShards_of_abisAgree hsplits hagree, ?_⟩
    rw [List.forall₂_map_left_iff]
    exact h.imp fun point p hp => isExact_of_fuse hnames hpaths hsplits hp

/-- Two modules with dex files and manifests of the same paths, and with an asset of one path and
different contents. -/
def clashingModules : List AppModule :=
  [{ name := "feature"
     entries := [⟨"dex/classes.dex", ⟨#[1]⟩⟩, ⟨"manifest/AndroidManifest.xml", ⟨#[2]⟩⟩,
      ⟨"assets/terms", ⟨#[3]⟩⟩] },
    { name := baseName
      entries := [⟨"dex/classes.dex", ⟨#[4]⟩⟩, ⟨"manifest/AndroidManifest.xml", ⟨#[5]⟩⟩,
        ⟨"assets/terms", ⟨#[6]⟩⟩] }]

/-- The clashing modules are refused for their asset, and the sample has exact packages. -/
theorem isClash_isExact_sampleModules :
    (∃ t, shardBundle clashingModules (.ofList Dimension.all) {} ∅ =
        .error (.conflict "assets/terms" t) ∧ IsClash clashingModules ∅ "assets/terms") ∧
      ∃ packages shards, shardBundle sampleModules (.ofList Dimension.all) {} ∅ = .ok packages ∧
        planShards sampleModules (.ofList Dimension.all) {} none = .ok shards ∧
        List.Forall₂ (fun shard p => Package.IsExact p sampleModules shard ∅) shards packages := by
  have hnames : (clashingModules.map AppModule.name).Nodup := by decide
  have hnames' : (sampleModules.map AppModule.name).Nodup := by decide
  have hpaths : ∀ m ∈ clashingModules, PathsConsistent m.entries := by
    unfold PathsConsistent
    decide +kernel
  have hpaths' : ∀ m ∈ sampleModules, PathsConsistent m.entries := by
    unfold PathsConsistent
    decide +kernel
  constructor
  · have hconflict : (shardBundle clashingModules (.ofList Dimension.all) {} ∅).map List.length =
        .error (.conflict "assets/terms" .untargeted) := by decide +kernel
    have h := map_eq_error_iff.mp hconflict
    exact ⟨_, h, ((isClash_isExact_of_shardBundle _ _ _ hnames hpaths).1 _ _ h).2.2⟩
  · obtain ⟨packages, h⟩ := exists_of_isSome_toOption
      (x := shardBundle sampleModules (.ofList Dimension.all) {} ∅) (by decide +kernel)
    obtain ⟨shards, hshards, hexact⟩ :=
      (isClash_isExact_of_shardBundle _ _ _ hnames' hpaths').2 packages h
    exact ⟨packages, shards, h, hshards, hexact⟩

end AppBundle
