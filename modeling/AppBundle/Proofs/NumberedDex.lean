import AppBundle.Proofs.DexOrder

/-!
# Dex files with new numbers

A package keeps the dex files of one module with their paths, and gives new numbers to those of
several modules. This file proves that the dex files of one module are treated like all other
entries, and that otherwise the files have the numbers from one on in their order, that no file is
lost, and that no conflict is about the path of a dex file.
-/

namespace AppBundle

section Packing

variable {shard : Shard} {metadata : Metadata} {e : Entry}

/-- An entry of a split or a metadata file, but no manifest of another module than the one whose
manifest is kept. -/
def IsSource (shard : Shard) (metadata : Metadata) (e : Entry) : Prop :=
  (∃ s ∈ shard, e ∈ s.entries ∧ (e.path = appManifest → manifestOwner shard = some s.moduleName)) ∨
    e ∈ metadataEntries metadata

/-- At most one module of a shard has dex files. -/
def DexOfOneModule (shard : Shard) : Prop :=
  ∀ a ∈ placedDex shard, ∀ b ∈ placedDex shard, a.moduleName = b.moduleName

/-- A package treats dex files like all other entries. -/
structure KeepsDex (shard : Shard) (metadata : Metadata) : Prop where
  /-- There is a package unless two entries have one path and different contents. -/
  succeeds : (∃ p, Package.fuse shard metadata = .ok p) ↔
    ∀ e f, IsSource shard metadata e → IsSource shard metadata f → e.path = f.path →
      e.content = f.content
  /-- The package has exactly the entries with their paths. -/
  entries : ∀ p, Package.fuse shard metadata = .ok p →
    ∀ e, e ∈ p.entries ↔ IsSource shard metadata e
  /-- A conflict is about the path of two entries with different contents. -/
  conflict : ∀ path t, Package.fuse shard metadata = .error (.conflict path t) →
    ∃ e f, IsSource shard metadata e ∧ IsSource shard metadata f ∧ e.path = path ∧
      f.path = path ∧ e.content ≠ f.content

/-- A package gives new numbers to dex files in an order. -/
structure NumbersDex (shard : Shard) (metadata : Metadata) (files : List PlacedDex) : Prop where
  /-- All dex files get numbers. -/
  perm : files.Perm (placedDex shard)
  /-- They stand in their order. -/
  ordered : files.Pairwise (DexPrecedes shard)
  /-- There is a package unless two entries besides dex files have one path and different
  contents. -/
  succeeds : (∃ p, Package.fuse shard metadata = .ok p) ↔
    ∀ e f, IsSource shard metadata e → IsSource shard metadata f → e.category ≠ .dex →
      e.path = f.path → e.content = f.content
  /-- No conflict is about the path of a dex file. -/
  conflict : ∀ path t, Package.fuse shard metadata = .error (.conflict path t) →
    Category.ofPath path ≠ .dex
  /-- The dex files of the package have the numbers from one on as paths, in the order of the
  files. -/
  dex : ∀ p, Package.fuse shard metadata = .ok p →
    (p.entries.filter (·.category = .dex)).Perm
      (files.zipIdx.map fun x => ⟨dexPath (x.2 + 1), x.1.entry.content⟩)
  /-- The other entries of the package keep their paths. -/
  others : ∀ p, Package.fuse shard metadata = .ok p →
    ∀ e, e.category ≠ .dex → (e ∈ p.entries ↔ IsSource shard metadata e)
  /-- No two entries of the package share a path. -/
  paths : ∀ p, Package.fuse shard metadata = .ok p → (p.entries.map Entry.path).Nodup

/-- The modules with dex files, the base module first. -/
def dexModules (shard : Shard) : List String :=
  (modulesBaseFirst shard).filter fun name => !(moduleDex shard name).isEmpty

/-- These are the modules of the dex files. -/
theorem mem_dexModules {name : String} :
    name ∈ dexModules shard ↔ ∃ a ∈ placedDex shard, a.moduleName = name := by
  have hnonempty : (!(moduleDex shard name).isEmpty) = true ↔
      ∃ a ∈ placedDex shard, a.moduleName = name := by
    rw [← entry_filter_placedDex, List.isEmpty_map, Bool.not_eq_true', List.isEmpty_eq_false_iff,
      ne_eq, List.filter_eq_nil_iff]
    simp only [decide_eq_true_eq, not_forall, not_not, exists_prop]
  rw [dexModules, List.mem_filter, hnonempty]
  refine and_iff_right_of_imp ?_
  rintro ⟨a, ha, rfl⟩
  exact moduleName_mem_of_mem_placedDex ha

/-- The dex files are of one module if they are listed for one module at most. -/
theorem length_dexByModule_le_one_iff :
    (dexByModule shard).length ≤ 1 ↔ DexOfOneModule shard := by
  have hlength : (dexByModule shard).length = (dexModules shard).length := by
    rw [dexByModule, List.filter_map, List.length_map]
    rfl
  have hnodup : (dexModules shard).Nodup :=
    ((modulesBaseFirst_perm shard).nodup_iff.mpr (nodup_eraseDups _)).filter _
  rw [hlength]
  constructor
  · intro hle a ha b hb
    have hanames := mem_dexModules.mpr ⟨a, ha, rfl⟩
    have hbnames := mem_dexModules.mpr ⟨b, hb, rfl⟩
    rcases hmodules : dexModules shard with _ | ⟨m, _ | ⟨n, names⟩⟩
    · simp [hmodules] at hanames
    · rw [hmodules, List.mem_singleton] at hanames hbnames
      rw [hanames, hbnames]
    · simp [hmodules] at hle
  · intro hone
    rcases hmodules : dexModules shard with _ | ⟨m, _ | ⟨n, names⟩⟩
    · exact Nat.zero_le 1
    · exact Nat.le_refl 1
    · obtain ⟨a, ha, hm⟩ := mem_dexModules.mp (hmodules ▸ List.mem_cons_self (a := m))
      obtain ⟨b, hb, hn⟩ := mem_dexModules.mp
        (hmodules ▸ List.mem_cons_of_mem m (List.mem_cons_self (a := n)))
      have heq : m = n := by rw [← hm, ← hn, hone a ha b hb]
      rw [hmodules, heq] at hnodup
      exact absurd List.mem_cons_self (List.nodup_cons.mp hnodup).1

/-- Entries besides dex files go into a package as they are. -/
theorem mem_fusedEntries_iff_isSource (h : e.category ≠ .dex) :
    e ∈ fusedEntries shard metadata ↔ IsSource shard metadata e :=
  mem_fusedEntries_of_category_ne h

/-- All entries go into a package as they are if the dex files are of one module. -/
theorem mem_fusedEntries_of_dexOfOneModule (h : DexOfOneModule shard) :
    e ∈ fusedEntries shard metadata ↔ IsSource shard metadata e := by
  by_cases hcategory : e.category = .dex
  · have hmanifest : e.path ≠ appManifest := by
      intro hpath
      rw [Entry.category, hpath, Category.ofPath_appManifest] at hcategory
      cases hcategory
    have hmetadata : e ∉ metadataEntries metadata := by
      intro he
      rw [(category_of_mem_metadataEntries he).1] at hcategory
      cases hcategory
    rw [mem_fusedEntries_of_category hcategory,
      packageDex_of_length_le (length_dexByModule_le_one_iff.mpr h),
      (flatten_dexByModule_perm shard).mem_iff, IsSource, or_iff_left hmetadata]
    simp [hcategory, hmanifest]
  · exact mem_fusedEntries_iff_isSource hcategory

/-- Dex files of one module are treated like all other entries. -/
theorem keepsDex_of_dexOfOneModule (metadata : Metadata) (h : DexOfOneModule shard) :
    KeepsDex shard metadata := by
  have hmem (e : Entry) : e ∈ fusedEntries shard metadata ↔ IsSource shard metadata e :=
    mem_fusedEntries_of_dexOfOneModule h
  constructor
  · rw [Package.exists_fuse_iff]
    simp only [PathsConsistent, hmem]
    exact ⟨fun hpaths e f he hf => hpaths e he f hf, fun hpaths e he f hf => hpaths e f he hf⟩
  · intro p hp e
    rw [Package.mem_entries_of_fuse hp, hmem]
  · intro path t hp
    obtain ⟨e, he, f, hf, hclash⟩ := Package.exists_clash_of_fuse hp
    exact ⟨e, f, (hmem e).mp he, (hmem f).mp hf, hclash⟩

/-- The dex files of several modules get the numbers of their order. -/
theorem packageDex_of_not_dexOfOneModule (h : ¬ DexOfOneModule shard) :
    packageDex shard =
      (orderedDex shard).zipIdx.map fun x => ⟨dexPath (x.2 + 1), x.1.entry.content⟩ := by
  have hlength : 1 < (dexByModule shard).length :=
    Nat.lt_of_not_le fun hle => h (length_dexByModule_le_one_iff.mp hle)
  rw [packageDex_of_lt_length hlength, ← entry_orderedDex, numberDex, List.zipIdx_map,
    List.map_map]
  rfl

/-- Dex files of several modules are numbered in their order. -/
theorem numbersDex_of_not_dexOfOneModule (metadata : Metadata) (h : ¬ DexOfOneModule shard) :
    NumbersDex shard metadata (orderedDex shard) := by
  have hnodup : ((packageDex shard).map Entry.path).Nodup := by
    have hlength : 1 < (dexByModule shard).length :=
      Nat.lt_of_not_le fun hle => h (length_dexByModule_le_one_iff.mp hle)
    rw [packageDex_of_lt_length hlength]
    exact nodup_paths_numberDex _
  constructor
  · exact orderedDex_perm shard
  · exact pairwise_orderedDex shard
  · rw [Package.exists_fuse_iff]
    constructor
    · intro hpaths e f he hf hcategory hpath
      have hfcategory : f.category ≠ .dex := by rwa [Entry.category, ← hpath]
      exact hpaths e ((mem_fusedEntries_iff_isSource hcategory).mpr he) f
        ((mem_fusedEntries_iff_isSource hfcategory).mpr hf) hpath
    · intro hpaths e he f hf hpath
      by_cases hcategory : e.category = .dex
      · have hfcategory : f.category = .dex := by rwa [Entry.category, ← hpath]
        rw [mem_fusedEntries_of_category hcategory] at he
        rw [mem_fusedEntries_of_category hfcategory] at hf
        rw [List.inj_on_of_nodup_map hnodup he hf hpath]
      · have hfcategory : f.category ≠ .dex := by rwa [Entry.category, ← hpath]
        exact hpaths e f ((mem_fusedEntries_iff_isSource hcategory).mp he)
          ((mem_fusedEntries_iff_isSource hfcategory).mp hf) hcategory hpath
  · intro path t hp hdex
    obtain ⟨e, he, f, hf, hepath, hfpath, hcontent⟩ := Package.exists_clash_of_fuse hp
    have hcategory : e.category = .dex := by rwa [Entry.category, hepath]
    have hfcategory : f.category = .dex := by rwa [Entry.category, hfpath]
    rw [mem_fusedEntries_of_category hcategory] at he
    rw [mem_fusedEntries_of_category hfcategory] at hf
    exact hcontent (by rw [List.inj_on_of_nodup_map hnodup he hf (hepath.trans hfpath.symm)])
  · intro p hp
    rw [← packageDex_of_not_dexOfOneModule h]
    exact p.dex_perm_of_fuse hp hnodup
  · intro p hp e hcategory
    rw [Package.mem_entries_of_fuse hp, mem_fusedEntries_iff_isSource hcategory]
  · exact fun p _ => p.nodup_paths

/-- There is one order of the dex files. -/
theorem NumbersDex.unique {files others : List PlacedDex} (h : NumbersDex shard metadata files)
    (h' : NumbersDex shard metadata others) : files = others := by
  refine (h.perm.trans h'.perm.symm).eq_of_pairwise (fun a b _ _ hab hba => ?_) h.ordered h'.ordered
  exact absurd hba hab.asymm

end Packing

/-- Dex files of one module are entries like all others, with their paths. Dex files of several
modules get the numbers from one on, in an order of all of them: the base module comes first, then
the other modules as they occur first; in a module they stand by their numbers up to the greatest
one, which names without numbers have too, then by paths and by places. Neither fails because of
the paths of numbered files. -/
theorem keepsDex_numbersDex (shard : Shard) (metadata : Metadata) :
    (DexOfOneModule shard → KeepsDex shard metadata) ∧
      (¬ DexOfOneModule shard → ∃! files, NumbersDex shard metadata files) := by
  refine ⟨keepsDex_of_dexOfOneModule metadata, fun h => ?_⟩
  have hnumbers := numbersDex_of_not_dexOfOneModule metadata h
  exact ⟨_, hnumbers, fun others hothers => hothers.unique hnumbers⟩

/-- Files that stand in the order of their numbers get new numbers as they stand. -/
theorem packageDex_of_sorted {shard : Shard} (h : 1 < (dexByModule shard).length)
    (hsorted : ∀ files ∈ dexByModule shard, files.Pairwise fun a b => dexBefore a b) :
    packageDex shard = numberDex (dexByModule shard).flatten := by
  rw [packageDex_of_lt_length h, ← List.flatMap_id]
  congr 1
  exact List.flatMap_congr fun files hfiles => List.mergeSort_of_pairwise (hsorted files hfiles)

/-- A shard in which two modules have dex files, the base module last. -/
def twoDexModules : Shard :=
  [.ofEntries "feature" [⟨"dex/classes2.dex", ⟨#[1]⟩⟩, ⟨"dex/classes10.dex", ⟨#[2]⟩⟩,
      ⟨"assets/a", ⟨#[3]⟩⟩] .untargeted,
    .ofEntries baseName [⟨"dex/classes.dex", ⟨#[4]⟩⟩] .untargeted]

/-- The dex files of two modules get new numbers, and those of one of them are kept. -/
theorem keepsDex_numbersDex_twoDexModules :
    (∃! files, NumbersDex twoDexModules ∅ files) ∧ (∃ p, Package.fuse twoDexModules ∅ = .ok p) ∧
      KeepsDex (twoDexModules.take 1) ∅ := by
  refine ⟨(keepsDex_numbersDex twoDexModules ∅).2 ?_, ?_,
    (keepsDex_numbersDex (twoDexModules.take 1) ∅).1 ?_⟩
  · unfold DexOfOneModule
    decide +kernel
  · rw [Package.exists_fuse_iff, fusedEntries,
      packageDex_of_sorted (by decide +kernel) (by decide +kernel), PathsConsistent]
    decide +kernel
  · unfold DexOfOneModule
    decide +kernel

/-- A shard in which the base module has a dex file with the greatest number and one without. -/
def greatestDexNumber : Shard :=
  [.ofEntries baseName [⟨"dex/a.dex", ⟨#[1]⟩⟩, ⟨"dex/classes4294967295.dex", ⟨#[2]⟩⟩] .untargeted,
    .ofEntries "feature" [⟨"dex/classes.dex", ⟨#[3]⟩⟩] .untargeted]

/-- The dex file without a number comes before the one with the greatest number. -/
theorem exists_misplaced_dex_greatestDexNumber :
    CarriesNumber "dex/classes4294967295.dex" 4294967295 ∧ (∀ k, ¬ CarriesNumber "dex/a.dex" k) ∧
      ∃ p, Package.fuse greatestDexNumber ∅ = .ok p ∧ ⟨"dex/classes.dex", ⟨#[1]⟩⟩ ∈ p.entries ∧
        ⟨"dex/classes2.dex", ⟨#[2]⟩⟩ ∈ p.entries := by
  have hdex : packageDex greatestDexNumber = numberDex (dexByModule greatestDexNumber).flatten :=
    packageDex_of_sorted (by decide +kernel) (by decide +kernel)
  refine ⟨?_, ?_, ?_⟩
  · have hread : Text.readNatural? maxDexNumber "4294967295" = some 4294967295 := by
      decide +kernel
    exact .numbered (by decide) hread
  · intro k hk
    cases hk with
    | first h => exact absurd h (by decide)
    | numbered h =>
      have hstem := bind_before?_eq_some_iff.mpr h
      have hnone : (Text.after? "classes" (lastName "dex/a.dex")).bind (Text.before? ".dex") =
          none := by decide
      rw [hnone] at hstem
      cases hstem
  · have hpaths : PathsConsistent (fusedEntries greatestDexNumber ∅) := by
      rw [fusedEntries, hdex, PathsConsistent]
      decide +kernel
    obtain ⟨p, hp⟩ := Package.exists_fuse_iff.mpr hpaths
    refine ⟨p, hp, ?_, ?_⟩
    · rw [Package.mem_entries_of_fuse hp, fusedEntries, hdex]
      decide +kernel
    · rw [Package.mem_entries_of_fuse hp, fusedEntries, hdex]
      decide +kernel

end AppBundle
