import AppBundle.Proofs.FirstOccurrences
import AppBundle.Proofs.ModuleContent
import AppBundle.Proofs.PackageFiles
import Mathlib.Data.List.Flatten
import Mathlib.Data.List.Perm.Basic

/-!
# The entries that a package is filled with

A package is filled with three kinds of entries: what the splits hold besides dex files, the dex
files, perhaps with new numbers, and the metadata. This file tells them apart by their paths, and
proves that the dex files are all there and that no two of them share a path.
-/

namespace AppBundle

namespace Category

/-- Paths below `dex` are dex files. -/
theorem ofPath_of_dex {path rest : String} (h : Text.after? "dex/" path = some rest) :
    ofPath path = dex := by
  have hlib := Text.startsWith_eq_false h "lib/" (by decide) (by decide)
  have hres := Text.startsWith_eq_false h "res/" (by decide) (by decide)
  have hassets := Text.startsWith_eq_false h "assets/" (by decide) (by decide)
  have hapex := Text.startsWith_eq_false h "apex/" (by decide) (by decide)
  have hdex : Text.startsWith "dex/" path = true := by rw [Text.startsWith, h, Option.isSome_some]
  have htable : path ≠ "resources.pb" := by
    rintro rfl
    exact absurd hdex (by decide)
  simp [ofPath, hlib, hres, hassets, hapex, hdex, htable]

/-- Paths below `BUNDLE-METADATA` are of no special kind. -/
theorem ofPath_of_metadata {path rest : String}
    (h : Text.after? "BUNDLE-METADATA/" path = some rest) : ofPath path = root := by
  have hlib := Text.startsWith_eq_false h "lib/" (by decide) (by decide)
  have hres := Text.startsWith_eq_false h "res/" (by decide) (by decide)
  have hassets := Text.startsWith_eq_false h "assets/" (by decide) (by decide)
  have hapex := Text.startsWith_eq_false h "apex/" (by decide) (by decide)
  have hdex := Text.startsWith_eq_false h "dex/" (by decide) (by decide)
  have hpath := Text.after?_eq_some_iff.mp h
  have hslash : '/' ∈ path.toList := by
    rw [hpath, String.toList_append]
    exact List.mem_append_left _ (by decide)
  have hmetadata : Text.startsWith "BUNDLE-METADATA/" path = true := by
    rw [Text.startsWith, h, Option.isSome_some]
  have htable : path ≠ "resources.pb" := by
    rintro rfl
    exact absurd hmetadata (by decide)
  simp [ofPath, hlib, hres, hassets, hapex, hdex, htable, hslash]

/-- The manifest of an application is of no special kind. -/
theorem ofPath_appManifest : ofPath appManifest = root := by decide

end Category

section Metadata

variable {metadata : Metadata} {e : Entry}

/-- The metadata entries are the metadata files in their directory. -/
theorem mem_metadataEntries :
    e ∈ metadataEntries metadata ↔
      ∃ path, metadata.get? path = some e.content ∧ e.path = metadataDirectory ++ "/" ++ path := by
  simp only [metadataEntries, List.mem_map, Prod.exists, OrderedMap.get?_eq_some_iff]
  constructor
  · rintro ⟨path, content, h, rfl⟩
    exact ⟨path, h, rfl⟩
  · rintro ⟨path, h, hpath⟩
    exact ⟨path, e.content, h, by rw [← hpath]⟩

/-- Metadata is neither a dex file nor the manifest of an application. -/
theorem category_of_mem_metadataEntries (h : e ∈ metadataEntries metadata) :
    e.category = .root ∧ e.path ≠ appManifest := by
  obtain ⟨path, _, hpath⟩ := mem_metadataEntries.mp h
  have hafter : Text.after? "BUNDLE-METADATA/" e.path = some path :=
    Text.after?_eq_some_iff.mpr hpath
  have hmetadata : Text.startsWith "BUNDLE-METADATA/" e.path = true := by
    rw [Text.startsWith, hafter, Option.isSome_some]
  refine ⟨Category.ofPath_of_metadata hafter, fun hmanifest => ?_⟩
  rw [hmanifest] at hmetadata
  exact absurd hmetadata (by decide)

/-- No two metadata entries share a path. -/
theorem pathsConsistent_metadataEntries (metadata : Metadata) :
    PathsConsistent (metadataEntries metadata) := by
  intro e he f hf hpath
  obtain ⟨path, hget, hepath⟩ := mem_metadataEntries.mp he
  obtain ⟨path', hget', hfpath⟩ := mem_metadataEntries.mp hf
  rw [hepath, hfpath, String.append_right_inj] at hpath
  rw [hpath, hget'] at hget
  exact (Option.some.inj hget).symm

end Metadata

variable {shard : Shard} {metadata : Metadata} {e : Entry}

/-- Common entries are the entries of the splits that are no dex files, but the manifests of
modules that do not own the manifest. -/
theorem mem_commonEntries :
    e ∈ commonEntries shard ↔ e.category ≠ .dex ∧ ∃ s ∈ shard, e ∈ s.entries ∧
      (e.path = appManifest → manifestOwner shard = some s.moduleName) := by
  simp only [commonEntries, List.mem_flatMap, List.mem_filter, Bool.and_eq_true, Bool.or_eq_true,
    decide_eq_true_eq]
  constructor
  · rintro ⟨s, hs, he, hcategory, howner⟩
    exact ⟨hcategory, s, hs, he, fun hpath => howner.resolve_left (not_not_intro hpath)⟩
  · rintro ⟨hcategory, s, hs, he, howner⟩
    exact ⟨s, hs, he, hcategory, Decidable.not_or_of_imp howner⟩

section Dex

/-- Different numbers make different paths. -/
theorem dexPath_injective {i j : Nat} (h : dexPath i = dexPath j) : i = j := by
  have hpath (n : Nat) : dexPath n = "dex/classes" ++ (if n = 1 then "" else n.repr) ++ ".dex" := by
    unfold dexPath
    split
    · decide
    · rfl
  rw [hpath, hpath, String.append_left_inj, String.append_right_inj] at h
  by_cases hi : i = 1
  · by_cases hj : j = 1
    · rw [hi, hj]
    · rw [if_pos hi, if_neg hj] at h
      exact absurd h.symm Nat.repr_ne_empty
  · by_cases hj : j = 1
    · rw [if_neg hi, if_pos hj] at h
      exact absurd h Nat.repr_ne_empty
    · rw [if_neg hi, if_neg hj, Nat.repr_eq_ofList_toDigits, Nat.repr_eq_ofList_toDigits,
        String.ofList_inj] at h
      rw [← Nat.ofDigitChars_ten_toDigits (n := i), h, Nat.ofDigitChars_ten_toDigits]

/-- Numbered paths are paths of dex files. -/
theorem ofPath_dexPath (n : Nat) : Category.ofPath (dexPath n) = .dex := by
  unfold dexPath
  split
  · decide
  · have hafter : Text.after? "dex/" ("dex/classes" ++ toString n ++ ".dex") =
        some ("classes" ++ toString n ++ ".dex") := by
      rw [Text.after?_eq_some_iff, ← String.append_assoc, ← String.append_assoc]
      rfl
    exact Category.ofPath_of_dex hafter

/-- The paths of numbered files are the numbered ones in their order. -/
theorem path_numberDex (files : List Entry) :
    (numberDex files).map Entry.path = (List.range files.length).map fun i => dexPath (i + 1) := by
  rw [numberDex, List.map_map, List.range_eq_range', ← List.zipIdx_map_snd, List.map_map]
  rfl

/-- Numbered files do not share paths. -/
theorem nodup_paths_numberDex (files : List Entry) :
    ((numberDex files).map Entry.path).Nodup := by
  rw [path_numberDex]
  refine List.nodup_range.map fun i j hij => ?_
  have hsucc := dexPath_injective hij
  omega

/-- The dex files of a package in the order of the modules, if at most one module has some. -/
theorem packageDex_of_length_le (h : (dexByModule shard).length ≤ 1) :
    packageDex shard = (dexByModule shard).flatten := by
  unfold packageDex
  match hmodules : dexByModule shard with
  | [] => rfl
  | [files] => simp
  | first :: second :: rest =>
    rw [hmodules] at h
    simp only [List.length_cons] at h
    omega

/-- The dex files of a package have new numbers if several modules have some. -/
theorem packageDex_of_lt_length (h : 1 < (dexByModule shard).length) :
    packageDex shard = numberDex ((dexByModule shard).flatMap (·.mergeSort dexBefore)) := by
  unfold packageDex
  match hmodules : dexByModule shard with
  | [] => simp [hmodules] at h
  | [files] => simp [hmodules] at h
  | first :: second :: rest => rfl

/-- The modules of a shard with the base module first are its modules. -/
theorem modulesBaseFirst_perm (shard : Shard) :
    (modulesBaseFirst shard).Perm (shardModules shard) := by
  have hothers : (shardModules shard).filter (· ≠ baseName) =
      (shardModules shard).filter fun m => !decide (m = baseName) :=
    List.filter_congr fun m _ => by simp
  rw [modulesBaseFirst, hothers]
  exact List.filter_append_perm _ _

/-- The dex files of a shard, module by module, are those of its splits. -/
theorem flatten_dexByModule_perm (shard : Shard) :
    (dexByModule shard).flatten.Perm
      ((shard.flatMap Split.entries).filter (·.category = .dex)) := by
  let dexOf (s : Split) : List Entry := s.entries.filter (·.category = .dex)
  have hsplits : ((shardModules shard).flatMap fun m => shard.filter (·.moduleName = m)).Perm
      shard :=
    perm_flatMap_filter (nodup_eraseDups _) fun s hs =>
      List.mem_eraseDups.mpr (List.mem_map_of_mem hs)
  have hmodules : (shardModules shard).flatMap (moduleDex shard) =
      ((shardModules shard).flatMap fun m => shard.filter (·.moduleName = m)).flatMap dexOf := by
    rw [List.flatMap_assoc]
    rfl
  rw [dexByModule, List.flatten_filter_not_isEmpty, ← List.flatMap_def, List.filter_flatMap]
  refine ((modulesBaseFirst_perm shard).flatMap_right _).trans ?_
  rw [hmodules]
  exact hsplits.flatMap_right dexOf

/-- Dex files are dex files. -/
theorem category_of_mem_packageDex (h : e ∈ packageDex shard) : e.category = .dex := by
  by_cases hlength : (dexByModule shard).length ≤ 1
  · rw [packageDex_of_length_le hlength] at h
    simpa using (List.mem_filter.mp ((flatten_dexByModule_perm shard).mem_iff.mp h)).2
  · have hpath : e.path ∈ (packageDex shard).map Entry.path := List.mem_map_of_mem h
    rw [packageDex_of_lt_length (by omega), path_numberDex] at hpath
    obtain ⟨i, _, hi⟩ := List.mem_map.mp hpath
    rw [Entry.category, ← hi, ofPath_dexPath]

/-- The dex files of a package have the contents of the dex files of its splits. -/
theorem content_packageDex_perm (shard : Shard) :
    ((packageDex shard).map Entry.content).Perm
      (((shard.flatMap Split.entries).filter (·.category = .dex)).map Entry.content) := by
  by_cases hlength : (dexByModule shard).length ≤ 1
  · rw [packageDex_of_length_le hlength]
    exact (flatten_dexByModule_perm shard).map _
  · have hsorted : ((dexByModule shard).flatMap (·.mergeSort dexBefore)).Perm
        (dexByModule shard).flatten := by
      rw [← List.flatMap_id]
      exact List.Perm.flatMap_left _ fun files _ => List.mergeSort_perm files dexBefore
    rw [packageDex_of_lt_length (by omega), content_numberDex]
    exact (hsorted.trans (flatten_dexByModule_perm shard)).map _

/-- The dex files of a package do not share paths if those of no module do. -/
theorem nodup_paths_packageDex
    (h : ∀ name, ((moduleDex shard name).map Entry.path).Nodup) :
    ((packageDex shard).map Entry.path).Nodup := by
  by_cases hlength : (dexByModule shard).length ≤ 1
  · rw [packageDex_of_length_le hlength]
    match hmodules : dexByModule shard with
    | [] => exact List.nodup_nil
    | [files] =>
      have hmem : files ∈ dexByModule shard := hmodules ▸ List.mem_singleton_self files
      obtain ⟨name, _, hname⟩ := List.mem_map.mp (List.mem_filter.mp hmem).1
      rw [List.flatten_singleton, ← hname]
      exact h name
    | first :: second :: rest =>
      rw [hmodules] at hlength
      simp only [List.length_cons] at hlength
      omega
  · rw [packageDex_of_lt_length (by omega)]
    exact nodup_paths_numberDex _

end Dex

/-- What a package is filled with, apart from the dex files. -/
theorem mem_fusedEntries_of_category_ne (h : e.category ≠ .dex) :
    e ∈ fusedEntries shard metadata ↔
      (∃ s ∈ shard, e ∈ s.entries ∧
        (e.path = appManifest → manifestOwner shard = some s.moduleName)) ∨
      e ∈ metadataEntries metadata := by
  have hdex : e ∉ packageDex shard := fun he => h (category_of_mem_packageDex he)
  rw [fusedEntries, List.mem_append, List.mem_append, mem_commonEntries, or_iff_left hdex,
    and_iff_right h]

/-- The dex files that a package is filled with. -/
theorem mem_fusedEntries_of_category (h : e.category = .dex) :
    e ∈ fusedEntries shard metadata ↔ e ∈ packageDex shard := by
  have hcommon : e ∉ commonEntries shard := fun he => (mem_commonEntries.mp he).1 h
  have hmetadata : e ∉ metadataEntries metadata := by
    intro he
    have hroot := (category_of_mem_metadataEntries he).1
    rw [h] at hroot
    cases hroot
  rw [fusedEntries, List.mem_append, List.mem_append, or_iff_right hcommon, or_iff_left hmetadata]

/-- The dex files of a package are those that it is filled with, if these do not share paths. -/
theorem Package.dex_perm_of_fuse {p : Package} (h : Package.fuse shard metadata = .ok p)
    (hpaths : ((packageDex shard).map Entry.path).Nodup) :
    (p.entries.filter (·.category = .dex)).Perm (packageDex shard) := by
  have hpackage : (p.entries.filter (·.category = .dex)).Nodup := p.nodup_paths.of_map.filter _
  refine (List.perm_ext_iff_of_nodup hpackage hpaths.of_map).mpr fun e => ?_
  rw [List.mem_filter, decide_eq_true_eq, Package.mem_entries_of_fuse h]
  constructor
  · rintro ⟨he, hcategory⟩
    exact (mem_fusedEntries_of_category hcategory).mp he
  · intro he
    have hcategory := category_of_mem_packageDex he
    exact ⟨(mem_fusedEntries_of_category hcategory).mpr he, hcategory⟩

/-- Shards fill packages with the same entries if they have the same dex files, keep the same
manifest and hold the same entries under every name. -/
theorem mem_fusedEntries_congr {other : Shard} (hdex : packageDex shard = packageDex other)
    (howner : manifestOwner shard = manifestOwner other)
    (hentries : ∀ name e, (∃ s ∈ shard, s.moduleName = name ∧ e ∈ s.entries) ↔
      ∃ s ∈ other, s.moduleName = name ∧ e ∈ s.entries) (e : Entry) :
    e ∈ fusedEntries shard metadata ↔ e ∈ fusedEntries other metadata := by
  have hnamed (shard : Shard) (p : String → Prop) :
      (∃ s ∈ shard, e ∈ s.entries ∧ p s.moduleName) ↔
        ∃ name, (∃ s ∈ shard, s.moduleName = name ∧ e ∈ s.entries) ∧ p name := by
    constructor
    · rintro ⟨s, hs, he, hname⟩
      exact ⟨s.moduleName, ⟨s, hs, rfl, he⟩, hname⟩
    · rintro ⟨_, ⟨s, hs, rfl, he⟩, hname⟩
      exact ⟨s, hs, he, hname⟩
  by_cases hcategory : e.category = .dex
  · rw [mem_fusedEntries_of_category hcategory, mem_fusedEntries_of_category hcategory, hdex]
  · rw [mem_fusedEntries_of_category_ne hcategory, mem_fusedEntries_of_category_ne hcategory,
      howner]
    refine or_congr_left ?_
    let p (name : String) : Prop := e.path = appManifest → manifestOwner other = some name
    rw [hnamed shard p, hnamed other p]
    simp only [hentries]

end AppBundle
