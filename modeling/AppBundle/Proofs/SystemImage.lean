import AppBundle.Package.System
import AppBundle.Proofs.CombinedTargeting
import AppBundle.Proofs.FusedEntries

/-!
# What goes into a system image, and what stays apart

For one device a shard is taken apart into the splits for the system image and the rest. The
rest is packed by module and targeting. This file proves that every split goes into exactly one
package, and that a package of one module and one targeting keeps the entries, the paths and the
targeting of its splits as they are.
-/

namespace AppBundle

/-- Two targetings serve the same values in every dimension. -/
structure Targeting.SameValues (t u : Targeting) : Prop where
  /-- The architectures. -/
  abi : t.abi.values = u.abi.values
  /-- The classes of screen density. -/
  density : t.density.values = u.density.values
  /-- The languages. -/
  language : t.language.values = u.language.values
  /-- The sets of architectures. -/
  multiAbi : t.multiAbi.values = u.multiAbi.values

theorem Targeting.SameValues.symm {t u : Targeting} (h : t.SameValues u) : u.SameValues t :=
  ⟨h.abi.symm, h.density.symm, h.language.symm, h.multiAbi.symm⟩

theorem Targeting.SameValues.trans {t u v : Targeting} (h : t.SameValues u) (h' : u.SameValues v) :
    t.SameValues v :=
  ⟨h.abi.trans h'.abi, h.density.trans h'.density, h.language.trans h'.language,
    h.multiAbi.trans h'.multiAbi⟩

/-- Copies of one selection serve together what it serves. -/
theorem Selection.values_combine_of_forall_eq {α : Type} [Ord α] [Std.TransOrd α]
    [Std.LawfulEqOrd α] [DecidableEq α] {ss : List (Selection α)} {t : Selection α} (hne : ss ≠ [])
    (h : ∀ s ∈ ss, s = t) : (combine ss).values = t.values := by
  obtain ⟨s, hs⟩ := List.exists_mem_of_ne_nil _ hne
  refine OrderedSet.ext fun a => ?_
  rw [mem_values_combine]
  constructor
  · rintro ⟨s, hs, ha⟩
    rwa [← h s hs]
  · intro ha
    exact ⟨s, hs, by rwa [h s hs]⟩

/-- Copies of one targeting serve together what it serves. -/
theorem Targeting.sameValues_combine {ts : List Targeting} {t : Targeting} (hne : ts ≠ [])
    (h : ∀ u ∈ ts, u = t) : (combine ts).SameValues t := by
  have hmap {β : Type} (f : Targeting → β) : ts.map f ≠ [] ∧ ∀ b ∈ ts.map f, b = f t := by
    constructor
    · exact fun hnil => hne (List.map_eq_nil_iff.mp hnil)
    · intro b hb
      obtain ⟨u, hu, rfl⟩ := List.mem_map.mp hb
      rw [h u hu]
  rw [combine_eq]
  constructor
  · exact Selection.values_combine_of_forall_eq (hmap abi).1 (hmap abi).2
  · exact Selection.values_combine_of_forall_eq (hmap density).1 (hmap density).2
  · exact Selection.values_combine_of_forall_eq (hmap language).1 (hmap language).2
  · exact Selection.values_combine_of_forall_eq (hmap multiAbi).1 (hmap multiAbi).2

section OneModule

variable {shard : Shard} {name : String} {e : Entry}

/-- A shard of one module has that module only. -/
theorem shardModules_of_forall_eq (hne : shard ≠ []) (h : ∀ s ∈ shard, s.moduleName = name) :
    shardModules shard = [name] := by
  cases shard with
  | nil => exact absurd rfl hne
  | cons s rest =>
    have hs : s.moduleName = name := h s List.mem_cons_self
    have hrest : (rest.map Split.moduleName).filter (fun n => !n == name) = [] := by
      refine List.filter_eq_nil_iff.mpr fun n hn => ?_
      obtain ⟨t, ht, rfl⟩ := List.mem_map.mp hn
      simp [h t (List.mem_cons_of_mem _ ht)]
    rw [shardModules, List.map_cons, hs, List.eraseDups_cons, hrest, List.eraseDups_nil]

variable (hne : shard ≠ []) (h : ∀ s ∈ shard, s.moduleName = name)
include hne h

/-- The base module first or not, one module is one module. -/
theorem modulesBaseFirst_of_forall_eq : modulesBaseFirst shard = [name] := by
  have hperm := modulesBaseFirst_perm shard
  rw [shardModules_of_forall_eq hne h] at hperm
  exact List.perm_singleton.mp hperm

/-- A shard of one module keeps its dex files with their paths. -/
theorem mem_packageDex_of_forall_eq :
    e ∈ packageDex shard ↔ e.category = .dex ∧ ∃ s ∈ shard, e ∈ s.entries := by
  have hlength : (dexByModule shard).length ≤ 1 := by
    rw [dexByModule, modulesBaseFirst_of_forall_eq hne h]
    exact List.length_filter_le _ _
  rw [packageDex_of_length_le hlength, (flatten_dexByModule_perm shard).mem_iff, List.mem_filter,
    List.mem_flatMap, decide_eq_true_eq, and_comm]

/-- The manifest of a shard of one module is that of the module. -/
theorem manifestOwner_of_forall_eq {s : Split} (hs : s ∈ shard) (he : e ∈ s.entries)
    (hpath : e.path = appManifest) : manifestOwner shard = some name := by
  have hany : shard.any (fun s => s.moduleName = name && s.entries.any (·.path = appManifest)) =
      true := by
    refine List.any_eq_true.mpr ⟨s, hs, ?_⟩
    rw [Bool.and_eq_true, List.any_eq_true]
    exact ⟨decide_eq_true (h s hs), e, he, decide_eq_true hpath⟩
  rw [manifestOwner, modulesBaseFirst_of_forall_eq hne h]
  exact List.find?_cons_of_pos hany

/-- Without metadata, a shard of one module is filled with the entries of its splits. -/
theorem mem_fusedEntries_of_forall_eq :
    e ∈ fusedEntries shard ∅ ↔ ∃ s ∈ shard, e ∈ s.entries := by
  by_cases hcategory : e.category = .dex
  · rw [mem_fusedEntries_of_category hcategory, mem_packageDex_of_forall_eq hne h,
      and_iff_right hcategory]
  · have hmetadata : e ∉ metadataEntries ∅ := List.not_mem_nil
    rw [mem_fusedEntries_of_category_ne hcategory, or_iff_left hmetadata]
    constructor
    · rintro ⟨s, hs, he, _⟩
      exact ⟨s, hs, he⟩
    · rintro ⟨s, hs, he⟩
      refine ⟨s, hs, he, fun hpath => ?_⟩
      rw [manifestOwner_of_forall_eq hne h hs he hpath, h s hs]

end OneModule

/-- A split goes into the system image if its module is fused and it has no language or one of
the device. -/
theorem Split.isFused_iff {s : Split} {fused : OrderedSet String} {device : Device} :
    s.isFused fused device ↔ s.moduleName ∈ fused ∧ (s.targeting.hasLanguage = false ∨
      ∃ l ∈ s.targeting.language.values, ∃ locale ∈ device.supportedLocales,
        Language.ofLocale locale = .ok l) := by
  have hlanguage (l : Language) :
      l ∈ device.languages ↔
        ∃ locale ∈ device.supportedLocales, Language.ofLocale locale = .ok l := by
    rw [Device.languages, OrderedSet.mem_ofList, List.mem_filterMap]
    refine exists_congr fun locale => and_congr_right fun _ => ?_
    cases Language.ofLocale locale <;> simp [Except.toOption]
  rw [isFused, Targeting.servesLanguage, Bool.and_eq_true, Bool.or_eq_true, List.any_eq_true,
    decide_eq_true_eq, Bool.not_eq_true']
  refine and_congr_right fun _ => or_congr_right ?_
  constructor
  · rintro ⟨l, hl, hvalue⟩
    exact ⟨l, of_decide_eq_true hvalue, (hlanguage l).mp hl⟩
  · rintro ⟨l, hvalue, hl⟩
    exact ⟨l, (hlanguage l).mpr hl, decide_eq_true hvalue⟩

/-- What tells apart the packages beside a system image: the module and the targeting. -/
def Split.apartKey (s : Split) : String × Targeting := (s.moduleName, s.targeting)

/-- The splits of one module and one targeting. -/
def splitsApart (splits : List Split) (key : String × Targeting) : Shard :=
  splits.filter (·.apartKey = key)

/-- The classes of splits, one for each module and targeting, in the order of first occurrence. -/
theorem apartClasses_eq (splits : List Split) :
    apartClasses splits = (splits.map Split.apartKey).eraseDups.map (splitsApart splits) := rfl

/-- Every split is in exactly one class. -/
theorem flatMap_splitsApart_perm (splits : List Split) :
    ((splits.map Split.apartKey).eraseDups.flatMap (splitsApart splits)).Perm splits :=
  perm_flatMap_filter (nodup_eraseDups _) fun _ hs =>
    List.mem_eraseDups.mpr (List.mem_map_of_mem hs)

/-- A package beside a system image belongs to one module and one targeting, and it holds what
the splits of that module and targeting hold. -/
structure IsApart (splits : List Split) (key : String × Targeting) (p : Package) : Prop where
  /-- The package is fused from the splits of the module and the targeting, without metadata. -/
  fuse : Package.fuse (splitsApart splits key) ∅ = .ok p
  /-- It has the module only. -/
  modules : p.modules = [key.1]
  /-- It serves what each of its splits serves. -/
  targeting : p.targeting.SameValues key.2
  /-- It has the entries of its splits, with their paths and contents, and no other ones. -/
  entries : ∀ e, e ∈ p.entries ↔
    ∃ s ∈ splits, s.moduleName = key.1 ∧ s.targeting = key.2 ∧ e ∈ s.entries
  /-- It has every path once. -/
  paths : (p.entries.map Entry.path).Nodup

/-- The package of a class belongs to the module and the targeting of the class. -/
theorem isApart_of_fuse {splits : List Split} {key : String × Targeting} {p : Package}
    (hkey : key ∈ splits.map Split.apartKey) (h : Package.fuse (splitsApart splits key) ∅ = .ok p) :
    IsApart splits key p := by
  have hclass {s : Split} : s ∈ splitsApart splits key ↔ s ∈ splits ∧ s.apartKey = key := by
    rw [splitsApart, List.mem_filter, decide_eq_true_eq]
  have hne : splitsApart splits key ≠ [] := by
    obtain ⟨s, hs, hsk⟩ := List.mem_map.mp hkey
    exact List.ne_nil_of_mem (hclass.mpr ⟨hs, hsk⟩)
  have hmodule : ∀ s ∈ splitsApart splits key, s.moduleName = key.1 :=
    fun s hs => congrArg Prod.fst (hclass.mp hs).2
  have htargeting : ∀ t ∈ (splitsApart splits key).map Split.targeting, t = key.2 := by
    intro t ht
    obtain ⟨s, hs, rfl⟩ := List.mem_map.mp ht
    exact congrArg Prod.snd (hclass.mp hs).2
  obtain ⟨files, _, hp⟩ := Package.fuse_eq_ok_iff.mp h
  refine ⟨h, ?_, ?_, fun e => ?_, ?_⟩
  · rw [hp, ← shardModules_of_forall_eq hne hmodule]
    rfl
  · rw [hp]
    exact Targeting.sameValues_combine (fun hnil => hne (List.map_eq_nil_iff.mp hnil)) htargeting
  · rw [Package.mem_entries_of_fuse h, mem_fusedEntries_of_forall_eq hne hmodule]
    refine exists_congr fun _ => ?_
    rw [hclass, Split.apartKey, Prod.ext_iff, and_assoc, and_assoc]
  · exact p.nodup_paths

/-- The splits of a shard that do not go into the system image. -/
def splitsOutside (shard : Shard) (fused : OrderedSet String) (device : Device) : List Split :=
  shard.filter (!·.isFused fused device)

/-- The packages of a shard for one device divide its splits. -/
structure SystemPackages.Divides (packages : SystemPackages) (shard : Shard)
    (fused : OrderedSet String) (metadata : Metadata) (device : Device) : Prop where
  /-- A split goes into the system image if its module is fused and it has no language or one
  that some locale of the device stands for. -/
  inside : ∀ s : Split, s.isFused fused device ↔ s.moduleName ∈ fused ∧
    (s.targeting.hasLanguage = false ∨ ∃ l ∈ s.targeting.language.values,
      ∃ locale ∈ device.supportedLocales, Language.ofLocale locale = .ok l)
  /-- The system image is fused from these splits, in the order of the shard. -/
  image : Package.fuse (shard.filter (·.isFused fused device)) metadata = .ok packages.image
  /-- The other packages belong to the modules and targetings of the other splits, one to each
  and in the order in which they occur first. -/
  additional : List.Forall₂ (IsApart (splitsOutside shard fused device))
    ((splitsOutside shard fused device).map Split.apartKey).eraseDups packages.additional
  /-- The splits of all packages are the splits of the shard, each once. -/
  once : (shard.filter (·.isFused fused device) ++
    ((splitsOutside shard fused device).map Split.apartKey).eraseDups.flatMap
      (splitsApart (splitsOutside shard fused device))).Perm shard

/-- Packing a shard for one device loses nothing and repeats nothing. -/
theorem SystemPackages.divides_of_ofShard {shard : Shard} {fused : OrderedSet String}
    {metadata : Metadata} {device : Device} {packages : SystemPackages}
    (h : ofShard shard fused metadata device = .ok packages) :
    packages.Divides shard fused metadata device := by
  unfold ofShard at h
  rw [List.partition_eq_filter_filter] at h
  obtain ⟨image, himage, h⟩ := bind_eq_ok_iff.mp h
  obtain ⟨additional, hadditional, h⟩ := bind_eq_ok_iff.mp h
  obtain rfl := Except.ok.inj h
  have houtside : shard.filter (not ∘ fun s => s.isFused fused device) =
      splitsOutside shard fused device := rfl
  constructor
  · exact fun s => Split.isFused_iff
  · exact himage
  · rw [houtside, apartClasses_eq, mapM_eq_ok_iff, List.forall₂_map_left_iff] at hadditional
    have hkeys := (List.forall₂_and_left _ _).mpr ⟨fun _ hkey => hkey, hadditional⟩
    exact hkeys.imp fun key p hp => isApart_of_fuse (List.mem_eraseDups.mp hp.1) hp.2
  · have happart := flatMap_splitsApart_perm (splitsOutside shard fused device)
    exact (happart.append_left _).trans (List.filter_append_perm _ shard)

/-- A shard of two modules with dex files and manifests, two languages, and two splits of one
module and targeting. -/
def sampleShard : Shard :=
  [.ofEntries baseName
      [⟨"dex/classes.dex", ⟨#[1]⟩⟩, ⟨"manifest/AndroidManifest.xml", ⟨#[2]⟩⟩] .untargeted,
    .ofEntries "feature"
      [⟨"dex/classes.dex", ⟨#[3]⟩⟩, ⟨"manifest/AndroidManifest.xml", ⟨#[4]⟩⟩] .untargeted,
    .ofEntries baseName [⟨"assets/intro#lang_de/text", ⟨#[5]⟩⟩] (.forLanguage ⟨"de"⟩),
    .ofEntries baseName [⟨"assets/intro#lang_fr/text", ⟨#[6]⟩⟩] (.forLanguage ⟨"fr"⟩),
    .ofEntries "feature" [⟨"dex/classes2.dex", ⟨#[7]⟩⟩, ⟨"dex/classes.dex", ⟨#[3]⟩⟩] .untargeted]

/-- The sample shard is divided for a German device. -/
theorem SystemPackages.divides_sampleShard :
    ∃ packages, ofShard sampleShard (.singleton baseName) (.ofList [("license", ⟨#[8]⟩)])
        { screenDensity := 320, supportedLocales := ["?", "de-DE"] } = .ok packages ∧
      packages.Divides sampleShard (.singleton baseName) (.ofList [("license", ⟨#[8]⟩)])
        { screenDensity := 320, supportedLocales := ["?", "de-DE"] } := by
  obtain ⟨packages, h⟩ := exists_of_isSome_toOption (x := ofShard sampleShard
    (.singleton baseName) (.ofList [("license", ⟨#[8]⟩)])
    { screenDensity := 320, supportedLocales := ["?", "de-DE"] }) (by decide +kernel)
  exact ⟨packages, h, divides_of_ofShard h⟩

end AppBundle
