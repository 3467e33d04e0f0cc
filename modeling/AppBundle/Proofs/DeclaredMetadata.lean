import AppBundle.Proofs.CheckedManifests
import AppBundle.Proofs.FirstOccurrences
import AppBundle.Proofs.FoundFiles
import Mathlib.Data.List.Perm.Subperm

/-!
# Declared metadata

A manifest declares metadata files under different keys, and the paths that are left of two keys
can be the same. A loaded bundle has one file for each path, and that is the last one of those that
are declared for it. So no declared file is lost exactly if all paths are different.
-/

namespace AppBundle

open Files

section LastElements

variable {α κ ν : Type} {f : α → κ} {g : α → ν} {as : List α} {a b : α}

/-- An element is the last one of its key. -/
def IsLastBy (f : α → κ) (as : List α) (a : α) : Prop :=
  ∃ before after, as = before ++ a :: after ∧ f a ∉ after.map f

/-- The element at the end is the last one of its key, and takes this place from all others. -/
theorem isLastBy_concat_iff :
    IsLastBy f (as ++ [b]) a ↔ a = b ∨ f a ≠ f b ∧ IsLastBy f as a := by
  constructor
  · rintro ⟨before, after, hsplit, hlast⟩
    cases after using List.reverseRecOn with
    | nil => exact .inl (List.singleton_inj.mp (List.append_inj' hsplit rfl).2).symm
    | append_singleton after c =>
      have hconcat : as ++ [b] = (before ++ a :: after) ++ [c] := by rw [hsplit]; simp
      obtain ⟨hrest, hc⟩ := List.append_inj' hconcat rfl
      obtain rfl := List.singleton_inj.mp hc
      rw [List.map_append, List.mem_append, not_or] at hlast
      exact .inr ⟨by simpa using hlast.2, before, after, hrest, hlast.1⟩
  · rintro (rfl | ⟨hne, before, after, rfl, hlast⟩)
    · exact ⟨as, [], rfl, List.not_mem_nil⟩
    · refine ⟨before, after ++ [b], by simp, ?_⟩
      simp [hlast, hne]

theorem IsLastBy.mem (h : IsLastBy f as a) : a ∈ as := by
  obtain ⟨before, after, rfl, -⟩ := h
  simp

/-- All elements are the last ones of their keys, if no key is used twice. -/
theorem isLastBy_of_nodup (h : (as.map f).Nodup) (ha : a ∈ as) : IsLastBy f as a := by
  obtain ⟨before, after, rfl⟩ := List.append_of_mem ha
  rw [List.map_append, List.map_cons] at h
  exact ⟨before, after, rfl, (List.nodup_cons.mp (List.nodup_append.mp h).2.1).1⟩

namespace OrderedMap

variable [Ord κ] [Std.TransOrd κ] [Std.LawfulEqOrd κ]

theorem ofList_concat (pairs : List (κ × ν)) (p : κ × ν) :
    ofList (pairs ++ [p]) = (ofList pairs).insert p.1 p.2 := List.foldl_concat ..

/-- A key has the value that was collected last. -/
theorem get?_ofList_map_eq_some_iff [DecidableEq κ] {k : κ} {v : ν} :
    (ofList (as.map fun a => (f a, g a))).get? k = some v ↔
      ∃ a, IsLastBy f as a ∧ f a = k ∧ g a = v := by
  induction as using List.reverseRecOn with
  | nil =>
    refine iff_of_false (fun h => by cases h) ?_
    rintro ⟨a, hlast, -⟩
    exact List.not_mem_nil hlast.mem
  | append_singleton as b ih =>
    simp only [List.map_append, List.map_singleton, ofList_concat, get?_insert,
      isLastBy_concat_iff]
    by_cases hk : f b = k
    · rw [if_pos hk, Option.some.injEq]
      constructor
      · exact fun hv => ⟨b, .inl rfl, hk, hv⟩
      · rintro ⟨a, rfl | ⟨hne, -⟩, hka, hv⟩
        · exact hv
        · exact absurd (hka.trans hk.symm) hne
    · rw [if_neg hk, ih]
      constructor
      · rintro ⟨a, hlast, rfl, hv⟩
        exact ⟨a, .inr ⟨Ne.symm hk, hlast⟩, rfl, hv⟩
      · rintro ⟨a, rfl | ⟨-, hlast⟩, hka, hv⟩
        · exact absurd hka hk
        · exact ⟨a, hlast, hka, hv⟩

/-- The keys of the collected pairs are the keys of a map. -/
theorem mem_keys_ofList {pairs : List (κ × ν)} {k : κ} :
    k ∈ (ofList pairs).keys ↔ k ∈ pairs.map Prod.fst := by
  induction pairs using List.reverseRecOn with
  | nil => exact iff_of_false List.not_mem_nil List.not_mem_nil
  | append_singleton pairs p ih =>
    have hinsert : k ∈ ((ofList pairs).insert p.1 p.2).keys ↔
        k = p.1 ∨ k ∈ (ofList pairs).keys := mem_keys_insertSorted
    rw [ofList_concat, hinsert, ih, List.map_append, List.mem_append, or_comm]
    simp

/-- A map has as many pairs as there are different keys. -/
theorem size_ofList [BEq κ] [LawfulBEq κ] (pairs : List (κ × ν)) :
    (ofList pairs).size = (pairs.map Prod.fst).eraseDups.length := by
  have hperm : (ofList pairs).keys.Perm (pairs.map Prod.fst).eraseDups := by
    refine (List.perm_ext_iff_of_nodup (nodup_keys _) (nodup_eraseDups _)).mpr fun k => ?_
    rw [List.mem_eraseDups]
    exact mem_keys_ofList
  rw [← hperm.length_eq, keys, List.length_map, size]

end OrderedMap

/-- Nothing is left out when each element is listed once only if there are no repetitions. -/
theorem length_eraseDups_eq_iff [BEq α] [LawfulBEq α] :
    as.eraseDups.length = as.length ↔ as.Nodup := by
  constructor
  · intro h
    have hsub : as.eraseDups.Subperm as :=
      (nodup_eraseDups as).subperm fun a ha => List.mem_eraseDups.mp ha
    exact (hsub.perm_of_length_le (Nat.le_of_eq h.symm)).nodup_iff.mp (nodup_eraseDups as)
  · intro h
    rw [eraseDups_of_nodup h]

end LastElements

namespace Manifest

variable {m : Manifest} {spec : BundleSpec}

/-- No two keys of metadata files become the same path. -/
def TellsPathsApart (m : Manifest) : Prop :=
  ∀ k ∈ m.metadata.keys, ∀ l ∈ m.metadata.keys, metadataPath k = metadataPath l → k = l

/-- A checked manifest has the declared modules and metadata files. -/
structure Declares (m : Manifest) (spec : BundleSpec) : Prop where
  modules : spec.modules = m.modules.map ModuleSection.trimmed
  /-- The modules have different names. -/
  names : (spec.modules.map ModuleSource.name).Nodup
  metadata : spec.metadata = m.metadata.toList.map trimmedMetadata
  /-- The metadata files have different paths exactly if no two keys become the same one. -/
  paths : (spec.metadata.map MetadataSource.path).Nodup ↔ m.TellsPathsApart

/-- What there is of the declared metadata files after they were read from a volume. -/
structure KeepsLast (m : Manifest) (v : Volume) (start : String) (metadata : Metadata) : Prop where
  /-- A path has the content of the last file that is declared for it. -/
  content : ∀ path content, metadata.get? path = some content ↔
    ∃ file, IsLastBy (metadataPath ·.1) m.metadata.toList file ∧ metadataPath file.1 = path ∧
      v.readFile (joinPath start (Text.trim file.2)) = .ok content
  /-- There are as many files as there are different paths. -/
  size : metadata.size = (m.metadata.keys.map metadataPath).eraseDups.length
  /-- There are as many files as are declared exactly if no two keys become the same path. -/
  complete : metadata.size = m.metadata.size ↔ m.TellsPathsApart
  /-- In this case each declared file is there with its own content. -/
  each : m.TellsPathsApart → ∀ file ∈ m.metadata.toList,
    ∃ content, v.readFile (joinPath start (Text.trim file.2)) = .ok content ∧
      metadata.get? (metadataPath file.1) = some content

theorem nodup_paths_iff : (m.metadata.keys.map metadataPath).Nodup ↔ m.TellsPathsApart := by
  have hkeys : m.metadata.keys.Nodup := m.metadata.nodup_keys
  rw [List.nodup_map_iff_inj_on hkeys]
  exact ⟨fun h k hk l hl => h k hk l hl, fun h k hk l hl => h k hk l hl⟩

/-- An accepted manifest declares what is in its checked form. -/
theorem Passes.declares (h : m.Passes spec) : m.Declares spec := by
  obtain ⟨hmodules, hnames, -⟩ := modules_of_passes h
  obtain ⟨hmetadata, -⟩ := metadata_of_passes h
  refine ⟨hmodules, hnames, hmetadata, ?_⟩
  rw [← nodup_paths_iff, hmetadata, OrderedMap.keys, List.map_map, List.map_map]
  rfl

end Manifest

/-- The metadata files of a loaded bundle are read one by one, and collected by their paths. -/
theorem Loaded.exists_content {v : Volume} {path : String} {manifest : Manifest}
    {files : List (String × ByteArray)} {b : Bundle} (h : Loaded v path manifest files b) :
    ∃ content : MetadataSource → ByteArray,
      (∀ file ∈ b.spec.metadata,
        v.readFile (joinPath (manifestDirectory path) file.source) = .ok (content file)) ∧
      b.metadata = .ofList (b.spec.metadata.map fun file => (file.path, content file)) := by
  obtain ⟨g, hg, hfiles⟩ := exists_map_of_mapM_eq_ok (f := v.readMetadata (manifestDirectory path))
    (mapM_eq_ok_iff.mpr (h.sources.imp fun _ _ hsource => readMetadata_eq_ok_iff.mpr hsource))
  have hread (file : MetadataSource) (hfile : file ∈ b.spec.metadata) :=
    readMetadata_eq_ok_iff.mp (hg file hfile)
  refine ⟨fun file => (g file).2, fun file hfile => (hread file hfile).2, ?_⟩
  rw [h.collected, hfiles]
  exact congrArg _ (List.map_congr_left fun file hfile => Prod.ext (hread file hfile).1 rfl)

/-- Of the metadata files with one path, a bundle has the one that is declared last. -/
theorem Loaded.keepsLast {v : Volume} {path : String} {manifest : Manifest}
    {files : List (String × ByteArray)} {b : Bundle} (h : Loaded v path manifest files b)
    {m : Manifest} (hmetadata : b.spec.metadata = m.metadata.toList.map Manifest.trimmedMetadata) :
    m.KeepsLast v (manifestDirectory path) b.metadata := by
  obtain ⟨content, hread, hcollected⟩ := h.exists_content
  rw [hmetadata, List.map_map] at hcollected
  rw [hmetadata, List.forall_mem_map] at hread
  have hcontent (q : String) (c : ByteArray) : b.metadata.get? q = some c ↔
      ∃ file, IsLastBy (Manifest.metadataPath ·.1) m.metadata.toList file ∧
        Manifest.metadataPath file.1 = q ∧
        v.readFile (joinPath (manifestDirectory path) (Text.trim file.2)) = .ok c := by
    rw [hcollected]
    refine OrderedMap.get?_ofList_map_eq_some_iff.trans (exists_congr fun file =>
      and_congr_right fun hlast => and_congr_right fun _ => ?_)
    rw [← Except.ok.injEq (ε := FileError), ← hread file hlast.mem]
    rfl
  have hsize : b.metadata.size = (m.metadata.keys.map Manifest.metadataPath).eraseDups.length := by
    rw [hcollected, OrderedMap.size_ofList, OrderedMap.keys, List.map_map, List.map_map]
    rfl
  have hdeclared : m.metadata.size = (m.metadata.keys.map Manifest.metadataPath).length := by
    rw [OrderedMap.size, OrderedMap.keys, List.length_map, List.length_map]
  refine ⟨hcontent, hsize, ?_, fun happart file hfile => ?_⟩
  · rw [hsize, hdeclared, length_eraseDups_eq_iff, Manifest.nodup_paths_iff]
  · have hnodup : (m.metadata.toList.map (Manifest.metadataPath ·.1)).Nodup := by
      have h := Manifest.nodup_paths_iff.mpr happart
      rwa [OrderedMap.keys, List.map_map] at h
    exact ⟨_, hread file hfile,
      (hcontent _ _).mpr ⟨file, isLastBy_of_nodup hnodup hfile, rfl, hread file hfile⟩⟩

/-- An accepted manifest declares modules with different names. Of the metadata files that it
declares for one path, a bundle that is loaded from it has the last one. -/
theorem keepsLast_of_normalize {m : Manifest} {spec : BundleSpec} (h : m.normalize = .ok spec) :
    m.Declares spec ∧ ∀ v path b, Loads v path b → b.spec = spec →
      m.KeepsLast v (manifestDirectory path) b.metadata := by
  have hdeclares := (Manifest.normalize_eq_ok_iff.mp h).declares
  refine ⟨hdeclares, fun v path b hloads hspec => ?_⟩
  obtain ⟨manifest, files, hloaded⟩ := loads_iff.mp hloads
  exact hloaded.keepsLast (hspec ▸ hdeclares.metadata)

/-! A bundle that declares one license twice, under two keys that can become the same path. -/

/-- A manifest with the licenses in two files, the second one under some key. -/
def licenseManifest (key : String) : Manifest where
  version := 1
  metadata := .ofList [("license.txt", "one"), (key, "two")]
  modules := [{ name := "base", path := "m" }]

/-- The text of the manifest. -/
def licenseText (key : String) : String :=
  "manifest_version = 1\n[metadata]\n\"license.txt\" = \"one\"\n\"" ++ key ++
    "\" = \"two\"\n[[modules]]\nname = \"base\"\npath = \"m\"\n"

/-- The content of a license. -/
def licenseContent (source : String) : ByteArray :=
  if source = "one" then "first".toUTF8 else "second".toUTF8

/-- A volume with the manifest, the module and the licenses. -/
def licenseVolume (key : String) : Volume where
  root := [("shardkit.toml", .file (licenseText key).toUTF8),
    ("m", .directory [("a", .file "a".toUTF8)]), ("one", .file "first".toUTF8),
    ("two", .file "second".toUTF8)]
  workingDirectory := []

/-- The files in the volume can be read. -/
theorem readFile_licenseVolume {key name : String} {content : ByteArray}
    (hname : IsFileName name ∧ name.utf8ByteSize ≤ Volume.maxNameSize)
    (hnode : (licenseVolume key).root.lookup name = some (.file content)) :
    (licenseVolume key).readFile name = .ok content :=
  Volume.readFile_of_lookup (v := licenseVolume key) rfl hname.1 hname.2 hnode

/-- The files of the declared licenses have their contents. -/
theorem readFile_license {key : String} {spec : BundleSpec}
    (hmetadata : spec.metadata = (licenseManifest key).metadata.toList.map Manifest.trimmedMetadata)
    {file : MetadataSource} (hfile : file ∈ spec.metadata) :
    (licenseVolume key).readFile file.source = .ok (licenseContent file.source) := by
  rw [hmetadata] at hfile
  obtain ⟨declared, hdeclared, rfl⟩ := List.mem_map.mp hfile
  obtain ⟨hone, htwo⟩ : Text.trim "one" = "one" ∧ Text.trim "two" = "two" := by decide
  rcases List.mem_pair.mp (OrderedMap.mem_of_mem_ofList hdeclared) with rfl | rfl
  · rw [Manifest.trimmedMetadata, hone]
    exact readFile_licenseVolume (by decide) rfl
  · rw [Manifest.trimmedMetadata, htwo]
    change (licenseVolume key).readFile "two" = _
    exact readFile_licenseVolume (by decide) rfl

/-- The module has one entry. -/
theorem readEntries_licenseVolume (key : String) : (licenseVolume key).isDirectory "m" ∧
    (licenseVolume key).readEntries "m" = .ok [⟨"a", "a".toUTF8⟩] := by
  obtain ⟨hdirectory, hlist⟩ := Volume.readDirectory_of_lookup (v := licenseVolume key) rfl
    (by decide : IsFileName "m") (by decide) rfl
  have htree : (Node.directory [("a", .file "a".toUTF8)]).IsTree :=
    .directory (by decide) (by decide) (by simp [Node.IsTree.file])
  have hfits : PathsFit "m" [("a", .file "a".toUTF8)] := by decide
  have hentries : directoryEntries [("a", .file "a".toUTF8)] = [⟨"a", "a".toUTF8⟩] := by
    simp [directoryEntries, filesBelow, Node.files, entryOf, Text.join]
  exact ⟨hdirectory, hentries ▸ (Volume.yieldsIf_readEntries hlist htree).ok hfits⟩

/-- The bundle is loaded if its manifest is accepted. -/
theorem exists_loads_licenseVolume (key : String)
    (hparse : Manifest.parse (licenseText key) = .ok (licenseManifest key))
    (haccepted : (licenseManifest key).normalize.toOption.isSome) :
    ∃ b, (licenseManifest key).normalize = .ok b.spec ∧
      Loads (licenseVolume key) "shardkit.toml" b ∧
      b.modules = [⟨"base", [⟨"a", "a".toUTF8⟩], true⟩] ∧
      b.metadata =
        .ofList (b.spec.metadata.map fun file => (file.path, licenseContent file.source)) := by
  obtain ⟨spec, hspec⟩ := exists_of_isSome_toOption haccepted
  have hdeclares := (Manifest.normalize_eq_ok_iff.mp hspec).declares
  have hdirectory : manifestDirectory "shardkit.toml" = "" := by decide
  refine ⟨⟨spec, [⟨"base", [⟨"a", "a".toUTF8⟩], true⟩], _⟩, hspec,
    loads_iff.mpr ⟨licenseManifest key, spec.metadata.map fun file =>
      (file.path, licenseContent file.source), ?_, hspec, ?_, ?_, rfl⟩, rfl, rfl⟩
  · have htext : String.fromUTF8? (licenseText key).toUTF8 = some (licenseText key) :=
      dif_pos (licenseText key).isValidUTF8
    exact ⟨(licenseText key).toUTF8, licenseText key, readFile_licenseVolume (by decide) rfl,
      by rw [decodeText, htext], hparse⟩
  · have htrimmed : ModuleSection.trimmed ⟨"base", "m", true⟩ = ⟨"base", "m", true⟩ := by decide
    have hmodules : spec.modules = [⟨"base", "m", true⟩] :=
      hdeclares.modules.trans (congrArg (List.cons · []) htrimmed)
    obtain ⟨hmodule, hentries⟩ := readEntries_licenseVolume key
    rw [hmodules, hdirectory]
    exact .cons ⟨hmodule, _, hentries, rfl⟩ .nil
  · rw [hdirectory, List.forall₂_map_right_iff, List.forall₂_same]
    intro file hfile
    rw [joinPath_empty]
    exact ⟨rfl, readFile_license hdeclares.metadata hfile⟩

/-- Two licenses with different paths are both kept. -/
theorem keepsLast_notice : ∃ spec b, (licenseManifest "notice.txt").normalize = .ok spec ∧
    Loads (licenseVolume "notice.txt") "shardkit.toml" b ∧ b.spec = spec ∧
    (licenseManifest "notice.txt").Declares spec ∧
    (licenseManifest "notice.txt").KeepsLast (licenseVolume "notice.txt") "" b.metadata ∧
    (licenseManifest "notice.txt").TellsPathsApart ∧ b.metadata.size = 2 := by
  obtain ⟨b, hspec, hloads, -, -⟩ := exists_loads_licenseVolume "notice.txt"
    (by decide +kernel) (by decide +kernel)
  obtain ⟨hdeclares, hkeeps⟩ := keepsLast_of_normalize hspec
  have hlast : (licenseManifest "notice.txt").KeepsLast (licenseVolume "notice.txt") ""
      b.metadata := hkeeps _ "shardkit.toml" b hloads rfl
  have hapart : (licenseManifest "notice.txt").TellsPathsApart := by
    unfold Manifest.TellsPathsApart
    decide +kernel
  exact ⟨b.spec, b, hspec, hloads, rfl, hdeclares, hlast, hapart, hlast.complete.mpr hapart⟩

/-- Two licenses with the same path are accepted, and one of them is lost: keys are trimmed and
lose their slashes at the beginning before they become paths. -/
theorem exists_lost_metadata_license :
    ∃ spec b, (licenseManifest "/license.txt").normalize = .ok spec ∧
      Loads (licenseVolume "/license.txt") "shardkit.toml" b ∧ b.spec = spec ∧
      spec.metadata = [⟨"license.txt", "two"⟩, ⟨"license.txt", "one"⟩] ∧
      ¬ (spec.metadata.map MetadataSource.path).Nodup ∧
      b.metadata.toList = [("license.txt", "first".toUTF8)] := by
  obtain ⟨b, hspec, hloads, -, hmetadata⟩ := exists_loads_licenseVolume "/license.txt"
    (by decide +kernel) (by decide +kernel)
  have hsources : b.spec.metadata = [⟨"license.txt", "two"⟩, ⟨"license.txt", "one"⟩] := by
    rw [(Manifest.normalize_eq_ok_iff.mp hspec).declares.metadata]
    decide +kernel
  refine ⟨b.spec, b, hspec, hloads, rfl, hsources, ?_, ?_⟩
  · rw [hsources]
    decide
  · rw [hmetadata, hsources]
    decide +kernel

end AppBundle
