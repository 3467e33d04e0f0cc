import AppBundle.Proofs.ArchivedEntries
import AppBundle.Proofs.DeclaredMetadata
import AppBundle.Proofs.FusedEntries
import AppBundle.Proofs.Plan
import AppBundle.Proofs.WrittenPackages

/-!
# Faithful archives

The paths in a package come from directories, from the numbering of dex files and from the manifest.
Names in directories make plain paths, and so do numbers. So an archive stores all paths of a
package as they are if those of the metadata files in the manifest are plain.
-/

namespace AppBundle

namespace Files

mutual

/-- The names below a node. -/
def Node.names : Node → List String
  | .file _ => []
  | .directory children => namesBelow children
  | .link _ => []

/-- The names in a directory, and those below them. -/
def namesBelow : Listing → List String
  | [] => []
  | (name, node) :: rest => name :: (node.names ++ namesBelow rest)

end

/-- All names of a volume are names that files can have. -/
def Volume.HasFileNames (v : Volume) : Prop := ∀ name ∈ namesBelow v.root, IsFileName name

variable {v : Volume} {name path : String} {location : List String}

theorem mem_namesBelow_iff {children : Listing} : name ∈ namesBelow children ↔
    ∃ child ∈ children, name = child.1 ∨ name ∈ child.2.names := by
  induction children with
  | nil => simp [namesBelow]
  | cons child rest ih => simp [namesBelow, ih, or_assoc]

/-- The names below a directory are among those of the whole tree. -/
theorem mem_namesBelow_of_nodeAt? {root children : Listing}
    (h : nodeAt? location root = some (.directory children)) (hname : name ∈ namesBelow children) :
    name ∈ namesBelow root := by
  induction location generalizing root with
  | nil =>
    cases h
    exact hname
  | cons first rest ih =>
    obtain ⟨below, hbelow, hrest⟩ := exists_below_of_nodeAt? h
    obtain ⟨before, after, hroot, -⟩ := List.lookup_eq_some_iff.mp hbelow
    have hchild : (first, Node.directory below) ∈ root := by simp [hroot]
    exact mem_namesBelow_iff.mpr ⟨_, hchild, .inr (ih hrest)⟩

/-- A directory that can be listed is a part of the tree. -/
theorem exists_nodeAt?_of_readDirectory {children : Listing}
    (h : v.readDirectory path = .ok children) :
    ∃ location, nodeAt? location v.root = some (.directory children) := by
  obtain ⟨node, hfind, hnode⟩ := bind_eq_ok_iff.mp h
  obtain ⟨place, hlocate, hplace⟩ := bind_eq_ok_iff.mp hfind
  obtain ⟨parts, -, hfollow⟩ := bind_eq_ok_iff.mp hlocate
  cases place with
  | vacant directory name => cases hplace
  | taken location found =>
    obtain rfl := Except.ok.inj hplace
    cases found with
    | directory below =>
      obtain rfl := Except.ok.inj hnode
      exact ⟨location, Volume.nodeAt?_of_follow hfollow⟩
    | file content => cases hnode
    | link target => cases hnode

/-- Files are found at names of the tree. -/
theorem exists_names_of_collectFiles {levels : Nat} {before : List String} {found : List FoundFile}
    (h : v.collectFiles levels before path = .ok found) {file : FoundFile} (hfile : file ∈ found) :
    ∃ names, names ≠ [] ∧ (∀ name ∈ names, name ∈ namesBelow v.root) ∧
      file.relative = Text.join "/" (before ++ names) := by
  induction levels generalizing before path found with
  | zero => cases h
  | succ levels ih =>
    obtain ⟨kinds, hkinds, h⟩ := bind_eq_ok_iff.mp h
    obtain ⟨children, hlist, hchildren⟩ := bind_eq_ok_iff.mp hkinds
    obtain rfl := Except.ok.inj hchildren
    obtain ⟨location, hlocation⟩ := exists_nodeAt?_of_readDirectory hlist
    obtain ⟨lists, hlists, h⟩ := bind_eq_ok_iff.mp h
    obtain rfl := Except.ok.inj h
    obtain ⟨list, hlist, hfile⟩ := List.mem_flatten.mp hfile
    obtain ⟨child, hchild, hlist⟩ := (mem_iff_of_mapM_eq_ok hlists).mp hlist
    obtain ⟨⟨name, node⟩, hnode, rfl⟩ := List.mem_map.mp hchild
    have hname : name ∈ namesBelow v.root :=
      mem_namesBelow_of_nodeAt? hlocation (mem_namesBelow_iff.mpr ⟨_, hnode, .inl rfl⟩)
    cases node with
    | file content =>
      obtain rfl := Except.ok.inj hlist
      rw [List.mem_singleton.mp hfile]
      exact ⟨[name], by simp, by simpa using hname, rfl⟩
    | directory below =>
      obtain ⟨names, -, hnames, hrelative⟩ := ih hlist hfile
      refine ⟨name :: names, by simp, List.forall_mem_cons.mpr ⟨hname, hnames⟩, ?_⟩
      rw [hrelative, List.append_assoc, List.singleton_append]
    | link target =>
      obtain rfl := Except.ok.inj hlist
      cases hfile

/-- The entries that are read from a directory have plain paths. -/
theorem isPlainPath_of_readEntries {entries : List Entry} {e : Entry} (hnames : v.HasFileNames)
    (h : v.readEntries path = .ok entries) (he : e ∈ entries) : Archive.IsPlainPath e.path := by
  obtain ⟨found, hfound, hentries⟩ := bind_eq_ok_iff.mp h
  obtain ⟨file, hfile, hread⟩ := (mem_iff_of_mapM_eq_ok hentries).mp he
  obtain ⟨content, -, hentry⟩ := bind_eq_ok_iff.mp hread
  obtain ⟨names, hne, hmem, hrelative⟩ :=
    exists_names_of_collectFiles hfound (List.mem_mergeSort.mp hfile)
  rw [← Except.ok.inj hentry, hrelative, List.nil_append]
  exact Archive.isPlainPath_join hne fun name hname => hnames name (hmem name hname)

end Files

open Files Archive

/-- A dex file with a number has a name that files can have. -/
theorem isFileName_numberedDex (n : Nat) : IsFileName ("classes" ++ toString n ++ ".dex") := by
  have hdigits (c : Char) (hc : c ∈ (toString n).toList) : c.isDigit = true := by
    change c ∈ n.repr.toList at hc
    rw [Nat.repr_eq_ofList_toDigits, String.toList_ofList] at hc
    exact Nat.isDigit_of_mem_toDigits (by decide) (by decide) hc
  have hmem {c : Char} : c ∈ ("classes" ++ toString n ++ ".dex").toList ↔
      (c ∈ "classes".toList ∨ c ∈ (toString n).toList) ∨ c ∈ ".dex".toList := by
    rw [String.toList_append, String.toList_append, List.mem_append, List.mem_append]
  have hne {part : String} (hpart : 'c' ∉ part.toList) :
      "classes" ++ toString n ++ ".dex" ≠ part := by
    rintro rfl
    exact hpart (hmem.mpr (.inl (.inl (by decide))))
  have hnot {c : Char} (hc : c ∉ "classes".toList ∧ c.isDigit = false ∧ c ∉ ".dex".toList) :
      c ∉ ("classes" ++ toString n ++ ".dex").toList := by
    rw [hmem]
    rintro ((h | h) | h)
    · exact hc.1 h
    · exact Bool.false_ne_true (hc.2.1.symm.trans (hdigits c h))
    · exact hc.2.2 h
  refine ⟨⟨?_, hne (by decide)⟩, hnot (by decide), hnot (by decide)⟩
  rw [isIdlePart, Bool.or_eq_false_iff]
  exact ⟨decide_eq_false (hne (by decide)), decide_eq_false (hne (by decide))⟩

/-- The number of a dex file makes a plain path. -/
theorem isPlainPath_dexPath (n : Nat) : IsPlainPath (dexPath n) := by
  have hplain {name : String} (hname : IsFileName name) : IsPlainPath ("dex" ++ "/" ++ name) :=
    (isPlainPath_of_isFileName hname).cons (by decide)
  unfold dexPath
  split
  · exact hplain (by decide : IsFileName "classes.dex")
  · have hpath : "dex/classes" ++ toString n ++ ".dex" =
        "dex" ++ "/" ++ ("classes" ++ toString n ++ ".dex") := by
      rw [← String.append_assoc, ← String.append_assoc]
      rfl
    rw [hpath]
    exact hplain (isFileName_numberedDex n)

section Contents

variable {modules : List AppModule} {dimensions : OrderedSet Dimension} {options : ShardingOptions}
variable {metadata : Metadata} {packages : List Package} {p : Package} {e : Entry}

/-- An entry of a package comes from a module, from the numbering of dex files or from the
metadata. -/
theorem cases_of_mem_entries (h : shardBundle modules dimensions options metadata = .ok packages)
    (hp : p ∈ packages) (he : e ∈ p.entries) :
    (∃ m ∈ modules, e ∈ m.entries) ∨ (∃ n, e.path = dexPath n) ∨ e ∈ metadataEntries metadata := by
  obtain ⟨splits, hsplits, -, hpackages⟩ := shardBundle_eq_ok_iff.mp h
  obtain ⟨point, -, hfuse⟩ := exists_of_mem_of_forall₂ hpackages hp
  have hmodule {s : Split} (hs : s ∈ shardAt splits point) (hes : e ∈ s.entries) :
      ∃ m ∈ modules, e ∈ m.entries := by
    obtain ⟨m, hm, hpart⟩ := exists_isPart hsplits (mem_of_mem_shardAt hs)
    exact ⟨m, hm, hpart.entries e hes⟩
  rw [Package.mem_entries_of_fuse hfuse, fusedEntries, List.mem_append, List.mem_append] at he
  rcases he with (hcommon | hdex) | hmetadata
  · obtain ⟨-, s, hs, hes, -⟩ := mem_commonEntries.mp hcommon
    exact .inl (hmodule hs hes)
  · by_cases hlength : (dexByModule (shardAt splits point)).length ≤ 1
    · rw [packageDex_of_length_le hlength, (flatten_dexByModule_perm _).mem_iff] at hdex
      obtain ⟨s, hs, hes⟩ := List.mem_flatMap.mp (List.mem_filter.mp hdex).1
      exact .inl (hmodule hs hes)
    · have hpath : e.path ∈ (packageDex (shardAt splits point)).map Entry.path :=
        List.mem_map_of_mem hdex
      rw [packageDex_of_lt_length (Nat.lt_of_not_le hlength), path_numberDex] at hpath
      obtain ⟨i, -, hi⟩ := List.mem_map.mp hpath
      exact .inr (.inl ⟨i + 1, hi.symm⟩)
  · exact .inr (.inr hmetadata)

/-- All metadata files are in each package. -/
theorem mem_entries_of_metadata
    (h : shardBundle modules dimensions options metadata = .ok packages) (hp : p ∈ packages)
    (he : e ∈ metadataEntries metadata) : e ∈ p.entries := by
  obtain ⟨splits, -, -, hpackages⟩ := shardBundle_eq_ok_iff.mp h
  obtain ⟨point, -, hfuse⟩ := exists_of_mem_of_forall₂ hpackages hp
  rw [Package.mem_entries_of_fuse hfuse, fusedEntries]
  exact List.mem_append_right _ he

end Contents

/-- A package is written to an archive that stores its paths as they are. -/
def Package.StoresPaths (p : Package) : Prop :=
  ∃ archive, Archive.write p.entries = .ok archive ∧
    HasNames archive p.entries (p.entries.map fun e => bytesOf e.path)

theorem Package.storesPaths_iff {p : Package} :
    p.StoresPaths ↔ ∀ e ∈ p.entries, NamedAs e (bytesOf e.path) := by
  rw [StoresPaths, hasNames_iff, List.forall₂_map_right_iff, List.forall₂_same]

section Loaded

variable {v : Volume} {path : String} {b : Bundle}

/-- The paths of the metadata in a loaded bundle are those in its manifest. -/
theorem Loaded.mem_keys_iff {manifest : Manifest} {files : List (String × ByteArray)}
    (h : Loaded v path manifest files b) {q : String} :
    q ∈ b.metadata.keys ↔ ∃ file ∈ b.spec.metadata, file.path = q := by
  obtain ⟨content, -, hcollected⟩ := h.exists_content
  rw [hcollected, OrderedMap.mem_keys_ofList, List.map_map, List.mem_map]
  rfl

/-- The modules of a loaded bundle have plain paths. -/
theorem Loaded.isPlainPath {manifest : Manifest} {files : List (String × ByteArray)}
    (h : Loaded v path manifest files b) (hnames : v.HasFileNames) {m : AppModule}
    (hm : m ∈ b.modules) {e : Entry} (he : e ∈ m.entries) : IsPlainPath e.path := by
  obtain ⟨source, -, -, entries, hread, rfl⟩ := exists_of_mem_of_forall₂ h.modules hm
  exact isPlainPath_of_readEntries hnames hread he

section Packages

variable {manifest : Manifest} {files : List (String × ByteArray)}
variable {dimensions : OrderedSet Dimension} {options : ShardingOptions} {packages : List Package}
variable {p : Package}

/-- The paths of a package are plain if those of the metadata files are. -/
theorem Loaded.isPlainPath_of_mem_entries (hloaded : Loaded v path manifest files b)
    (hnames : v.HasFileNames)
    (h : shardBundle b.modules dimensions options b.metadata = .ok packages) (hp : p ∈ packages)
    (hplain : ∀ file ∈ b.spec.metadata, IsPlainPath file.path) {e : Entry} (he : e ∈ p.entries) :
    IsPlainPath e.path := by
  have hdirectory : IsFileName metadataDirectory := by decide
  rcases cases_of_mem_entries h hp he with ⟨m, hm, hem⟩ | ⟨n, hn⟩ | hmetadata
  · exact hloaded.isPlainPath hnames hm hem
  · exact hn ▸ isPlainPath_dexPath n
  · obtain ⟨q, hq, hpath⟩ := mem_metadataEntries.mp hmetadata
    obtain ⟨file, hfile, rfl⟩ := hloaded.mem_keys_iff.mp
      (List.mem_map_of_mem (OrderedMap.get?_eq_some_iff.mp hq))
    exact hpath ▸ (hplain file hfile).cons hdirectory

/-- The path of a metadata file that fits into a header is plain, if all paths are stored. -/
theorem Loaded.isPlainPath_of_storesPaths (hloaded : Loaded v path manifest files b)
    (h : shardBundle b.modules dimensions options b.metadata = .ok packages) (hp : p ∈ packages)
    (hstores : p.StoresPaths) {file : MetadataSource} (hfile : file ∈ b.spec.metadata)
    (hsize : (metadataDirectory ++ "/" ++ file.path).utf8ByteSize < nameSize) :
    IsPlainPath file.path := by
  have hdirectory : IsFileName metadataDirectory := by decide
  obtain ⟨-, hne⟩ := Manifest.metadata_of_passes (Manifest.normalize_eq_ok_iff.mp hloaded.checked)
  obtain ⟨⟨q, content⟩, hq, hpath⟩ := List.mem_map.mp
    (hloaded.mem_keys_iff.mpr ⟨file, hfile, rfl⟩)
  obtain rfl : q = file.path := hpath
  have he : (⟨metadataDirectory ++ "/" ++ file.path, content⟩ : Entry) ∈ p.entries :=
    mem_entries_of_metadata h hp (mem_metadataEntries.mpr
      ⟨file.path, OrderedMap.get?_eq_some_iff.mpr hq, rfl⟩)
  have hleads : ∃ part ∈ Text.split '/' (metadataDirectory ++ "/" ++ file.path),
      isIdlePart part = false := by
    rw [Text.split_append_of_not_mem slash_toList hdirectory.slash]
    exact ⟨metadataDirectory, List.mem_cons_self, hdirectory.idle⟩
  exact (isPlainPath_of_namedAs (Package.storesPaths_iff.mp hstores _ he) hsize hleads).of_cons
    hdirectory.slash (hne file hfile)

end Packages

/-- The packages of a loaded bundle have different paths. An archive stores all of them as they
are if the paths of the metadata files are plain, and those that fit into headers only then. -/
theorem storesPaths_of_loads (hnames : v.HasFileNames) (hloads : Loads v path b)
    {dimensions : OrderedSet Dimension} {options : ShardingOptions} {packages : List Package}
    (h : shardBundle b.modules dimensions options b.metadata = .ok packages) :
    ∀ p ∈ packages, (p.entries.map fun e => bytesOf e.path).Nodup ∧
      ((∀ file ∈ b.spec.metadata, IsPlainPath file.path) → p.StoresPaths) ∧
      (p.StoresPaths → ∀ file ∈ b.spec.metadata,
        (metadataDirectory ++ "/" ++ file.path).utf8ByteSize < nameSize →
          IsPlainPath file.path) := by
  intro p hp
  obtain ⟨manifest, files, hloaded⟩ := loads_iff.mp hloads
  refine ⟨?_, fun hplain => ?_, fun hstores file hfile hsize => ?_⟩
  · have hpaths := (List.nodup_map_iff_inj_on p.nodup_paths).mpr
      fun s _ t _ hst => bytesOf_inj.mp hst
    rwa [List.map_map] at hpaths
  · exact Package.storesPaths_iff.mpr fun e he =>
      namedAs_of_isPlainPath (hloaded.isPlainPath_of_mem_entries hnames h hp hplain he)
  · exact hloaded.isPlainPath_of_storesPaths h hp hstores hfile hsize

end Loaded

/-- The only package of a bundle is known by its entries. -/
theorem exists_package_of_map {x : Except ShardError (List Package)} {entries : List Entry}
    (h : x.toOption.map (·.map Package.entries) = some [entries]) :
    ∃ p, x = .ok [p] ∧ p.entries = entries := by
  cases x with
  | error e => cases h
  | ok packages =>
    obtain ⟨p, hp, hentries⟩ := List.map_eq_singleton_iff.mp (Option.some.inj h)
    exact ⟨p, by rw [hp], hentries⟩

/-- An archive stores the plain paths of two licenses. -/
theorem storesPaths_notice : ∃ b p, (licenseVolume "notice.txt").HasFileNames ∧
    Loads (licenseVolume "notice.txt") "shardkit.toml" b ∧
    shardBundle b.modules ∅ {} b.metadata = .ok [p] ∧
    (∀ file ∈ b.spec.metadata, IsPlainPath file.path) ∧ p.StoresPaths ∧
    (p.entries.map fun e => bytesOf e.path).Nodup := by
  obtain ⟨b, hspec, hloads, hmodules, hmetadata⟩ := exists_loads_licenseVolume "notice.txt"
    (by decide +kernel) (by decide +kernel)
  have hsources : b.spec.metadata = [⟨"license.txt", "one"⟩, ⟨"notice.txt", "two"⟩] := by
    rw [(Manifest.normalize_eq_ok_iff.mp hspec).declares.metadata]
    decide +kernel
  have hnames : (licenseVolume "notice.txt").HasFileNames := by
    unfold Volume.HasFileNames
    decide +kernel
  have hplain : ∀ file ∈ b.spec.metadata, IsPlainPath file.path := by
    rw [hsources]
    simp only [List.forall_mem_cons]
    exact ⟨isPlainPath_of_isFileName (by decide), isPlainPath_of_isFileName (by decide), by simp⟩
  obtain ⟨p, hp, -⟩ : ∃ p, shardBundle b.modules ∅ {} b.metadata = .ok [p] ∧ p.entries =
      [⟨"BUNDLE-METADATA/license.txt", "first".toUTF8⟩,
        ⟨"BUNDLE-METADATA/notice.txt", "second".toUTF8⟩, ⟨"a", "a".toUTF8⟩] := by
    rw [hmodules, hmetadata, hsources]
    exact exists_package_of_map (by decide +kernel)
  obtain ⟨hnodup, hstores, -⟩ :=
    storesPaths_of_loads hnames hloads hp p (List.mem_singleton_self p)
  exact ⟨b, p, hnames, hloads, hp, hplain, hstores hplain, hnodup⟩

/-- Two licenses with different paths get one name: points in a path are left out. -/
theorem exists_same_name_license : ∃ b p, Loads (licenseVolume "./license.txt") "shardkit.toml" b ∧
    shardBundle b.modules ∅ {} b.metadata = .ok [p] ∧
    p.entries.map Entry.path =
      ["BUNDLE-METADATA/./license.txt", "BUNDLE-METADATA/license.txt", "a"] ∧
    ∃ archive, Archive.write p.entries = .ok archive ∧
      HasNames archive p.entries [bytesOf "BUNDLE-METADATA/license.txt",
        bytesOf "BUNDLE-METADATA/license.txt", bytesOf "a"] := by
  obtain ⟨b, hspec, hloads, hmodules, hmetadata⟩ := exists_loads_licenseVolume "./license.txt"
    (by decide +kernel) (by decide +kernel)
  have hsources : b.spec.metadata = [⟨"./license.txt", "two"⟩, ⟨"license.txt", "one"⟩] := by
    rw [(Manifest.normalize_eq_ok_iff.mp hspec).declares.metadata]
    decide +kernel
  obtain ⟨p, hp, hentries⟩ : ∃ p, shardBundle b.modules ∅ {} b.metadata = .ok [p] ∧ p.entries =
      [⟨"BUNDLE-METADATA/./license.txt", "second".toUTF8⟩,
        ⟨"BUNDLE-METADATA/license.txt", "first".toUTF8⟩, ⟨"a", "a".toUTF8⟩] := by
    rw [hmodules, hmetadata, hsources]
    exact exists_package_of_map (by decide +kernel)
  have hnamed {e : Entry} {name : String} (hcomplete : (copyName false e.path).complete = true)
      (hname : storedName e.path = name) : NamedAs e (bytesOf name) :=
    hname ▸ namedAs_of_isStorable (copyName_complete_iff.mp hcomplete)
  refine ⟨b, p, hloads, hp, by rw [hentries]; rfl, hasNames_iff.mpr ?_⟩
  rw [hentries]
  exact .cons (hnamed (by decide +kernel) (by decide +kernel))
    (.cons (hnamed (by decide +kernel) (by decide +kernel))
      (.cons (hnamed (by decide +kernel) (by decide +kernel)) .nil))

end AppBundle
