import AppBundle.Proofs.ByteOrder
import AppBundle.Proofs.FoundFiles

/-!
# Directories of modules

The files of a module are read from a tree of directories. Each file that is reached through
directories becomes one entry, and links and empty directories become nothing. The entries come in
the order of their paths, which is not the order of a walk through the tree: `a-b` comes before
`a/b`, and all of `a` is walked before or after `a-b`. So the entries do not depend on the order in
which the directories are listed. A tree is not read at all if some path in it is too long.
-/

namespace AppBundle

open Files Archive

variable {children others : Listing} {entries : List Entry} {names : List String}
variable {content : ByteArray} {e : Entry}

/-- Some entries are those of the files below a directory. -/
structure AreFilesBelow (children : Listing) (entries : List Entry) : Prop where
  /-- There are no other entries than those of files that the directory leads to: links, empty
  directories and what links stand for have none. -/
  mem_iff : ∀ e, e ∈ entries ↔ ∃ names, (Node.directory children).Reaches names (.file e.content) ∧
    e.path = Text.join "/" names
  /-- Each file has one entry, at the path of the names that lead to it. -/
  each : ∀ names content, (Node.directory children).Reaches names (.file content) →
    entries.filter (·.path = Text.join "/" names) = [⟨Text.join "/" names, content⟩]
  /-- Different files have different paths. -/
  apart : ∀ names content names' content', (Node.directory children).Reaches names (.file content) →
    (Node.directory children).Reaches names' (.file content') →
    Text.join "/" names = Text.join "/" names' → names = names' ∧ content = content'
  /-- No two entries have the same path. -/
  nodup : (entries.map Entry.path).Nodup
  /-- The entries come in the order of the bytes of their paths. -/
  increasing : (entries.map Entry.path).Pairwise fun path path' => bytesOf path < bytesOf path'

section Tree

variable (htree : (Node.directory children).IsTree)
include htree

/-- Files in a tree have different paths. -/
theorem names_eq_of_join_eq {names' : List String} {content' : ByteArray}
    (h : (Node.directory children).Reaches names (.file content))
    (h' : (Node.directory children).Reaches names' (.file content'))
    (hpath : Text.join "/" names = Text.join "/" names') : names = names' := by
  have hnames {names : List String} {content : ByteArray}
      (h : (Node.directory children).Reaches names (.file content)) :
      names ≠ [] ∧ ∀ name ∈ names, '/' ∉ name.toList := by
    refine ⟨?_, fun name hname => (h.isFileName htree name hname).slash⟩
    rintro rfl
    cases Node.reaches_nil_iff.mp h
  exact Text.join_injective_of_ne_nil rfl (hnames h) (hnames h') hpath

/-- The entries of a tree have different paths. -/
theorem nodup_directoryEntries : ((directoryEntries children).map Entry.path).Nodup := by
  have hplaces := Node.nodup_files htree
  rw [Node.files] at hplaces
  have hpaths : ((filesBelow children).map entryOf).map Entry.path =
      ((filesBelow children).map Prod.fst).map (Text.join "/") := by
    rw [List.map_map, List.map_map]
    rfl
  rw [directoryEntries, ((List.mergeSort_perm _ _).map Entry.path).nodup_iff, hpaths]
  refine hplaces.map_on fun names hmem names' hmem' hpath => ?_
  obtain ⟨⟨names, content⟩, hfile, rfl⟩ := List.mem_map.mp hmem
  obtain ⟨⟨names', content'⟩, hfile', rfl⟩ := List.mem_map.mp hmem'
  rw [← Node.files, Node.mem_files_iff] at hfile hfile'
  exact names_eq_of_join_eq htree hfile hfile' hpath

omit htree in
/-- The entries of a directory are those of the files that it leads to. -/
theorem mem_directoryEntries_iff : e ∈ directoryEntries children ↔
    ∃ names, (Node.directory children).Reaches names (.file e.content) ∧
      e.path = Text.join "/" names := by
  simp only [mem_directoryEntries, ← Node.mem_files_iff, Node.files]
  constructor
  · rintro ⟨f, hf, rfl⟩
    exact ⟨f.1, hf, rfl⟩
  · rintro ⟨names, hf, hpath⟩
    exact ⟨_, hf, Entry.ext hpath.symm rfl⟩

/-- The entries of a tree come in the order of the bytes of their paths. -/
theorem pairwise_bytesOf_directoryEntries : ((directoryEntries children).map Entry.path).Pairwise
    fun path path' => bytesOf path < bytesOf path' := by
  have hnodup := List.pairwise_map.mp (nodup_directoryEntries htree)
  rw [List.pairwise_map]
  refine (hnodup.and (directoryEntries_pairwise children)).imp fun {a b} hab => ?_
  obtain ⟨hne, hbefore⟩ := hab
  rw [bytesOf_lt_iff]
  cases hcompare : compare a.path b.path with
  | lt => rfl
  | eq => exact absurd (Std.LawfulEqOrd.eq_of_compare hcompare) hne
  | gt => simp [pathBefore, hcompare] at hbefore

/-- The entries that are read from a tree are those of its files. -/
theorem areFilesBelow_directoryEntries : AreFilesBelow children (directoryEntries children) where
  mem_iff _ := mem_directoryEntries_iff
  each names content h := by
    have hmem : ⟨Text.join "/" names, content⟩ ∈ directoryEntries children :=
      mem_directoryEntries_iff.mpr ⟨names, h, rfl⟩
    exact filter_eq_singleton (nodup_directoryEntries htree) hmem
  apart names content names' content' h h' hpath := by
    have hnames := names_eq_of_join_eq htree h h' hpath
    refine ⟨hnames, ?_⟩
    subst hnames
    have hsame := List.inj_on_of_nodup_map (Node.nodup_files htree) (Node.mem_files_iff.mpr h)
      (Node.mem_files_iff.mpr h') rfl
    exact congrArg Prod.snd hsame
  nodup := nodup_directoryEntries htree
  increasing := pairwise_bytesOf_directoryEntries htree

end Tree

/-- There is one list of entries for the files below directories that lead to the same files. -/
theorem AreFilesBelow.unique {entries' : List Entry} (h : AreFilesBelow children entries)
    (h' : AreFilesBelow others entries')
    (hsame : ∀ names content, (Node.directory children).Reaches names (.file content) ↔
      (Node.directory others).Reaches names (.file content)) : entries = entries' := by
  have hperm : entries.Perm entries' := by
    refine (List.perm_ext_iff_of_nodup (.of_map _ h.nodup) (.of_map _ h'.nodup)).mpr fun e => ?_
    simp only [h.mem_iff, h'.mem_iff, hsame]
  have hincreasing := (List.pairwise_map (f := Entry.path)).mp h.increasing
  have hincreasing' := (List.pairwise_map (f := Entry.path)).mp h'.increasing
  refine hperm.eq_of_pairwise (fun e f _ _ hef hfe => ?_) hincreasing hincreasing'
  exact absurd hfe (List.lt_asymm hef)

/-- The order in which directories are listed makes no difference for the paths below them. -/
theorem pathsFit_iff_of_isRelisted {path : String}
    (h : (Node.directory children).IsRelisted (.directory others)) :
    PathsFit path children ↔ PathsFit path others := by
  have hsame (names : List String) (shape : Shape) :
      (Node.directory children).Reaches names shape ↔ (Node.directory others).Reaches names shape :=
    h.reaches_iff
  constructor
  · exact fun hfit => ⟨fun names hnames => hfit.directories names ((hsame _ _).mpr hnames),
      fun names content hfile => hfit.files names content ((hsame _ _).mpr hfile)⟩
  · exact fun hfit => ⟨fun names hnames => hfit.directories names ((hsame _ _).mp hnames),
      fun names content hfile => hfit.files names content ((hsame _ _).mp hfile)⟩

/-- A tree has one list of entries. Reading a directory with this tree gives this list, wherever the
directory is and in whatever order it is listed, if the paths of all directories and files in it are
short enough. Otherwise reading fails, since one of them is too long. -/
theorem readEntries_outcomes (htree : (Node.directory children).IsTree) :
    ∃ entries, AreFilesBelow children entries ∧
      ∀ (v : Volume) (path : String) (others : Listing), v.readDirectory path = .ok others →
        (Node.directory children).IsRelisted (.directory others) →
          (PathsFit path children →
            (readEntries path : ExceptT FileError (StateM Volume) (List Entry)).run.run v =
              (.ok entries, v)) ∧
          (¬ PathsFit path children →
            (readEntries path : ExceptT FileError (StateM Volume) (List Entry)).run.run v =
              (.error .nameTooLong, v)) := by
  refine ⟨_, areFilesBelow_directoryEntries htree, fun v path others hlist h => ?_⟩
  have hothers := h.isTree htree
  have hentries : directoryEntries others = directoryEntries children :=
    (areFilesBelow_directoryEntries hothers).unique (areFilesBelow_directoryEntries htree)
      fun _ _ => h.reaches_iff.symm
  have hyields := (Volume.yieldsIf_readEntries hlist hothers).of_iff (pathsFit_iff_of_isRelisted h)
  rw [hentries] at hyields
  have hrun := readsAs_readEntries path v
  exact ⟨fun hfit => hrun.trans (congrArg (·, v) (hyields.ok hfit)),
    fun hlong => hrun.trans (congrArg (·, v) (hyields.error hlong))⟩

/-- A directory with a file that is listed behind another directory and has a path before those in
it, with a link and an empty directory. -/
def sampleTree : Listing :=
  [("a", .directory [("b", .file ⟨#[1]⟩), ("empty", .directory [])]), ("a-b", .file ⟨#[2]⟩),
    ("latest", .link "a")]

/-- The same directory, listed in another order. -/
def relistedTree : Listing :=
  [("latest", .link "a"), ("a", .directory [("empty", .directory []), ("b", .file ⟨#[1]⟩)]),
    ("a-b", .file ⟨#[2]⟩)]

/-- A volume with the sample in both orders. -/
def treeVolume : Volume where
  root := [("first", .directory sampleTree), ("second", .directory relistedTree)]
  workingDirectory := []

/-- The sample is a tree. -/
theorem isTree_sampleTree : (Node.directory sampleTree).IsTree := by
  refine .directory (by decide) (by decide) ?_
  simp only [sampleTree, List.forall_mem_cons, List.not_mem_nil, false_implies, implies_true,
    and_true]
  refine ⟨.directory (by decide) (by decide) ?_, .file _, .link _⟩
  simp only [List.forall_mem_cons, List.not_mem_nil, false_implies, implies_true, and_true]
  exact ⟨.file _, .directory (by decide) (by decide) (by simp)⟩

/-- The other order is an order of the same tree. -/
theorem isRelisted_sampleTree :
    (Node.directory sampleTree).IsRelisted (.directory relistedTree) := by
  have hinside : (Node.directory [("b", .file ⟨#[1]⟩), ("empty", .directory [])]).IsRelisted
      (.directory [("empty", .directory []), ("b", .file ⟨#[1]⟩)]) := .listed (.swap _ _ [])
  have hnames (first second third : String × Node) :
      [first, second, third].Perm [third, first, second] :=
    @List.perm_append_comm _ [first, second] [third]
  exact .trans (@Node.IsRelisted.inside [] _ "a" _ _ hinside) (.listed (hnames _ _ _))

/-- The sample is read in the order of its paths, whatever the order in which it is listed. -/
theorem readEntries_treeVolume :
    (Node.directory sampleTree).IsTree ∧
      ∃ entries, AreFilesBelow sampleTree entries ∧ entries.map Entry.path = ["a-b", "a/b"] ∧
        ∀ path ∈ ["first", "second"],
          (readEntries path : ExceptT FileError (StateM Volume) (List Entry)).run.run treeVolume =
            (.ok entries, treeVolume) := by
  have hfirst := (Volume.readDirectory_of_lookup (v := treeVolume) rfl
    (by decide : IsFileName "first") (by decide) rfl).2
  have hsecond := (Volume.readDirectory_of_lookup (v := treeVolume) rfl
    (by decide : IsFileName "second") (by decide) rfl).2
  obtain ⟨entries, hentries, hreads⟩ := readEntries_outcomes isTree_sampleTree
  refine ⟨isTree_sampleTree, entries, hentries, ?_, ?_⟩
  · obtain rfl := hentries.unique (areFilesBelow_directoryEntries isTree_sampleTree) fun _ _ => .rfl
    have hbefore : pathBefore ⟨"a/b", ⟨#[1]⟩⟩ ⟨"a-b", ⟨#[2]⟩⟩ = false := by decide
    simp [directoryEntries, sampleTree, filesBelow, Node.files, entryOf, Text.join, List.mergeSort,
      hbefore]
  · simp only [List.forall_mem_cons, List.not_mem_nil, false_implies, implies_true, and_true]
    exact ⟨(hreads _ _ _ hfirst (.refl _)).1 (by decide),
      (hreads _ _ _ hsecond isRelisted_sampleTree).1 (by decide)⟩

/-! A tree that is not read at all. -/

/-- A name of 250 bytes. -/
def longName : String := .ofList (List.replicate 250 'n')

/-- The name is one that files can have. -/
theorem isFileName_longName : IsFileName longName := by
  have hlist : longName.toList = List.replicate 250 'n' := String.toList_ofList
  have hchars {c : Char} (hc : c ∈ longName.toList) : c = 'n' :=
    List.eq_of_mem_replicate (hlist ▸ hc)
  refine ⟨⟨by decide +kernel, by decide +kernel⟩, ?_, ?_⟩
  · intro hslash
    exact absurd (hchars hslash) (by decide)
  · intro hzero
    exact absurd (hchars hzero) (by decide)

/-- An empty file below some directories, all with the long name. -/
def deepTree : (levels : Nat) → Listing
  | 0 => [(longName, .file ⟨#[]⟩)]
  | levels + 1 => [(longName, .directory (deepTree levels))]

/-- A volume with sixteen directories below each other, and the file in the last of them. -/
def deepVolume : Volume where
  root := [("m", .directory (deepTree 16))]
  workingDirectory := []

theorem isTree_deepTree (levels : Nat) : (Node.directory (deepTree levels)).IsTree := by
  have hone {node : Node} (hnode : node.IsTree) : (Node.directory [(longName, node)]).IsTree :=
    .directory (by simp [isFileName_longName]) (by simp) (by simp [hnode])
  induction levels with
  | zero => exact hone (.file _)
  | succ levels ih => exact hone ih

theorem reaches_deepTree (levels : Nat) : (Node.directory (deepTree levels)).Reaches
    (List.replicate (levels + 1) longName) (.file ⟨#[]⟩) := by
  induction levels with
  | zero => exact .inside List.mem_cons_self (.here rfl)
  | succ levels ih => exact .inside List.mem_cons_self ih

/-- The path of the file is too long if there are many directories. -/
theorem not_pathsFit_deepTree {path : String} (hpath : path ≠ "") {levels : Nat}
    (hlevels : 16 ≤ levels) : ¬ PathsFit path (deepTree levels) := by
  intro h
  have hsize : 250 ≤ longName.utf8ByteSize := by decide +kernel
  have hnames : ∀ name ∈ List.replicate (levels + 1) longName,
      '/' ∉ name.toList ∧ 250 ≤ name.utf8ByteSize := by
    intro name hname
    rw [List.eq_of_mem_replicate hname]
    exact ⟨isFileName_longName.slash, hsize⟩
  have hlong := size_le_pathBelow hpath hnames
  have hshort : (pathBelow path (List.replicate (levels + 1) longName)).utf8ByteSize ≤ 4095 :=
    (h.files _ _ (reaches_deepTree levels)).path
  rw [List.length_replicate] at hlong
  omega

/-- A file with seventeen long names on its way is not read: its path has more than 4095 bytes. So
reading a tree with one file gives no entry for it. -/
theorem readEntries_deepVolume :
    (Node.directory (deepTree 16)).IsTree ∧ deepVolume.readDirectory "m" = .ok (deepTree 16) ∧
      (Node.directory (deepTree 16)).Reaches (List.replicate 17 longName) (.file ⟨#[]⟩) ∧
      (readEntries "m" : ExceptT FileError (StateM Volume) (List Entry)).run.run deepVolume =
        (.error .nameTooLong, deepVolume) := by
  have hlist := (Volume.readDirectory_of_lookup (v := deepVolume) rfl
    (by decide : IsFileName "m") (by decide) rfl).2
  have hyields := Volume.yieldsIf_readEntries hlist (isTree_deepTree 16)
  have hlong : ¬ PathsFit "m" (deepTree 16) := not_pathsFit_deepTree (by decide) (Nat.le_refl 16)
  have hrun := readsAs_readEntries "m" deepVolume
  exact ⟨isTree_deepTree 16, hlist, reaches_deepTree 16,
    hrun.trans (congrArg (·, deepVolume) (hyields.error hlong))⟩

end AppBundle
