import AppBundle.Proofs.DirectoryTrees
import AppBundle.Proofs.LoadedBundles
import AppBundle.Proofs.PathsBelow

/-!
# Files that are found below a directory

Directories are opened and files are read at paths that begin with the path of a directory. So all
files of a tree are found and read if none of these paths is too long, and reading fails otherwise.
The number of levels that are searched makes no difference: a path that goes down more levels than
it can have bytes is too long.
-/

namespace AppBundle

open Files

namespace Files

/-- The path of what some names lead to from a directory. -/
def pathBelow (path : String) (names : List String) : String := names.foldl joinPath path

/-- A path and the names that are joined to it are short enough to be looked up. -/
structure FitsBelow (path : String) (names : List String) : Prop where
  path : (pathBelow path names).utf8ByteSize ≤ Volume.maxPathSize
  names : ∀ name ∈ names, name.utf8ByteSize ≤ Volume.maxNameSize

/-- All directories below a directory have paths and names that are short enough. -/
def DirectoriesFit (path : String) (children : Listing) : Prop :=
  ∀ names, (Node.directory children).Reaches names .directory → FitsBelow path names

/-- All directories and files below a directory have paths and names that are short enough. -/
structure PathsFit (path : String) (children : Listing) : Prop where
  directories : DirectoriesFit path children
  files : ∀ names content, (Node.directory children).Reaches names (.file content) →
    FitsBelow path names

variable {path name : String} {names : List String} {children below : Listing} {node : Node}
variable {shape : Shape} {content : ByteArray}

theorem fitsBelow_cons_iff : FitsBelow path (name :: names) ↔
    name.utf8ByteSize ≤ Volume.maxNameSize ∧ FitsBelow (joinPath path name) names := by
  constructor
  · intro h
    obtain ⟨hname, hnames⟩ := List.forall_mem_cons.mp h.names
    exact ⟨hname, h.path, hnames⟩
  · rintro ⟨hname, hpath, hnames⟩
    exact ⟨hpath, List.forall_mem_cons.mpr ⟨hname, hnames⟩⟩

theorem fitsBelow_singleton_iff : FitsBelow path [name] ↔ Volume.FitsAt path name := by
  rw [fitsBelow_cons_iff]
  constructor
  · rintro ⟨hname, hpath, -⟩
    exact ⟨hpath, hname⟩
  · rintro ⟨hpath, hname⟩
    exact ⟨hname, hpath, by simp⟩

/-- A path gets longer by each name that is joined to it. -/
theorem size_le_pathBelow {size : Nat} (hpath : path ≠ "")
    (hnames : ∀ name ∈ names, '/' ∉ name.toList ∧ size ≤ name.utf8ByteSize) :
    path.utf8ByteSize + names.length * size ≤ (pathBelow path names).utf8ByteSize := by
  induction names generalizing path with
  | nil => simp [pathBelow]
  | cons name rest ih =>
    obtain ⟨⟨hslash, hname⟩, hrest⟩ := List.forall_mem_cons.mp hnames
    have hfirst := size_le_joinPath hpath hslash
    have hothers := ih (joinPath_ne_empty hpath hslash) hrest
    rw [List.length_cons, Nat.succ_mul, pathBelow, List.foldl_cons, ← pathBelow]
    omega

instance (path : String) (names : List String) : Decidable (FitsBelow path names) :=
  decidable_of_iff ((pathBelow path names).utf8ByteSize ≤ Volume.maxPathSize ∧
      ∀ name ∈ names, name.utf8ByteSize ≤ Volume.maxNameSize)
    ⟨fun h => ⟨h.1, h.2⟩, fun h => ⟨h.path, h.names⟩⟩

/-- Something is a symbolic link. -/
def Shape.isLink : Shape → Bool
  | .link _ => true
  | _ => false

/-- All that a directory leads to fits, but for links. -/
theorem pathsFit_iff : PathsFit path children ↔
    ∀ place ∈ (Node.directory children).places, place.2.isLink ∨ FitsBelow path place.1 := by
  constructor
  · rintro h ⟨names, shape⟩ hplace
    have hnames := Node.mem_places_iff.mp hplace
    cases shape with
    | file content => exact .inr (h.files names content hnames)
    | directory => exact .inr (h.directories names hnames)
    | link target => exact .inl rfl
  · intro h
    constructor
    · intro names hnames
      exact (h _ (Node.mem_places_iff.mpr hnames)).resolve_left Bool.false_ne_true
    · intro names content hfile
      exact (h _ (Node.mem_places_iff.mpr hfile)).resolve_left Bool.false_ne_true

instance (path : String) (children : Listing) : Decidable (PathsFit path children) :=
  decidable_of_iff _ pathsFit_iff.symm

/-- Whatever leads to a directory begins with a directory. -/
theorem Node.Reaches.exists_directory (h : node.Reaches names .directory) :
    ∃ below, node = .directory below := by
  cases h with
  | here hshape => exact Node.shape_eq_directory_iff.mp hshape
  | inside => exact ⟨_, rfl⟩

/-- All directories fit if those in a directory do, and those below them. -/
theorem directoriesFit_iff : DirectoriesFit path children ↔
    path.utf8ByteSize ≤ Volume.maxPathSize ∧
      ∀ child ∈ children, ∀ below, child.2 = .directory below →
        Volume.FitsAt path child.1 ∧ DirectoriesFit (joinPath path child.1) below := by
  constructor
  · intro h
    refine ⟨(h [] (.here rfl)).path, fun child hchild below hbelow => ?_⟩
    have hreaches {names : List String} (hnames : (Node.directory below).Reaches names .directory) :
        (Node.directory children).Reaches (child.1 :: names) .directory :=
      .inside hchild (hbelow ▸ hnames)
    refine ⟨fitsBelow_singleton_iff.mp (h _ (hreaches (.here rfl))), fun names hnames => ?_⟩
    exact (fitsBelow_cons_iff.mp (h _ (hreaches hnames))).2
  · rintro ⟨hpath, hchildren⟩ names hnames
    cases names with
    | nil => exact ⟨hpath, by simp⟩
    | cons name rest =>
      obtain ⟨node, hchild, hnode⟩ := Node.reaches_cons_iff.mp hnames
      obtain ⟨below, rfl⟩ := hnode.exists_directory
      obtain ⟨hfits, hbelow⟩ := hchildren _ hchild below rfl
      exact fitsBelow_cons_iff.mpr ⟨hfits.2, hbelow _ hnode⟩

/-- The files below a directory in the order of their paths, each with the names on the way. -/
def sortedFiles (children : Listing) : List (List String × ByteArray) :=
  (filesBelow children).mergeSort fun f g => pathBefore (entryOf f) (entryOf g)

theorem mem_sortedFiles_iff {f : List String × ByteArray} :
    f ∈ sortedFiles children ↔ (Node.directory children).Reaches f.1 (.file f.2) := by
  rw [sortedFiles, List.mem_mergeSort, ← Node.mem_files_iff, Node.files]

/-- The entries of a directory are those of its files. -/
theorem map_entryOf_sortedFiles : (sortedFiles children).map entryOf = directoryEntries children :=
  List.map_mergeSort fun _ _ _ _ => rfl

theorem pathsFit_iff_directoriesFit : PathsFit path children ↔
    DirectoriesFit path children ∧ ∀ f ∈ sortedFiles children, FitsBelow path f.1 := by
  constructor
  · exact fun h => ⟨h.directories, fun f hf => h.files _ _ (mem_sortedFiles_iff.mp hf)⟩
  · rintro ⟨hdirectories, hfiles⟩
    exact ⟨hdirectories, fun names content hfile =>
      hfiles (names, content) (mem_sortedFiles_iff.mpr hfile)⟩

end Files

namespace Files.Volume

variable {v : Volume} {levels : Nat} {before : List String} {path : String}
variable {children : Listing}

/-- A file of a tree as it is found from a directory, which has a path and some names that lead to
it. -/
def foundFile (before : List String) (path : String) (f : List String × ByteArray) : FoundFile :=
  ⟨Text.join "/" (before ++ f.1), pathBelow path f.1⟩

theorem size_le_of_readDirectory (hlist : v.readDirectory path = .ok children) :
    path ≠ "" ∧ path.utf8ByteSize ≤ maxPathSize := by
  obtain ⟨place, hlocate, -⟩ := bind_eq_ok_iff.mp (readDirectory_eq_ok_iff.mp hlist)
  obtain ⟨parts, hparts, -⟩ := bind_eq_ok_iff.mp hlocate
  obtain ⟨-, hne, hsize, -⟩ := partsOf_eq_ok_iff.mp hparts
  exact ⟨hne, hsize⟩

theorem collectFiles_of_readDirectory_error (h : v.readDirectory path = .error .nameTooLong) :
    v.collectFiles levels before path = .error .nameTooLong := by
  cases levels with
  | zero => rfl
  | succ levels =>
    rw [collectFiles, listNames, h]
    rfl

/-- What a name of a tree stands for is searched if it is no directory whose path is too long, and
if all directories below it can be opened. -/
theorem yieldsIf_foundAt {name : String} {node : Node} (hlist : v.readDirectory path = .ok children)
    (htree : (Node.directory children).IsTree) (hchild : (name, node) ∈ children)
    (hbelow : ∀ below, v.readDirectory (joinPath path name) = .ok below →
      (Node.directory below).IsTree → YieldsIf (DirectoriesFit (joinPath path name) below)
        (v.collectFiles levels (before ++ [name]) (joinPath path name))
        ((filesBelow below).map (foundFile (before ++ [name]) (joinPath path name))) .nameTooLong) :
    YieldsIf
      (∀ below, node = .directory below →
        FitsAt path name ∧ DirectoriesFit (joinPath path name) below)
      (foundAt (v.collectFiles levels) before path (name, node.kind))
      (node.files.map fun f => foundFile before path (name :: f.1, f.2)) .nameTooLong := by
  cases node with
  | file content =>
    rw [Node.files]
    exact ⟨fun _ => rfl, fun hnot => absurd (fun below hbelow => by cases hbelow) hnot⟩
  | link target =>
    rw [Node.files]
    exact ⟨fun _ => rfl, fun hnot => absurd (fun below hbelow => by cases hbelow) hnot⟩
  | directory below =>
    have hnext := readDirectory_joinPath hlist (htree.isFileName hchild) (htree.lookup_eq hchild)
    by_cases hfits : FitsAt path name
    · rw [if_pos hfits] at hnext
      have hsame : (filesBelow below).map (foundFile (before ++ [name]) (joinPath path name)) =
          (Node.directory below).files.map fun f => foundFile before path (name :: f.1, f.2) := by
        rw [Node.files]
        refine List.map_congr_left fun f _ => ?_
        rw [foundFile, List.append_assoc]
        rfl
      rw [← hsame]
      exact (hbelow below hnext (htree.child hchild)).of_iff (by simp [hfits])
    · rw [if_neg hfits] at hnext
      exact ⟨fun hall => absurd (hall below rfl).1 hfits,
        fun _ => collectFiles_of_readDirectory_error hnext⟩

/-- The files of a tree are found if all its directories can be opened. -/
theorem yieldsIf_collectFiles (hlist : v.readDirectory path = .ok children)
    (htree : (Node.directory children).IsTree) (hlevels : maxPathSize < levels + path.utf8ByteSize)
    (before : List String) :
    YieldsIf (DirectoriesFit path children) (v.collectFiles levels before path)
      ((filesBelow children).map (foundFile before path)) .nameTooLong := by
  -- each level makes the path longer, so the levels do not run out before the path is too long
  induction levels generalizing before path children with
  | zero =>
    have hsize := (size_le_of_readDirectory hlist).2
    omega
  | succ levels ih =>
    obtain ⟨hne, hsize⟩ := size_le_of_readDirectory hlist
    have hall : ∀ child ∈ children, YieldsIf
        (∀ below, child.2 = .directory below →
          FitsAt path child.1 ∧ DirectoriesFit (joinPath path child.1) below)
        (foundAt (v.collectFiles levels) before path (child.1, child.2.kind))
        (child.2.files.map fun f => foundFile before path (child.1 :: f.1, f.2)) .nameTooLong := by
      intro child hchild
      refine yieldsIf_foundAt hlist htree hchild fun below hnext hbelow => ih hnext hbelow ?_ _
      have hlonger := lt_size_joinPath hne (htree.isFileName hchild)
      omega
    have hnames : v.listNames path = .ok (kindsOf children) := by
      rw [listNames, hlist]
      rfl
    have hfiles : (filesBelow children).map (foundFile before path) = (children.map fun child =>
        child.2.files.map fun f => foundFile before path (child.1 :: f.1, f.2)).flatten := by
      rw [← Node.files, Node.files_directory, List.map_flatMap, List.flatMap_def]
      simp only [List.map_map]
      rfl
    have hmapM : (kindsOf children).mapM (foundAt (v.collectFiles levels) before path) =
        children.mapM fun child =>
          foundAt (v.collectFiles levels) before path (child.1, child.2.kind) := List.mapM_map
    rw [directoriesFit_iff, and_iff_right hsize, hfiles, collectFiles, hnames]
    have hyields := (yieldsIf_mapM hall).map List.flatten
    rwa [← hmapM] at hyields

/-- A file of a tree can be read if its path and the names in it are short enough, as long as those
of all directories are. -/
theorem yieldsIf_readFile {names : List String} {content : ByteArray}
    (hlist : v.readDirectory path = .ok children) (htree : (Node.directory children).IsTree)
    (hdirectories : DirectoriesFit path children)
    (hfile : (Node.directory children).Reaches names (.file content)) :
    YieldsIf (FitsBelow path names) (v.readFile (pathBelow path names)) content .nameTooLong := by
  induction names generalizing path children with
  | nil => cases Node.reaches_nil_iff.mp hfile
  | cons name rest ih =>
    obtain ⟨node, hchild, hnode⟩ := Node.reaches_cons_iff.mp hfile
    have hname := htree.isFileName hchild
    have hlookup := htree.lookup_eq hchild
    cases node with
    | file content' =>
      cases hnode with
      | here hshape =>
        obtain rfl := Shape.file.inj hshape
        have hread := readFile_joinPath hlist hname hlookup
        rw [fitsBelow_singleton_iff]
        exact ⟨fun hfits => hread.trans (if_pos hfits), fun hfits => hread.trans (if_neg hfits)⟩
    | link target =>
      cases hnode with
      | here hshape => cases hshape
    | directory below =>
      obtain ⟨hfits, hbelow⟩ := (directoriesFit_iff.mp hdirectories).2 _ hchild below rfl
      have hnext := readDirectory_joinPath hlist hname hlookup
      rw [if_pos hfits] at hnext
      exact (ih hnext (htree.child hchild) hbelow hnode).of_iff
        (fitsBelow_cons_iff.trans (and_iff_right hfits.2))

/-- The entries of a directory are read if all paths and names below it are short enough. -/
theorem yieldsIf_readEntries (hlist : v.readDirectory path = .ok children)
    (htree : (Node.directory children).IsTree) :
    YieldsIf (PathsFit path children) (v.readEntries path) (directoryEntries children)
      .nameTooLong := by
  have hsorted : (sortedFiles children).map (foundFile [] path) =
      ((filesBelow children).map (foundFile [] path)).mergeSort FoundFile.before :=
    List.map_mergeSort fun _ _ _ _ => rfl
  have hfound := yieldsIf_collectFiles hlist htree (by omega : maxPathSize < maxPathSize + 1 + _) []
  rw [pathsFit_iff_directoriesFit, ← map_entryOf_sortedFiles, readEntries]
  refine hfound.bind fun hdirectories => ?_
  rw [← hsorted, List.mapM_map]
  refine yieldsIf_mapM fun f hf => ?_
  have hfile := yieldsIf_readFile hlist htree hdirectories (mem_sortedFiles_iff.mp hf)
  exact hfile.map (Entry.mk _)

end Files.Volume

end AppBundle
