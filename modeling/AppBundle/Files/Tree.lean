import AppBundle.Entry

/-!
# Directory trees

A directory tree has files, directories and symbolic links. The files of a module
are all the files below its directory; links are not followed. The main statement
is that the entries of a directory come in the order of their paths.
-/

namespace AppBundle.Files

/-- What a name in a directory stands for. -/
inductive Node where
  | file (content : ByteArray)
  /-- A directory with its names, in the order in which they are listed. -/
  | directory (children : List (String × Node))
  /-- A symbolic link with the path that it stands for. -/
  | link (target : String)
  deriving Inhabited

/-- The names in a directory with what they stand for. -/
abbrev Listing := List (String × Node)

/-- What a name stands for, as far as listing its directory tells. -/
inductive NodeKind where
  | file
  | directory
  /-- Neither a file nor a directory, such as a symbolic link. -/
  | other
  deriving DecidableEq

/-- The kind of a node. -/
def Node.kind : Node → NodeKind
  | .file _ => .file
  | .directory _ => .directory
  | .link _ => .other

/-- The names in a directory, each with the kind of what it stands for. -/
def kindsOf (children : Listing) : List (String × NodeKind) :=
  children.map fun (name, node) => (name, node.kind)

mutual

/-- The files below a node, each with the names that lead to it. -/
def Node.files : Node → List (List String × ByteArray)
  | .file content => [([], content)]
  | .directory children => filesBelow children
  | .link _ => []

/-- The files below the names of a directory. -/
def filesBelow : Listing → List (List String × ByteArray)
  | [] => []
  | (name, node) :: rest =>
    (node.files.map fun (names, content) => (name :: names, content)) ++ filesBelow rest

end

/-- A file as an entry, with slashes between the names that lead to it. -/
def entryOf (file : List String × ByteArray) : Entry :=
  { path := Text.join "/" file.1, content := file.2 }

/-- Whether an entry comes before another one by its path. -/
def pathBefore (a b : Entry) : Bool := (compare a.path b.path).isLE

/-- The entries of a directory, in the order of their paths. -/
def directoryEntries (children : Listing) : List Entry :=
  ((filesBelow children).map entryOf).mergeSort pathBefore

/-- The entries of a directory are its files. -/
theorem mem_directoryEntries {children : Listing} {e : Entry} :
    e ∈ directoryEntries children ↔ ∃ f ∈ filesBelow children, entryOf f = e := by
  simp [directoryEntries]

/-- The entries of a directory come in the order of their paths. -/
theorem directoryEntries_pairwise (children : Listing) :
    (directoryEntries children).Pairwise (pathBefore · ·) := by
  refine List.pairwise_mergeSort ?_ ?_ _
  · intro a b c hab hbc
    exact Std.TransOrd.isLE_trans hab hbc
  · intro a b
    rw [pathBefore, pathBefore, Std.OrientedOrd.eq_swap (a := b.path)]
    cases compare a.path b.path <;> rfl

end AppBundle.Files
