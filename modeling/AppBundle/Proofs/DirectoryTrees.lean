import AppBundle.Proofs.FirstOccurrences
import AppBundle.Proofs.PathResolution

/-!
# Directory trees

Names lead through the directories of a tree to files, directories and links. What they lead to does
not depend on the order in which the directories are listed, and the names of a tree can be names of
files.
-/

namespace AppBundle.Files.Node

/-- Names lead from a node through directories to something of some shape. -/
inductive Reaches : Node → List String → Shape → Prop
  | here {node : Node} {shape : Shape} (hshape : node.shape = shape) : Reaches node [] shape
  | inside {children : Listing} {name : String} {node : Node} {names : List String} {shape : Shape}
      (hchild : (name, node) ∈ children) (hbelow : Reaches node names shape) :
      Reaches (.directory children) (name :: names) shape

/-- Each directory has names that files can have, no two of them the same. -/
inductive IsTree : Node → Prop
  | file (content : ByteArray) : IsTree (.file content)
  | directory {children : Listing} (hnames : ∀ child ∈ children, IsFileName child.1)
      (hnodup : (children.map Prod.fst).Nodup) (hbelow : ∀ child ∈ children, IsTree child.2) :
      IsTree (.directory children)
  | link (target : String) : IsTree (.link target)

/-- A node is the same as another one but for the order in which directories are listed. -/
inductive IsRelisted : Node → Node → Prop
  | refl (node : Node) : IsRelisted node node
  | listed {children others : Listing} (h : children.Perm others) :
      IsRelisted (.directory children) (.directory others)
  | inside {before after : Listing} {name : String} {node other : Node}
      (h : IsRelisted node other) :
      IsRelisted (.directory (before ++ (name, node) :: after))
        (.directory (before ++ (name, other) :: after))
  | trans {node other third : Node} (h : IsRelisted node other) (h' : IsRelisted other third) :
      IsRelisted node third

mutual

/-- What a node leads to, each with the names on the way. -/
def places : Node → List (List String × Shape)
  | .file content => [([], .file content)]
  | .directory children => ([], .directory) :: placesBelow children
  | .link target => [([], .link target)]

/-- What the names of a directory lead to. -/
def placesBelow : Listing → List (List String × Shape)
  | [] => []
  | (name, node) :: rest => (node.places.map fun p => (name :: p.1, p.2)) ++ placesBelow rest

end

variable {node other : Node} {children : Listing} {name : String} {names : List String}
variable {shape : Shape} {content : ByteArray}

theorem reaches_nil_iff : node.Reaches [] shape ↔ node.shape = shape := by
  constructor
  · rintro (h | _)
    exact h
  · exact .here

/-- A directory leads to what its names lead to. -/
theorem reaches_cons_iff : (Node.directory children).Reaches (name :: names) shape ↔
    ∃ node, (name, node) ∈ children ∧ node.Reaches names shape := by
  constructor
  · rintro (_ | ⟨hchild, hbelow⟩)
    exact ⟨_, hchild, hbelow⟩
  · rintro ⟨node, hchild, hbelow⟩
    exact .inside hchild hbelow

/-- What is found below the names of a directory is found below one of them. -/
theorem mem_flatMap_cons_iff {α : Type} {found : Node → List (List String × α)} {a : α} :
    (name :: names, a) ∈ children.flatMap (fun child =>
        (found child.2).map fun p => (child.1 :: p.1, p.2)) ↔
      ∃ node, (name, node) ∈ children ∧ (names, a) ∈ found node := by
  rw [List.mem_flatMap]
  constructor
  · rintro ⟨child, hchild, hplace⟩
    obtain ⟨p, hbelow, heq⟩ := List.mem_map.mp hplace
    obtain ⟨hnames, rfl⟩ := Prod.mk.inj heq
    obtain ⟨rfl, rfl⟩ := List.cons.inj hnames
    exact ⟨_, hchild, hbelow⟩
  · rintro ⟨node, hchild, hbelow⟩
    exact ⟨_, hchild, List.mem_map.mpr ⟨_, hbelow, rfl⟩⟩

/-- The names in a directory that lead to something begin with one of its names. -/
theorem placesBelow_eq (children : Listing) : placesBelow children =
    children.flatMap fun child => child.2.places.map fun p => (child.1 :: p.1, p.2) := by
  induction children with
  | nil => rfl
  | cons child rest ih => rw [placesBelow, ih, List.flatMap_cons]

/-- The places of a node are those that it leads to. -/
theorem mem_places_iff : (names, shape) ∈ node.places ↔ node.Reaches names shape := by
  induction names generalizing node with
  | nil =>
    rw [reaches_nil_iff]
    cases node <;> simp [places, placesBelow_eq, Node.shape, eq_comm]
  | cons name rest ih =>
    cases node with
    | file content => exact iff_of_false (by simp [places]) fun h => by cases h
    | directory children =>
      rw [reaches_cons_iff, places, List.mem_cons, placesBelow_eq, mem_flatMap_cons_iff]
      simp [ih]
    | link target => exact iff_of_false (by simp [places]) fun h => by cases h

/-- The files below a directory are those below its names. -/
theorem files_directory (children : Listing) : (Node.directory children).files =
    children.flatMap fun child => child.2.files.map fun f => (child.1 :: f.1, f.2) := by
  rw [files]
  induction children with
  | nil => rfl
  | cons child rest ih => rw [filesBelow, ih, List.flatMap_cons]

/-- The files of a node are those that it leads to. -/
theorem mem_files_iff : (names, content) ∈ node.files ↔ node.Reaches names (.file content) := by
  induction names generalizing node with
  | nil =>
    rw [reaches_nil_iff, shape_eq_file_iff]
    cases node with
    | file content' => simp [files, eq_comm]
    | directory children => simp [files_directory]
    | link target => simp [files]
  | cons name rest ih =>
    cases node with
    | file content' => exact iff_of_false (by simp [files]) fun h => by cases h
    | directory children =>
      rw [reaches_cons_iff, files_directory, mem_flatMap_cons_iff]
      simp [ih]
    | link target => exact iff_of_false (by simp [files]) fun h => by cases h

/-- The files of a tree are found at different places. -/
theorem nodup_files (h : node.IsTree) : (node.files.map Prod.fst).Nodup := by
  induction h with
  | file content => simp [files]
  | link target => simp [files]
  | @directory children hnames hnodup hbelow ih =>
    have hplaces (child : String × Node) :
        (child.2.files.map fun f => (child.1 :: f.1, f.2)).map Prod.fst =
          (child.2.files.map Prod.fst).map (child.1 :: ·) := by
      rw [List.map_map, List.map_map]
      rfl
    rw [files_directory, List.map_flatMap, List.nodup_flatMap]
    refine ⟨fun child hchild => ?_, (List.pairwise_map.mp hnodup).imp fun hne => ?_⟩
    · rw [hplaces]
      exact (ih child hchild).map fun _ _ heq => (List.cons.inj heq).2
    · -- the places below two names begin with these names
      refine List.disjoint_left.mpr fun place hplace hplace' => ?_
      simp only [hplaces] at hplace hplace'
      obtain ⟨_, _, rfl⟩ := List.mem_map.mp hplace
      obtain ⟨_, _, heq⟩ := List.mem_map.mp hplace'
      exact hne (List.cons.inj heq).1.symm

/-- The names that lead through a tree are names that files can have. -/
theorem Reaches.isFileName (h : node.Reaches names shape) (htree : node.IsTree) :
    ∀ name ∈ names, IsFileName name := by
  induction h with
  | here => simp
  | inside hchild _ ih =>
    cases htree with
    | directory hnames _ hbelow =>
      exact List.forall_mem_cons.mpr ⟨hnames _ hchild, ih (hbelow _ hchild)⟩

section Child

variable (htree : (Node.directory children).IsTree) (hchild : (name, node) ∈ children)
include htree hchild

theorem IsTree.isFileName : IsFileName name := by
  cases htree with
  | directory hnames _ _ => exact hnames _ hchild

theorem IsTree.child : node.IsTree := by
  cases htree with
  | directory _ _ hbelow => exact hbelow _ hchild

/-- What a name of a tree stands for is found under the name. -/
theorem IsTree.lookup_eq : children.lookup name = some node := by
  cases htree with
  | directory _ hnodup _ => exact lookup_of_mem hnodup hchild

end Child

/-- The order in which directories are listed makes no difference for what they lead to. -/
theorem IsRelisted.reaches_iff (h : node.IsRelisted other) :
    node.Reaches names shape ↔ other.Reaches names shape := by
  induction h generalizing names with
  | refl node => rfl
  | listed h =>
    cases names with
    | nil => rw [reaches_nil_iff, reaches_nil_iff, Node.shape, Node.shape]
    | cons name rest => simp only [reaches_cons_iff, h.mem_iff]
  | inside _ ih =>
    cases names with
    | nil => rw [reaches_nil_iff, reaches_nil_iff, Node.shape, Node.shape]
    | cons name rest =>
      simp only [reaches_cons_iff, List.mem_append, List.mem_cons, Prod.mk.injEq]
      constructor
      · rintro ⟨node, hbefore | ⟨rfl, rfl⟩ | hafter, hbelow⟩
        · exact ⟨node, .inl hbefore, hbelow⟩
        · exact ⟨_, .inr (.inl ⟨rfl, rfl⟩), ih.mp hbelow⟩
        · exact ⟨node, .inr (.inr hafter), hbelow⟩
      · rintro ⟨node, hbefore | ⟨rfl, rfl⟩ | hafter, hbelow⟩
        · exact ⟨node, .inl hbefore, hbelow⟩
        · exact ⟨_, .inr (.inl ⟨rfl, rfl⟩), ih.mpr hbelow⟩
        · exact ⟨node, .inr (.inr hafter), hbelow⟩
  | trans _ _ ih ih' => exact ih.trans ih'

/-- A tree is a tree in whatever order its directories are listed. -/
theorem IsRelisted.isTree (h : node.IsRelisted other) (htree : node.IsTree) : other.IsTree := by
  induction h with
  | refl node => exact htree
  | listed h =>
    cases htree with
    | directory hnames hnodup hbelow =>
      exact .directory (fun child hchild => hnames child (h.mem_iff.mpr hchild))
        ((h.map Prod.fst).nodup_iff.mp hnodup)
        fun child hchild => hbelow child (h.mem_iff.mpr hchild)
  | inside _ ih =>
    cases htree with
    | directory hnames hnodup hbelow =>
      rw [List.forall_mem_append, List.forall_mem_cons] at hnames hbelow
      refine .directory ?_ (by simpa using hnodup) ?_
      · exact List.forall_mem_append.mpr ⟨hnames.1, List.forall_mem_cons.mpr hnames.2⟩
      · exact List.forall_mem_append.mpr
          ⟨hbelow.1, List.forall_mem_cons.mpr ⟨ih hbelow.2.1, hbelow.2.2⟩⟩
  | trans _ _ ih ih' => exact ih' (ih htree)

end AppBundle.Files.Node
