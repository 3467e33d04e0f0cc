import AppBundle.Files.Access

/-!
# Locations of a volume

A location is a list of names that lead from the root to something, without links on the way.
Putting a file or an empty directory at a location changes what stands there and nothing else.
-/

namespace AppBundle.Files

/-- What stands at a location, without what is below it. -/
inductive Shape where
  | file (content : ByteArray)
  | directory
  | link (target : String)

/-- The shape of a node. -/
def Node.shape : Node → Shape
  | .file content => .file content
  | .directory _ => .directory
  | .link target => .link target

@[simp] theorem Node.shape_eq_file_iff {node : Node} {content : ByteArray} :
    node.shape = .file content ↔ node = .file content := by
  cases node <;> simp [shape]

@[simp] theorem Node.shape_eq_directory_iff {node : Node} :
    node.shape = .directory ↔ ∃ children, node = .directory children := by
  cases node <;> simp [shape]

@[simp] theorem Node.shape_eq_link_iff {node : Node} {target : String} :
    node.shape = .link target ↔ node = .link target := by
  cases node <;> simp [shape]

/-- Nothing is below a node. -/
def Node.IsBare (node : Node) : Prop := ∀ below, node = .directory below → below = []

theorem Node.isBare_file (content : ByteArray) : (Node.file content).IsBare := nofun

theorem Node.isBare_directory : (Node.directory []).IsBare := by
  intro below h
  exact (Node.directory.inj h).symm

section Listings

variable {here names location : List String} {name : String} {root children below : Listing}
variable {node : Node}

theorem nodeAt?_cons_of_directory (h : root.lookup name = some (.directory below)) :
    nodeAt? (name :: names) root = nodeAt? names below := by
  rw [nodeAt?, h]

/-- Below something that is no directory there is nothing. -/
theorem nodeAt?_cons_of_ne (h : ∀ below, root.lookup name ≠ some (.directory below)) :
    nodeAt? (name :: names) root = if names.isEmpty then root.lookup name else none := by
  rw [nodeAt?]
  split
  · rename_i below hbelow
    exact absurd hbelow (h below)
  · rename_i hsome
    rw [hsome]
  · rename_i hnone
    rw [hnone, ite_self]

/-- A name in a directory stands for what the directory lists. -/
theorem nodeAt?_singleton (name : String) (root : Listing) :
    nodeAt? [name] root = root.lookup name := by
  by_cases h : ∃ below, root.lookup name = some (.directory below)
  · obtain ⟨below, h⟩ := h
    rw [nodeAt?_cons_of_directory h, h, nodeAt?]
  · rw [nodeAt?_cons_of_ne (not_exists.mp h), List.isEmpty_nil, if_pos rfl]

/-- Names that lead to a directory lead through a directory. -/
theorem exists_below_of_nodeAt? (h : nodeAt? (name :: names) root = some (.directory children)) :
    ∃ below, root.lookup name = some (.directory below) ∧
      nodeAt? names below = some (.directory children) := by
  by_cases hname : ∃ below, root.lookup name = some (.directory below)
  · obtain ⟨below, hname⟩ := hname
    exact ⟨below, hname, (nodeAt?_cons_of_directory hname).symm.trans h⟩
  · rw [nodeAt?_cons_of_ne (not_exists.mp hname)] at h
    split at h
    · exact absurd ⟨children, h⟩ hname
    · cases h

/-- Names lead on from a directory to what they lead to in it. -/
theorem nodeAt?_append (h : nodeAt? here root = some (.directory children)) (names : List String) :
    nodeAt? (here ++ names) root = nodeAt? names children := by
  induction here generalizing root with
  | nil =>
    rw [nodeAt?, Option.some.injEq, Node.directory.injEq] at h
    rw [List.nil_append, h]
  | cons first rest ih =>
    obtain ⟨below, hfirst, h⟩ := exists_below_of_nodeAt? h
    rw [List.cons_append, nodeAt?_cons_of_directory hfirst, ih h]

/-- A name that stands for something with nothing below it leads to that only. -/
theorem nodeAt?_cons_of_isBare (hbare : node.IsBare) (h : root.lookup name = some node) :
    nodeAt? (name :: names) root = if names.isEmpty then some node else none := by
  by_cases hdirectory : ∃ below, node = .directory below
  · obtain ⟨below, rfl⟩ := hdirectory
    rw [nodeAt?_cons_of_directory h, hbare below rfl]
    cases names <;> rfl
  · rw [nodeAt?_cons_of_ne, h]
    intro below hbelow
    rw [h] at hbelow
    exact hdirectory ⟨below, Option.some.inj hbelow⟩

theorem setAt_cons (hnames : names ≠ []) (h : root.lookup name = some (.directory below)) :
    setAt node (name :: names) root = setName name (.directory (setAt node names below)) root := by
  cases names with
  | nil => exact absurd rfl hnames
  | cons next rest => rw [setAt, h]

/-- Something that is put into a directory, in the place of nothing or of something that is no
directory, changes the shape at its location only. -/
theorem shape_setAt (hhere : nodeAt? here root = some (.directory children))
    (hold : ∀ below, children.lookup name ≠ some (.directory below)) (hbare : node.IsBare)
    (location : List String) :
    (nodeAt? location (setAt node (here ++ [name]) root)).map Node.shape =
      if location = here ++ [name] then some node.shape
      else (nodeAt? location root).map Node.shape := by
  induction here generalizing root location with
  | nil =>
    rw [nodeAt?, Option.some.injEq, Node.directory.injEq] at hhere
    subst hhere
    rw [List.nil_append, setAt]
    cases location with
    | nil => rfl
    | cons first rest =>
      by_cases hfirst : first = name
      · rw [hfirst, nodeAt?_cons_of_isBare hbare (lookup_setName _ _ _), nodeAt?_cons_of_ne hold]
        cases rest <;> simp
      · rw [nodeAt?, nodeAt?, lookup_setName_of_ne hfirst, if_neg (by simp [hfirst])]
  | cons above names ih =>
    obtain ⟨below, hbelow, hhere⟩ := exists_below_of_nodeAt? hhere
    rw [List.cons_append, setAt_cons (by simp) hbelow]
    cases location with
    | nil => rfl
    | cons first rest =>
      by_cases hfirst : first = above
      · rw [hfirst, nodeAt?_cons_of_directory (lookup_setName _ _ _),
          nodeAt?_cons_of_directory hbelow, ih hhere]
        simp
      · rw [nodeAt?, nodeAt?, lookup_setName_of_ne hfirst, if_neg (by simp [hfirst])]

end Listings

namespace Volume

variable {v : Volume} {here location : List String} {name : String} {children : Listing}

/-- What stands at a location of a volume. -/
def shapeAt? (v : Volume) (location : List String) : Option Shape :=
  (nodeAt? location v.root).map Node.shape

/-- The volume with something put at a location. -/
def put (v : Volume) (location : List String) (node : Node) : Volume :=
  { v with root := setAt node location v.root }

theorem shapeAt?_eq_directory_iff :
    v.shapeAt? location = some .directory ↔
      ∃ children, nodeAt? location v.root = some (.directory children) := by
  simp only [shapeAt?, Option.map_eq_some_iff, Node.shape_eq_directory_iff]
  exact ⟨fun ⟨_, hnode, children, hshape⟩ => ⟨children, hshape ▸ hnode⟩,
    fun ⟨children, h⟩ => ⟨_, h, children, rfl⟩⟩

theorem shapeAt?_eq_file_iff {content : ByteArray} :
    v.shapeAt? location = some (.file content) ↔
      nodeAt? location v.root = some (.file content) := by
  simp [shapeAt?]

theorem shapeAt?_eq_link_iff {target : String} :
    v.shapeAt? location = some (.link target) ↔
      nodeAt? location v.root = some (.link target) := by
  simp [shapeAt?]

/-- A directory lists what stands at its names. -/
theorem nodeAt?_concat (h : nodeAt? here v.root = some (.directory children)) (name : String) :
    nodeAt? (here ++ [name]) v.root = children.lookup name := by
  rw [nodeAt?_append h, nodeAt?_singleton]

/-- The shape at a name in a directory is that of what the directory lists. -/
theorem shapeAt?_concat (h : nodeAt? here v.root = some (.directory children)) (name : String) :
    v.shapeAt? (here ++ [name]) = (children.lookup name).map Node.shape := by
  rw [shapeAt?, nodeAt?_concat h]

/-- Putting something into a directory, but not in the place of a directory, changes the shape at
one location only. -/
theorem shapeAt?_put {node : Node} (hhere : v.shapeAt? here = some .directory)
    (hold : v.shapeAt? (here ++ [name]) ≠ some .directory) (hbare : node.IsBare)
    (location : List String) :
    (v.put (here ++ [name]) node).shapeAt? location =
      if location = here ++ [name] then some node.shape else v.shapeAt? location := by
  obtain ⟨children, hchildren⟩ := shapeAt?_eq_directory_iff.mp hhere
  refine shape_setAt hchildren (fun below hbelow => hold ?_) hbare location
  rw [shapeAt?_eq_directory_iff, nodeAt?_concat hchildren]
  exact ⟨below, hbelow⟩

end Volume

end AppBundle.Files
