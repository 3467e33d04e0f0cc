import AppBundle.Files.FileError
import AppBundle.Files.Path
import AppBundle.Files.Tree

/-!
# Volumes

A volume is a directory tree with a working directory, in which paths lead to
files. A path is followed part by part, through symbolic links. The main
statements say what the names of a directory stand for after one of them was set.
-/

namespace AppBundle.Files

/-- A directory tree with a working directory. -/
structure Volume where
  /-- The names in the root directory. -/
  root : Listing
  /-- The names that lead from the root to the working directory. -/
  workingDirectory : List String
  deriving Inhabited

/-- Where a path leads to. -/
inductive Place where
  /-- To something that is there. -/
  | taken (location : List String) (node : Node)
  /-- To a name that a directory does not have. -/
  | vacant (directory : List String) (name : String)

/-- What some names lead to, from a directory on. -/
def nodeAt? : List String → Listing → Option Node
  | [], children => some (.directory children)
  | name :: names, children =>
    match children.lookup name with
    | some (.directory below) => nodeAt? names below
    | some node => if names.isEmpty then some node else none
    | none => none

/-- A listing in which a name stands for something, in the place that the name had
before. -/
def setName (name : String) (node : Node) : Listing → Listing
  | [] => [(name, node)]
  | (other, old) :: rest =>
    if other = name then (name, node) :: rest else (other, old) :: setName name node rest

/-- The listing of a directory after something has been put below it. -/
def setAt (node : Node) : List String → Listing → Listing
  | [], children => children
  | [name], children => setName name node children
  | name :: next :: names, children =>
    match children.lookup name with
    | some (.directory below) =>
      setName name (.directory (setAt node (next :: names) below)) children
    | _ => children

namespace Volume

/-- How many links are followed on one path. -/
def maxLinks : Nat := 40

/-- The greatest number of bytes of a name. -/
def maxNameSize : Nat := 255

/-- The greatest number of bytes of a path. -/
def maxPathSize : Nat := 4095

/-- Follows the parts of a path from a directory on. A path to a file that can be made
on the way must not have slashes after its last name. -/
def follow (v : Volume) (making : Bool) (links : Nat) (here : List String)
    (parts : List String) : Except FileError Place :=
  match parts with
  | [] =>
    match nodeAt? here v.root with
    | some node => .ok (.taken here node)
    | none => .error .notFound
  | part :: rest =>
    match nodeAt? here v.root with
    | some (.directory children) =>
      if isIdlePart part then v.follow making links here rest
      else if part = ".." then v.follow making links here.dropLast rest
      else if making && !rest.isEmpty && rest.all (· = "") then .error .isDirectory
      else if maxNameSize < part.utf8ByteSize then .error .nameTooLong
      else
        match children.lookup part with
        | none => if rest.isEmpty then .ok (.vacant here part) else .error .notFound
        | some (.link target) =>
          match links with
          | 0 => .error .tooManyLinks
          | links + 1 =>
            v.follow making links (if isAbsolute target then [] else here)
              (Text.split '/' target ++ rest)
        | some (.directory _) => v.follow making links (here ++ [part]) rest
        | some (.file content) =>
          if rest.isEmpty then .ok (.taken (here ++ [part]) (.file content))
          else .error .notDirectory
    | some _ => .error .notDirectory
    | none => .error .notFound
termination_by (links, parts.length)

/-- The parts of a path that can be looked up. -/
def partsOf (path : String) : Except FileError (List String) :=
  if '\x00' ∈ path.toList then .error .nulInName
  else if path = "" then .error .notFound
  else if maxPathSize < path.utf8ByteSize then .error .nameTooLong
  else .ok (Text.split '/' path)

/-- Where a path starts. -/
def startOf (v : Volume) (path : String) : List String :=
  if isAbsolute path then [] else v.workingDirectory

/-- Where a path leads to; `making` tells whether a file can be made there. -/
def locate (v : Volume) (making : Bool) (path : String) : Except FileError Place := do
  v.follow making maxLinks (v.startOf path) (← partsOf path)

/-- What a path leads to. -/
def find (v : Volume) (path : String) : Except FileError Node := do
  match ← v.locate false path with
  | .taken _ node => return node
  | .vacant _ _ => throw .notFound

/-- The content of a file. -/
def readFile (v : Volume) (path : String) : Except FileError ByteArray := do
  match ← v.find path with
  | .file content => return content
  | _ => throw .isDirectory

/-- The names in a directory. -/
def readDirectory (v : Volume) (path : String) : Except FileError Listing := do
  match ← v.find path with
  | .directory children => return children
  | _ => throw .notDirectory

/-- The names in a directory, each with the kind of what it stands for. -/
def listNames (v : Volume) (path : String) : Except FileError (List (String × NodeKind)) := do
  return kindsOf (← v.readDirectory path)

/-- Whether a path leads to a directory. -/
def isDirectory (v : Volume) (path : String) : Bool :=
  match v.find path with
  | .ok (.directory _) => true
  | _ => false

/-- Puts something where a path leads to; there must be nothing, not even a link. -/
def create (v : Volume) (path : String) (node : Node) : Except FileError Volume := do
  let parts ← partsOf path
  match parts.reverse.dropWhile (· = "") with
  | [] => throw .alreadyExists
  | name :: above =>
    match ← v.follow false maxLinks (v.startOf path) above.reverse with
    | .taken location (.directory children) =>
      if name = "." || name = ".." then throw .alreadyExists
      else if maxNameSize < name.utf8ByteSize then throw .nameTooLong
      else if (children.lookup name).isSome then throw .alreadyExists
      else return { v with root := setAt node (location ++ [name]) v.root }
    | .taken _ _ => throw .notDirectory
    | .vacant _ _ => throw .notFound

/-- Writes a file, which takes the place of a file that is there. -/
def writeFile (v : Volume) (path : String) (content : ByteArray) : Except FileError Volume := do
  match ← v.locate true path with
  | .taken _ (.directory _) => throw .isDirectory
  | .taken location _ => return { v with root := setAt (.file content) location v.root }
  | .vacant directory name =>
    return { v with root := setAt (.file content) (directory ++ [name]) v.root }

end Volume

/-- A name stands for what it was set to. -/
theorem lookup_setName (name : String) (node : Node) (children : Listing) :
    (setName name node children).lookup name = some node := by
  induction children with
  | nil => simp [setName]
  | cons child rest ih =>
    obtain ⟨other, old⟩ := child
    by_cases h : other = name
    · simp [setName, h]
    · have hne : (name == other) = false := by simpa using Ne.symm h
      simp [setName, h, List.lookup_cons, hne, ih]

/-- All other names stand for what they stood for before. -/
theorem lookup_setName_of_ne {name other : String} (h : other ≠ name) (node : Node)
    (children : Listing) : (setName name node children).lookup other = children.lookup other := by
  induction children with
  | nil =>
    have hne : (other == name) = false := by simpa using h
    simp [setName, List.lookup_cons, hne]
  | cons child rest ih =>
    obtain ⟨third, old⟩ := child
    by_cases ht : third = name
    · subst ht
      have hne : (other == third) = false := by simpa using h
      simp [setName, List.lookup_cons, hne]
    · simp only [setName, ht, if_false, List.lookup_cons, ih]

end AppBundle.Files
