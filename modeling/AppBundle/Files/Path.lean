import AppBundle.Text.Pieces

/-!
# Paths of files

A path is a text whose parts are divided by slashes; it is absolute if it begins
with a slash. The main statements say when nothing is put before a path on joining.
-/

namespace AppBundle.Files

/-- Whether a path starts at the root. -/
def isAbsolute (path : String) : Bool := Text.startsWith "/" path

/-- A path that starts where another one leads to. An absolute path stays as it is. -/
def joinPath (start path : String) : String :=
  if isAbsolute path || start = "" then path
  else if Text.endsWith "/" start then start ++ path
  else start ++ "/" ++ path

/-- Whether a part of a path leads nowhere else. -/
def isIdlePart (part : String) : Bool := part = "" || part = "."

/-- The parts of a path up to the last one that leads somewhere; the first part
always stays. -/
def withoutIdleEnd : List String → List String
  | [] => []
  | first :: rest => first :: (rest.reverse.dropWhile isIdlePart).reverse

/-- The path of the directory in which a path leads to something. The root and the
empty path have none; that of a single name is empty. -/
def parentPath? (path : String) : Option String :=
  match withoutIdleEnd (Text.split '/' path) with
  | [] => none
  | [only] => if only = "" then none else some ""
  | parts =>
    match withoutIdleEnd parts.dropLast with
    | [""] => some "/"
    | rest => some (Text.join "/" rest)

/-- A path and the paths of the directories above it, as far as they are written. -/
def pathsUpward : (steps : Nat) → (path : String) → List String
  | 0, path => [path]
  | steps + 1, path =>
    match parentPath? path with
    | none => [path]
    | some above => path :: pathsUpward steps above

/-- A path and the paths of all directories above it that are written in it. -/
def ancestors (path : String) : List String := pathsUpward path.length path

/-- An absolute path replaces the path that it is joined to. -/
theorem joinPath_of_isAbsolute {path : String} (h : isAbsolute path) (start : String) :
    joinPath start path = path := by
  simp [joinPath, h]

/-- Nothing is put before a path that is joined to the empty path. -/
theorem joinPath_empty (path : String) : joinPath "" path = path := by simp [joinPath]

end AppBundle.Files
