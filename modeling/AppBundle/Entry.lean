import AppBundle.Text.Pieces

/-!
# Entries of a module

A file of a module is known by its path, and the path alone tells what kind of
content it is.
-/

namespace AppBundle

/-- Contents are compared byte by byte. -/
instance decidableEqContent : DecidableEq ByteArray := ByteArray.instDecidableEq

/-- A file of a module or a package. -/
structure Entry where
  /-- The path, with slashes between its parts. -/
  path : String
  /-- The bytes of the file. -/
  content : ByteArray
  deriving DecidableEq

/-- Entries are the same if their paths and their contents are. -/
theorem Entry.ext {e f : Entry} (hpath : e.path = f.path) (hcontent : e.content = f.content) :
    e = f := by
  cases e; cases f
  cases hpath; cases hcontent
  rfl

/-- The kinds of content. -/
inductive Category where
  | nativeLibraries
  | resources
  | assets
  | apexImages
  | dex
  | root
  deriving DecidableEq, Inhabited

namespace Category

/-- The kind of content that a path stands for. -/
def ofPath (path : String) : Category :=
  if Text.startsWith "lib/" path then nativeLibraries
  else if Text.startsWith "res/" path || path = "resources.pb" then resources
  else if Text.startsWith "assets/" path then assets
  else if Text.startsWith "apex/" path then apexImages
  else if Text.startsWith "dex/" path || (Text.endsWith ".dex" path && '/' ∉ path.toList) then dex
  else root

end Category

/-- The kind of content of an entry. -/
def Entry.category (e : Entry) : Category := .ofPath e.path

end AppBundle
