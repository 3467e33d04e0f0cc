import AppBundle.Entry
import AppBundle.OrderedMap

/-!
# Modules of a bundle

A bundle consists of modules, each with its files, and of metadata files that go
into every package.
-/

namespace AppBundle

/-- A module of a bundle. -/
structure AppModule where
  /-- The name of the module. -/
  name : String
  /-- The files of the module. -/
  entries : List Entry
  /-- Whether the module goes into the system image. -/
  fused : Bool := true
  deriving DecidableEq

/-- The name of the module that all others build upon. -/
def baseName : String := "base"

/-- Whether the module is the base module. -/
def AppModule.isBase (m : AppModule) : Bool := m.name = baseName

/-- The entries of one kind of content. -/
def AppModule.entriesIn (m : AppModule) (c : Category) : List Entry :=
  m.entries.filter (·.category = c)

/-- The metadata files of a bundle, by their path. -/
abbrev Metadata := OrderedMap String ByteArray

end AppBundle
