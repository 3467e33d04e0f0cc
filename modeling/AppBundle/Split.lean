import AppBundle.AppModule
import AppBundle.Targeting

/-!
# Splits

A split is the part of a module that serves one targeting. The main statements
say when a split made from another one is a master split.
-/

namespace AppBundle

/-- A part of a module that serves one targeting. -/
structure Split where
  /-- The name of the module. -/
  moduleName : String
  /-- The files of the part. -/
  entries : List Entry
  /-- What the part serves. -/
  targeting : Targeting
  /-- Whether the part belongs into every package. -/
  isMaster : Bool
  /-- The name of the split, which splits of the base module do not have. -/
  splitName : Option String
  deriving DecidableEq

namespace Split

/-- A split without a name; it is a master split if nothing is targeted. -/
def ofEntries (moduleName : String) (entries : List Entry) (targeting : Targeting) : Split :=
  { moduleName, entries, targeting, isMaster := targeting.isUntargeted, splitName := none }

/-- A split of the same module and name with other entries and targeting. -/
def derive (s : Split) (entries : List Entry) (targeting : Targeting) : Split :=
  { ofEntries s.moduleName entries targeting with splitName := s.splitName }

/-- The split without its name. -/
def unnamed (s : Split) : Split := { s with splitName := none }

/-- The paths of the entries. -/
def paths (s : Split) : List String := s.entries.map Entry.path

@[simp] theorem derive_isMaster (s : Split) (es : List Entry) (t : Targeting) :
    (s.derive es t).isMaster = t.isUntargeted := rfl

@[simp] theorem derive_moduleName (s : Split) (es : List Entry) (t : Targeting) :
    (s.derive es t).moduleName = s.moduleName := rfl

@[simp] theorem derive_entries (s : Split) (es : List Entry) (t : Targeting) :
    (s.derive es t).entries = es := rfl

@[simp] theorem derive_targeting (s : Split) (es : List Entry) (t : Targeting) :
    (s.derive es t).targeting = t := rfl

end Split

/-- The untargeted split of one kind of content of a module. -/
def AppModule.split (m : AppModule) (c : Category) : Split :=
  { Split.ofEntries m.name (m.entriesIn c) .untargeted with
    splitName := if m.isBase then none else some m.name }

end AppBundle
