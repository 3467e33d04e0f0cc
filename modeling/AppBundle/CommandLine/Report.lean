import AppBundle.Document.Json
import AppBundle.Document.Targeting
import AppBundle.Sharding
import AppBundle.Text.Columns
import AppBundle.Text.Terminal

/-!
# Reports

What the commands print: tables for people, or documents in JSON. In a table the
targeting of each package can be set apart by a color. The main statement is that
a table has one line for each package, and one more.
-/

namespace AppBundle

/-- The label of a targeting in its color: dim if nothing is targeted, magenta for
sets of architectures, and cyan for all else. -/
def Targeting.coloredLabel (t : Targeting) : String :=
  let emphasis :=
    if t.isUntargeted then Text.Emphasis.dim else if t.hasMultiAbi then .magenta else .cyan
  Text.emphasize emphasis t.label

/-- What a package holds, without the contents of its files. -/
def Package.summary (p : Package) : Document :=
  .table [("entries", toDocument (p.entries.map Entry.path)), ("id", .text p.id),
    ("modules", toDocument p.modules), ("size", .int p.totalSize),
    ("targeting", .text p.targeting.label)]

namespace CommandLine

/-- The label of a targeting, with color or without. -/
def shownTargeting (colors : Bool) (t : Targeting) : String :=
  if colors then t.coloredLabel else t.label

/-- A line of a table of packages. -/
def tableLine (id targeting entries bytes modules : String) : String :=
  Text.join " " [Text.padRight 14 id, Text.padRight 32 targeting, Text.padLeft 8 entries,
    Text.padLeft 10 bytes, modules]

/-- The line of a package in a table. -/
def packageLine (colors : Bool) (p : Package) : String :=
  tableLine p.shortId (shownTargeting colors p.targeting) (toString p.entries.length)
    (toString p.totalSize) (Text.join "," p.modules)

/-- The lines of a table of packages. -/
def packageTable (colors : Bool) (packages : List Package) : List String :=
  tableLine "SHARD_ID" "TARGETING" "ENTRIES" "BYTES" "MODULES" ::
    packages.map (packageLine colors)

/-- The line on the packages that were written, if they had to be. -/
def writtenLine (output : Option String) (written : List String) : List String :=
  match output with
  | some directory =>
    ["wrote " ++ toString written.length ++ " package(s) to " ++ directory]
  | none => []

/-- A text of some lines. -/
def unlines (lines : List String) : String := Text.join "" (lines.map (· ++ "\n"))

/-- A document as a text that ends with its line. -/
def printed (d : Document) : String := d.render ++ "\n"

/-- How a report is printed. -/
structure Style where
  /-- In JSON, not for people. -/
  json : Bool
  /-- With colors. -/
  colors : Bool

/-- The report on packages under a title. -/
def packageReport (style : Style) (title : String) (packages : List Package)
    (output : Option String) (written : List String) : String :=
  unlines (title :: packageTable style.colors packages ++ writtenLine output written)

/-- The report on standalone packages. -/
def shardReport (style : Style) (dimensions : OrderedSet Dimension) (packages : List Package)
    (output : Option String) (written : List String) : String :=
  if style.json then
    printed (.table [("dimensions", toDocument dimensions),
      ("shards", .list (packages.map Package.summary)), ("written", toDocument written)])
  else
    packageReport style (toString packages.length ++ " shard(s)") packages output written

/-- The report on the packages for a device. -/
def systemReport (style : Style) (device : Device) (packages : SystemPackages)
    (output : Option String) (written : List String) : String :=
  if style.json then
    printed (.table [("additional_splits", .list (packages.additional.map Package.summary)),
      ("device", toDocument device), ("system_image", packages.image.summary),
      ("written", toDocument written)])
  else
    let title := "system image " ++ packages.image.shortId ++ " with " ++
      toString packages.additional.length ++ " additional split(s)"
    packageReport style title packages.all output written

/-- The report on the packages of a module of system images. -/
def apexReport (style : Style) (moduleName : String) (packages : List Package)
    (output : Option String) (written : List String) : String :=
  if style.json then
    printed (.table [("module", .text moduleName),
      ("shards", .list (packages.map Package.summary)), ("written", toDocument written)])
  else
    let title := toString packages.length ++ " APEX shard(s) for '" ++ moduleName ++ "'"
    packageReport style title packages output written

/-- A split of a plan in a document. -/
def splitDocument (s : Split) : Document :=
  .table [("entries", toDocument s.paths), ("master", toDocument s.isMaster),
    ("module", .text s.moduleName), ("targeting", .text s.targeting.label)]

/-- A shard of a plan in a document. -/
def shardDocument (index : Nat) (shard : Shard) : Document :=
  .table [("index", .int index), ("splits", .list (shard.map splitDocument))]

/-- The line of a split in a plan. -/
def splitLine (colors : Bool) (s : Split) : String :=
  "  " ++ Text.join " " [Text.padRight 16 s.moduleName,
    Text.padRight 32 (shownTargeting colors s.targeting), toString s.entries.length, "entries"]

/-- The lines of a shard in a plan. -/
def shardLines (colors : Bool) (index : Nat) (shard : Shard) : List String :=
  ("shard " ++ toString index ++ ":") :: shard.map (splitLine colors)

/-- The report on the shards of a bundle. -/
def planReport (style : Style) (shards : List Shard) : String :=
  let numbered := shards.zipIdx
  if style.json then printed (.list (numbered.map fun (shard, i) => shardDocument i shard))
  else unlines (numbered.flatMap fun (shard, i) => shardLines style.colors i shard)

/-- A table has one line for each package, and one more. -/
theorem length_packageTable (colors : Bool) (packages : List Package) :
    (packageTable colors packages).length = packages.length + 1 := by
  simp [packageTable]

end CommandLine

end AppBundle
