import AppBundle.AppModule
import AppBundle.Shard
import AppBundle.Text.Number

/-!
# Dex files of a package

When several modules of a shard have dex files, the files get new numbers, in
one sequence over all modules. The main statements are that numbering keeps
the number of files and their contents.
-/

namespace AppBundle

/-- The greatest number that the name of a dex file can carry. -/
def maxDexNumber : Nat := 4294967295

/-- The place of a dex file in its module: `classes.dex` has the number one,
`classesN.dex` the number `N`, and all other names come last. -/
def dexNumber (path : String) : Nat :=
  let name := (Text.split '/' path).getLastD ""
  match (Text.after? "classes" name).bind (Text.before? ".dex") with
  | none => maxDexNumber
  | some "" => 1
  | some n => (Text.readNatural? maxDexNumber n).getD maxDexNumber

/-- The path of the dex file with a number in a package. -/
def dexPath (n : Nat) : String :=
  if n = 1 then "dex/classes.dex" else "dex/classes" ++ toString n ++ ".dex"

/-- Dex files come in the order of their numbers, then of their paths. -/
def dexBefore (a b : Entry) : Bool :=
  ((compare (dexNumber a.path) (dexNumber b.path)).then (compare a.path b.path)).isLE

/-- The modules of a shard, in the order in which they occur first. -/
def shardModules (shard : Shard) : List String := (shard.map Split.moduleName).eraseDups

/-- The modules of a shard with the base module first. -/
def modulesBaseFirst (shard : Shard) : List String :=
  (shardModules shard).filter (· = baseName) ++ (shardModules shard).filter (· ≠ baseName)

/-- The dex files of one module of a shard. -/
def moduleDex (shard : Shard) (moduleName : String) : List Entry :=
  (shard.filter (·.moduleName = moduleName)).flatMap fun s =>
    s.entries.filter (·.category = .dex)

/-- The dex files of those modules of a shard that have some. -/
def dexByModule (shard : Shard) : List (List Entry) :=
  ((modulesBaseFirst shard).map (moduleDex shard)).filter (!·.isEmpty)

/-- The dex files with numbers from one on. The numbers have no bound here; a counter of 32 bits
gives the same ones as long as there are fewer than 2^32 files. -/
def numberDex (files : List Entry) : List Entry :=
  files.zipIdx.map fun (e, i) => { e with path := dexPath (i + 1) }

/-- The dex files of a package. They keep their paths if they come from one
module; those of several modules get new numbers. -/
def packageDex (shard : Shard) : List Entry :=
  match dexByModule shard with
  | [] => []
  | [files] => files
  | modules => numberDex (modules.flatMap (·.mergeSort dexBefore))

/-- Numbering keeps the number of files. -/
theorem length_numberDex (files : List Entry) : (numberDex files).length = files.length := by
  simp [numberDex]

/-- Numbering keeps the contents and their order. -/
theorem content_numberDex (files : List Entry) :
    (numberDex files).map Entry.content = files.map Entry.content := by
  rw [numberDex, List.map_map]
  change List.map (Entry.content ∘ Prod.fst) files.zipIdx = _
  rw [← List.map_map, List.zipIdx_map_fst]

end AppBundle
