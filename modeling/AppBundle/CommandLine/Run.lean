import AppBundle.Bundle
import AppBundle.CommandLine.Failure
import AppBundle.CommandLine.Help
import AppBundle.CommandLine.Reading
import AppBundle.CommandLine.Report

/-!
# Running commands

A command line is read and carried out. What it prints and writes is known from the
files alone. The main statement is that a refused command line touches no file.
-/

namespace AppBundle.CommandLine

open Files

/-- Something the user should know although the command succeeds. -/
inductive Warning where
  /-- Splits of the bundle are in none of its shards. -/
  | leftOut (count : Nat)
  deriving DecidableEq

/-- The wording of the warning. -/
def Warning.message : Warning → String
  | leftOut count =>
    " WARN " ++ toString count ++
      " split(s) target no shardable dimension and are left out of the shards"

/-- What remains of a run of the program. -/
structure Outcome where
  exitCode : UInt8
  /-- What is printed as the result. -/
  stdout : String
  /-- What is printed beside the result. -/
  stderr : String
  deriving DecidableEq

/-- The computations of commands: they can fail, and they keep warnings in any case. -/
abbrev Action (m : Type → Type) (α : Type) := ExceptT Failure (StateT (List Warning) m) α

variable {m : Type → Type} [Monad m]

/-- A computation on files, with the failure that its cause stands for. -/
def attempt {ε α : Type} (failure : ε → Failure) (work : ExceptT ε m α) : Action m α :=
  ExceptT.mk do return (← work.run).mapError failure

/-- A result, with the failure that its cause stands for. -/
def check {ε α : Type} (failure : ε → Failure) (result : Except ε α) : Action m α :=
  ExceptT.mk (pure (result.mapError failure))

/-- Warns of splits that are left out. -/
def warnOfLeftOut (modules : List AppModule) (dimensions : OrderedSet Dimension)
    (options : ShardingOptions) : Action m Unit :=
  let count := leftOutCount modules dimensions options
  if count = 0 then pure () else modify (· ++ [.leftOut count])

/-- The dimensions of a bundle after the changes. -/
def Overrides.dimensionsOf (o : Overrides) (spec : BundleSpec) : OrderedSet Dimension :=
  match o.dimensions with
  | some dimensions => .ofList dimensions
  | none => spec.dimensions

/-- The options of a bundle after the changes. -/
def Overrides.optionsOf (o : Overrides) (spec : BundleSpec) : ShardingOptions :=
  { splitByLanguage := spec.options.splitByLanguage && !o.noLanguageSplit
    generate64Bit := spec.options.generate64Bit && !o.no64Bit }

variable [MonadFiles m]

/-- Loads a bundle. -/
def load (manifest : String) : Action m Bundle := attempt .manifest (loadBundle manifest)

/-- Writes a package into a directory and gives its path. -/
def writePackage (directory : String) (p : Package) : Action m String := do
  let path := joinPath directory (p.id ++ ".tar")
  let archive ← check (Failure.packing p.id) (Archive.write p.entries)
  attempt (Failure.writing path) (writeFile path archive)
  return path

/-- Writes packages into a directory, if one is given. -/
def writePackages (output : Option String) (packages : List Package) : Action m (List String) :=
  match output with
  | none => pure []
  | some directory => do
    attempt (Failure.creating directory) (createDirectories directory)
    packages.mapM (writePackage directory)

/-- Makes the standalone packages of a bundle. -/
def runShard (style : Style) (manifest : String) (output : Option String)
    (overrides : Overrides) : Action m String := do
  let b ← load manifest
  let dimensions := overrides.dimensionsOf b.spec
  let options := overrides.optionsOf b.spec
  warnOfLeftOut b.modules dimensions options
  let packages ← check .sharding (shardBundle b.modules dimensions options b.metadata)
  let written ← writePackages output packages
  return shardReport style dimensions packages output written

/-- Makes the packages of a bundle for its device. -/
def runSystem (style : Style) (manifest : String) (output : Option String)
    (overrides : Overrides) : Action m String := do
  let b ← load manifest
  match b.spec.device with
  | none => throw (.noDevice manifest)
  | some device =>
    let dimensions := overrides.dimensionsOf b.spec
    let options := overrides.optionsOf b.spec
    warnOfLeftOut b.modules dimensions options
    let packages ← check .sharding
      (shardForDevice b.modules dimensions options b.metadata { device })
    let written ← writePackages output packages.all
    return systemReport style device packages output written

/-- Makes the packages of a module of system images. -/
def runApex (style : Style) (manifest moduleName : String) (output : Option String) :
    Action m String := do
  let b ← load manifest
  match b.module? moduleName with
  | none => throw (.noModule moduleName)
  | some apex =>
    let packages ← check .sharding (shardApex apex b.spec.options)
    let written ← writePackages output packages
    return apexReport style moduleName packages output written

/-- Shows the shards of a bundle. -/
def runPlan (style : Style) (manifest : String) (overrides : Overrides) : Action m String := do
  let b ← load manifest
  let dimensions := overrides.dimensionsOf b.spec
  let options := overrides.optionsOf b.spec
  warnOfLeftOut b.modules dimensions options
  return planReport style (← check .sharding (planShards b.modules dimensions options none))

/-- Writes the man pages into a directory. -/
def runManPages (directory : String) : Action m String := do
  attempt .creatingPages (createDirectories directory)
  manPages.forM fun (name, text) => do
    let path := joinPath directory name
    attempt (Failure.writing path) (writeFile path text.toUTF8)
  return "man pages written to " ++ directory ++ "\n"

/-- Carries out a command and gives what it prints. -/
def Command.run (style : Style) : Command → Action m String
  | .shard manifest output overrides => runShard style manifest output overrides
  | .system manifest output overrides => runSystem style manifest output overrides
  | .apex manifest moduleName output => runApex style manifest moduleName output
  | .plan manifest overrides => runPlan style manifest overrides
  | .completions shell => pure (completionScript shell)
  | .manPages directory => runManPages directory

/-- What is left of a command that has been carried out. -/
def Outcome.ofResult (result : Except Failure String) (warnings : List Warning) : Outcome :=
  let log := unlines (warnings.map Warning.message)
  match result with
  | .ok text => { exitCode := 0, stdout := text, stderr := log }
  | .error failure =>
    { exitCode := failure.exitCode, stdout := ""
      stderr := log ++ "error: " ++ failure.message ++ "\n" }

/-- What is printed instead of the result of a command. Without colors, no control
sequence reaches the terminal, not even one that the user wrote. -/
def Stop.outcome (colors : Bool) : Stop → Outcome
  | .help command => { exitCode := 0, stdout := helpText command, stderr := "" }
  | .version =>
    { exitCode := 0, stdout := programName ++ " " ++ programVersion ++ "\n", stderr := "" }
  | .empty => { exitCode := 2, stdout := "", stderr := helpText none }
  | .refused cause =>
    { exitCode := 2, stdout := ""
      stderr := if colors then cause.report else Text.plain cause.report }

/-- Runs the program with the texts of a command line. -/
def run (colors : Bool) (texts : List String) : m Outcome :=
  match Request.parse texts with
  | .error stop => pure (stop.outcome colors)
  | .ok request => do
    let style : Style := { json := request.json, colors }
    let (result, warnings) ← (request.command.run style : Action m String).run.run []
    return Outcome.ofResult result warnings

/-- A command line that is refused, or that asks for help, touches no file. -/
theorem run_of_error {texts : List String} {stop : Stop} (h : Request.parse texts = .error stop)
    (colors : Bool) : run (m := m) colors texts = pure (stop.outcome colors) := by
  simp [run, h]

end AppBundle.CommandLine
