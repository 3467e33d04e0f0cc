import AppBundle.Dimension

/-!
# Commands and options

The commands of the program, the options that each of them takes, and how they are
shown to the user.
-/

namespace AppBundle.CommandLine

/-- The name of the program. -/
def programName : String := "shardkit"

/-- The version of the program. -/
def programVersion : String := "0.1.0"

/-- The commands of the program. -/
inductive CommandName where
  | shard
  | system
  | apex
  | plan
  | completions
  | manPages
  deriving DecidableEq

namespace CommandName

/-- All commands in the order in which they are listed. -/
def all : List CommandName := [shard, system, apex, plan, completions, manPages]

/-- The name by which a command is called. -/
def name : CommandName → String
  | shard => "shard"
  | system => "system"
  | apex => "apex"
  | plan => "plan"
  | completions => "completions"
  | manPages => "man-pages"

/-- What a command does. -/
def summary : CommandName → String
  | shard => "Generate one standalone package per ABI x screen density shard"
  | system => "Generate a system image for the device declared in the manifest"
  | apex => "Generate one package per system image of an APEX module"
  | plan => "Show the shard definitions without fusing them"
  | completions => "Generate shell completions for bash, zsh, fish, elvish, or powershell"
  | manPages => "Generate man pages in the specified directory"

/-- The command of a name. -/
def ofName? (s : String) : Option CommandName := all.find? (·.name = s)

end CommandName

/-- The options of the commands. -/
inductive OptionName where
  | json
  | verbose
  | trace
  | help
  | version
  | output
  | moduleName
  | dimensions
  | noLanguageSplit
  | no64Bit
  deriving DecidableEq

namespace OptionName

/-- The name of an option, which follows two hyphens. -/
def long : OptionName → String
  | json => "json"
  | verbose => "verbose"
  | trace => "trace"
  | help => "help"
  | version => "version"
  | output => "output"
  | moduleName => "module"
  | dimensions => "dimensions"
  | noLanguageSplit => "no-language-split"
  | no64Bit => "no-64-bit"

/-- The letter of an option, which follows one hyphen. -/
def short? : OptionName → Option Char
  | verbose => some 'v'
  | help => some 'h'
  | version => some 'V'
  | _ => none

/-- What stands for the value of an option. -/
def placeholder? : OptionName → Option String
  | output => some "OUTPUT"
  | moduleName => some "MODULE"
  | dimensions => some "DIMENSIONS"
  | _ => none

/-- An option with what stands for its value. -/
def shown (o : OptionName) : String :=
  match o.placeholder? with
  | some placeholder => "--" ++ o.long ++ " <" ++ placeholder ++ ">"
  | none => "--" ++ o.long

/-- What an option does. -/
def summary : OptionName → String
  | json => "Output results as structured JSON"
  | verbose => "Enable verbose (debug) logging output"
  | trace => "Enable trace-level logging (more detailed than --verbose)"
  | help => "Print help"
  | version => "Print version"
  | output => "Write every package as <shard_id>.tar into this directory"
  | moduleName => "Name of the APEX module"
  | dimensions => "Comma-separated dimensions to optimize for (abi, screen_density, language)"
  | noLanguageSplit => "Keep language resources and assets in the master split"
  | no64Bit => "Drop 64-bit native libraries instead of producing 64-bit shards"

end OptionName

/-- The arguments that are known by their place. -/
inductive Positional where
  | manifest
  | shell
  | directory
  deriving DecidableEq

namespace Positional

/-- What stands for an argument, in brackets if it may be left out. -/
def shown : Positional → String
  | manifest => "[MANIFEST]"
  | shell => "<SHELL>"
  | directory => "[DIR]"

/-- What an argument is. -/
def summary : Positional → String
  | manifest => "Path to bundle manifest TOML file"
  | shell => "Shell to generate completions for"
  | directory => "Output directory for man pages"

end Positional

/-- The options that all commands take. -/
def commonOptions : List OptionName := [.json, .verbose, .trace, .help]

/-- The options that change how a bundle is divided. -/
def shardingOptions : List OptionName := [.dimensions, .noLanguageSplit, .no64Bit]

/-- The options of a command, or those before the command. -/
def optionsOf : Option CommandName → List OptionName
  | none => commonOptions ++ [.version]
  | some .shard | some .system => .output :: shardingOptions ++ commonOptions
  | some .apex => .moduleName :: .output :: commonOptions
  | some .plan => shardingOptions ++ commonOptions
  | some .completions | some .manPages => commonOptions

/-- The argument of a command that is known by its place. -/
def CommandName.positional : CommandName → Positional
  | shard | system | apex | plan => .manifest
  | completions => .shell
  | manPages => .directory

/-- The shells that completions can be made for. -/
inductive Shell where
  | bash
  | elvish
  | fish
  | powershell
  | zsh
  deriving DecidableEq

namespace Shell

/-- All shells in the order of their names. -/
def all : List Shell := [bash, elvish, fish, powershell, zsh]

/-- The name of a shell. -/
def name : Shell → String
  | bash => "bash"
  | elvish => "elvish"
  | fish => "fish"
  | powershell => "powershell"
  | zsh => "zsh"

/-- The shell of a name. -/
def ofName? (s : String) : Option Shell := all.find? (·.name = s)

end Shell

/-- The changes to the part of a manifest on sharding. -/
structure Overrides where
  /-- The dimensions that take the place of those in the manifest. -/
  dimensions : Option (List Dimension)
  /-- Whether content of different languages stays together. -/
  noLanguageSplit : Bool
  /-- Whether native libraries of 64-bit architectures are dropped. -/
  no64Bit : Bool
  deriving DecidableEq

/-- A command with its arguments. -/
inductive Command where
  | shard (manifest : String) (output : Option String) (overrides : Overrides)
  | system (manifest : String) (output : Option String) (overrides : Overrides)
  | apex (manifest moduleName : String) (output : Option String)
  | plan (manifest : String) (overrides : Overrides)
  | completions (shell : Shell)
  | manPages (directory : String)
  deriving DecidableEq

/-- What the user asks for. -/
structure Request where
  /-- Whether the result is written in JSON. -/
  json : Bool
  command : Command
  deriving DecidableEq

end AppBundle.CommandLine
