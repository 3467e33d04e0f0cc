import AppBundle.CommandLine.UsageError

/-!
# Reading command lines

A command line is read from left to right. The value of an argument is not checked
before the next argument is known to be one, so that an unknown argument is refused
first. The main statements say what two hyphens do to the arguments after them.
-/

namespace AppBundle.CommandLine

/-- What a text on the command line looks like. -/
inductive Token where
  /-- Two hyphens, after which there are no options. -/
  | endOfOptions
  | long (name : String) (value : Option String)
  | short (letters : List Char)
  | plain (text : String)
  deriving DecidableEq

/-- What a text on the command line looks like. -/
def Token.ofText (text : String) : Token :=
  match text.toList with
  | ['-', '-'] => .endOfOptions
  | '-' :: '-' :: rest =>
    match Text.cutChars? '=' rest with
    | some (name, value) => .long (String.ofList name) (some (String.ofList value))
    | none => .long (String.ofList rest) none
  | '-' :: c :: rest => .short (c :: rest)
  | _ => .plain text

/-- What the arguments that have been checked say. -/
structure Given where
  /-- The options without values. -/
  flags : List OptionName := []
  output : Option String := none
  moduleName : Option String := none
  dimensions : Option (List Dimension) := none
  positional : Option String := none

/-- The argument that is not checked yet. -/
inductive Pending where
  | nothing
  /-- An option whose value is still missing. -/
  | option (o : OptionName)
  | optionValue (o : OptionName) (value : String)
  | positional (p : Positional) (value : String)

/-- How far the arguments of a command have been read. -/
structure Progress where
  given : Given := {}
  pending : Pending := .nothing
  /-- Whether the argument that is known by its place has been seen. -/
  hasPositional : Bool := false
  /-- Whether there are no more options. -/
  optionsEnded : Bool := false

/-- What ends the reading early. -/
inductive Stop where
  | refused (cause : UsageError)
  /-- The user asks for help, on a command or on the program. -/
  | help (command : Option CommandName)
  | version
  /-- The command line is empty. -/
  | empty
  deriving DecidableEq

/-- A reading that is refused. -/
def refuse {α : Type} (cause : UsageError) : Except Stop α := .error (.refused cause)

/-- A path that must not be empty. -/
def checkPath (argument path : String) : Except Stop String :=
  if path = "" then refuse (.missingValue argument) else .ok path

/-- The dimension of a name in a list of dimensions. -/
def checkDimension (name : String) : Except Stop Dimension :=
  match Dimension.parse name with
  | .ok d => .ok d
  | .error cause =>
    refuse (.invalidValue name (OptionName.shown .dimensions) (": " ++ cause.message))

/-- The shell of a name. -/
def checkShell (name : String) : Except Stop Shell :=
  match Shell.ofName? name with
  | some shell => .ok shell
  | none =>
    if name = "" then refuse (.missingValue Positional.shell.shown)
    else
      refuse (.invalidValue name Positional.shell.shown
        ("\n  [possible values: " ++ Text.join ", " (Shell.all.map Shell.name) ++ "]"))

/-- Adds the value of an option. Only dimensions can be given more than once. -/
def Given.addValue (g : Given) (o : OptionName) (value : String) : Except Stop Given :=
  match o with
  | .output =>
    if g.output.isSome then refuse (.repeatedArgument o.shown)
    else return { g with output := some (← checkPath o.shown value) }
  | .moduleName =>
    if g.moduleName.isSome then refuse (.repeatedArgument o.shown)
    else .ok { g with moduleName := some value }
  | .dimensions => do
    let added ← (Text.split ',' value).mapM checkDimension
    return { g with dimensions := some (g.dimensions.getD [] ++ added) }
  | _ => .ok g

/-- Adds the argument that is known by its place. -/
def Given.addPositional (g : Given) (p : Positional) (value : String) : Except Stop Given := do
  match p with
  | .manifest | .directory => return { g with positional := some (← checkPath p.shown value) }
  | .shell =>
    let shell ← checkShell value
    return { g with positional := some shell.name }

/-- Adds an option without value. -/
def Given.addFlag (g : Given) (o : OptionName) : Except Stop Given :=
  if o ∈ g.flags then refuse (.repeatedArgument o.shown) else .ok { g with flags := o :: g.flags }

/-- What the arguments say when the one that is pending is checked as well. -/
def Progress.settle (s : Progress) : Except Stop Given :=
  match s.pending with
  | .nothing => .ok s.given
  | .option o => refuse (.missingValue o.shown)
  | .optionValue o value => s.given.addValue o value
  | .positional p value => s.given.addPositional p value

/-- Takes an option without value. -/
def takeFlag (level : Option CommandName) (s : Progress) (o : OptionName) :
    Except Stop Progress := do
  let given ← s.settle
  match o with
  | .help => .error (.help level)
  | .version => .error .version
  | _ => return { s with given := ← given.addFlag o, pending := .nothing }

/-- Takes an option that is known by its name. -/
def takeLong (level : Option CommandName) (s : Progress) (name : String) (value : Option String) :
    Except Stop Progress :=
  match (optionsOf level).find? (·.long = name) with
  | none => refuse (.unexpectedArgument ("--" ++ name))
  | some o =>
    match o.placeholder?, value with
    | none, none => takeFlag level s o
    | none, some value => refuse (.unneededValue value o.shown)
    | some _, none => do return { s with given := ← s.settle, pending := .option o }
    | some _, some value => do
      let given ← s.settle
      return { s with given := ← given.addValue o value, pending := .nothing }

/-- Takes options that are known by their letters. -/
def takeShort (level : Option CommandName) (s : Progress) : List Char → Except Stop Progress
  | [] => .ok s
  | c :: cs =>
    match (optionsOf level).find? (·.short? = some c) with
    | none => refuse (.unexpectedArgument ("-" ++ String.singleton c))
    | some o => do takeShort level (← takeFlag level s o) cs

/-- Takes the argument of a command that is known by its place. -/
def takePositional (c : CommandName) (s : Progress) (text : String) : Except Stop Progress :=
  if s.hasPositional then refuse (.unexpectedArgument text)
  else do
    let given ← s.settle
    return { s with given, pending := .positional c.positional text, hasPositional := true }

/-- Takes a text after a command. -/
def takeText (c : CommandName) (s : Progress) (text : String) : Except Stop Progress :=
  if s.optionsEnded then takePositional c s text
  else
    match Token.ofText text with
    | .endOfOptions => .ok { s with optionsEnded := true }
    | .long name value => takeLong (some c) s name value
    | .short letters => takeShort (some c) s letters
    | .plain text =>
      match s.pending with
      | .option o => .ok { s with pending := .optionValue o text }
      | _ => takePositional c s text

/-- The changes to the part of a manifest on sharding that the arguments ask for. -/
def Given.overrides (g : Given) : Overrides :=
  { dimensions := g.dimensions
    noLanguageSplit := .noLanguageSplit ∈ g.flags
    no64Bit := .no64Bit ∈ g.flags }

/-- The path of the manifest, if none is given. -/
def defaultManifest : String := "shardkit.toml"

/-- The directory of the man pages, if none is given. -/
def defaultDirectory : String := "man"

/-- The command with its arguments. -/
def Given.command (g : Given) (c : CommandName) : Except Stop Command :=
  let manifest := g.positional.getD defaultManifest
  match c with
  | .shard => .ok (.shard manifest g.output g.overrides)
  | .system => .ok (.system manifest g.output g.overrides)
  | .plan => .ok (.plan manifest g.overrides)
  | .manPages => .ok (.manPages (g.positional.getD defaultDirectory))
  | .apex =>
    match g.moduleName with
    | some name => .ok (.apex manifest name g.output)
    | none => refuse (.missingArguments [OptionName.shown .moduleName])
  | .completions =>
    match g.positional.bind Shell.ofName? with
    | some shell => .ok (.completions shell)
    | none => refuse (.missingArguments [Positional.shell.shown])

/-- Reads the arguments of a command. -/
def readArguments (c : CommandName) (texts : List String) : Except Stop Given := do
  (← texts.foldlM (takeText c) {}).settle

/-- Reads a request for help, which may name a command. -/
def readHelp : List String → Stop
  | [] => .help none
  | ["help"] => .help none
  | "help" :: name :: _ => .refused (.unknownCommand name)
  | name :: rest =>
    match CommandName.ofName? name, rest with
    | none, _ => .refused (.unknownCommand name)
    | some c, [] => .help (some c)
    | some _, name :: _ => .refused (.unknownCommand name)

/-- Whether a text is the name of a command. -/
def isCommand (text : String) : Bool := text = "help" || (CommandName.ofName? text).isSome

/-- Reads a command line up to the command and goes on with its arguments. -/
def readFrom (s : Progress) : List String → Except Stop Request
  | [] => if s.given.flags.isEmpty then .error .empty else refuse .missingCommand
  | text :: rest =>
    if s.optionsEnded then
      if isCommand text then refuse (.unexpectedArgument text) else refuse (.unknownCommand text)
    else
      match Token.ofText text with
      | .endOfOptions => readFrom { s with optionsEnded := true } rest
      | .long name value => do readFrom (← takeLong none s name value) rest
      | .short letters => do readFrom (← takeShort none s letters) rest
      | .plain text =>
        if text = "help" then .error (readHelp rest)
        else
          match CommandName.ofName? text with
          | none => refuse (.unknownCommand text)
          | some c => do
            let given ← readArguments c rest
            return {
              json := .json ∈ s.given.flags || .json ∈ given.flags
              command := ← given.command c }

/-- Reads a command line. -/
def Request.parse (texts : List String) : Except Stop Request := readFrom {} texts

/-- After two hyphens every text is an argument that is known by its place. -/
theorem takeText_of_optionsEnded {s : Progress} (h : s.optionsEnded = true) (c : CommandName)
    (text : String) : takeText c s text = takePositional c s text := by
  simp [takeText, h]

/-- No command follows two hyphens. -/
theorem parse_endOfOptions (text : String) (rest : List String) :
    Request.parse ("--" :: text :: rest) =
      if isCommand text then refuse (.unexpectedArgument text)
      else refuse (.unknownCommand text) := by
  have htoken : Token.ofText "--" = .endOfOptions := by decide
  simp [Request.parse, readFrom, htoken]

end AppBundle.CommandLine
