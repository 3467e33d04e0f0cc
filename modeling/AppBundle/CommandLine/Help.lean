import AppBundle.CommandLine.Arguments
import AppBundle.Text.Columns
import AppBundle.Text.Pieces

/-!
# Help

The texts that explain the program: help on commands and options, man pages, and
scripts with which shells complete the names of commands. All are made from the
tables of commands and options.
-/

namespace AppBundle.CommandLine

/-- What the program does. -/
def programSummary : String := "Standalone shard generation for modular app bundles"

/-- The command that shows help. -/
def helpName : String := "help"

/-- The names of all commands with what they do. -/
def commandSummaries : List (String × String) :=
  CommandName.all.map (fun c => (c.name, c.summary)) ++
    [(helpName, "Print this message or the help of the given subcommand(s)")]

/-- An option with its letter. -/
def optionTerm (o : OptionName) : String :=
  match o.short? with
  | some c => "-" ++ String.singleton c ++ ", " ++ o.shown
  | none => "    " ++ o.shown

/-- The options of a command with what they do. -/
def optionSummaries (command : Option CommandName) : List (String × String) :=
  (optionsOf command).map fun o => (optionTerm o, o.summary)

/-- The width of the longest of some terms. -/
def termWidth (terms : List (String × String)) : Nat :=
  terms.foldl (fun width term => max width term.1.length) 0

/-- Terms with their explanations under a heading. -/
def termList (heading : String) (terms : List (String × String)) : String :=
  if terms.isEmpty then ""
  else
    "\n" ++ heading ++ ":\n" ++ Text.join "" (terms.map fun (term, explanation) =>
      "  " ++ Text.padRight (termWidth terms) term ++ "  " ++ explanation ++ "\n")

/-- How the program or a command is called. -/
def usage : Option CommandName → String
  | none => programName ++ " [OPTIONS] <COMMAND>"
  | some c => programName ++ " " ++ c.name ++ " [OPTIONS] " ++ c.positional.shown

/-- What the program or a command does. -/
def summaryOf : Option CommandName → String
  | none => programSummary
  | some c => c.summary

/-- The commands or arguments with what they are. -/
def argumentSection : Option CommandName → String
  | none => termList "Commands" commandSummaries
  | some c => termList "Arguments" [(c.positional.shown, c.positional.summary)]

/-- The help on the program or a command. -/
def helpText (command : Option CommandName) : String :=
  summaryOf command ++ "\n\nUsage: " ++ usage command ++ "\n" ++ argumentSection command ++
    termList "Options" (optionSummaries command)

/-- The title of a man page. -/
def pageTitle : Option CommandName → String
  | none => programName
  | some c => programName ++ "-" ++ c.name

/-- The man page of the program or a command. -/
def manPage (command : Option CommandName) : String :=
  ".TH " ++ pageTitle command ++ " 1\n.SH NAME\n" ++ pageTitle command ++ " \\- " ++
    summaryOf command ++ "\n.SH SYNOPSIS\n" ++ usage command ++ "\n.SH OPTIONS\n" ++
    Text.join "" ((optionsOf command).map fun o => ".TP\n" ++ o.shown ++ "\n" ++ o.summary ++ "\n")

/-- The names of all man pages with their texts. -/
def manPages : List (String × String) :=
  (none :: CommandName.all.map some).map fun c => (pageTitle c ++ ".1", manPage c)

/-- The names of all commands with blanks between them. -/
def commandWords : String := Text.join " " (commandSummaries.map Prod.fst)

/-- A script for a shell that completes the names of commands. -/
def completionScript : Shell → String
  | .bash => "complete -W \"" ++ commandWords ++ "\" " ++ programName ++ "\n"
  | .elvish =>
    "set edit:completion:arg-completer[" ++ programName ++ "] = \x7b|@words| put " ++
      commandWords ++ " \x7d\n"
  | .fish =>
    "complete -c " ++ programName ++ " -n __fish_use_subcommand -f -a \"" ++ commandWords ++ "\"\n"
  | .powershell =>
    "Register-ArgumentCompleter -Native -CommandName '" ++ programName ++
      "' -ScriptBlock \x7b '" ++ commandWords ++ "' -split ' ' \x7d\n"
  | .zsh => "#compdef " ++ programName ++ "\n_arguments \"1:command:(" ++ commandWords ++ ")\"\n"

end AppBundle.CommandLine
