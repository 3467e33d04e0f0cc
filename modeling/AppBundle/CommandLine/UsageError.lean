import AppBundle.CommandLine.Arguments
import AppBundle.Text.Pieces
import AppBundle.Text.Terminal

/-!
# Refused command lines

The causes for which a command line is refused, and the wording of each. What the
user wrote and the names of arguments are set apart from the other words.
-/

namespace AppBundle.CommandLine

/-- The cause for which a command line is refused. Arguments are given as they are
shown to the user. -/
inductive UsageError where
  | unknownCommand (name : String)
  | unexpectedArgument (text : String)
  | missingArguments (arguments : List String)
  /-- A value that an argument cannot have, with more words on the cause. -/
  | invalidValue (value argument more : String)
  | missingValue (argument : String)
  | repeatedArgument (argument : String)
  /-- A value for an option that takes none. -/
  | unneededValue (value argument : String)
  | missingCommand
  deriving DecidableEq

open Text (emphasize)

/-- The wording of the cause. -/
def UsageError.message : UsageError → String
  | unknownCommand name => "unrecognized subcommand '" ++ emphasize .yellow name ++ "'"
  | unexpectedArgument text => "unexpected argument '" ++ emphasize .yellow text ++ "' found"
  | missingArguments arguments =>
    "the following required arguments were not provided:" ++
      Text.join "" (arguments.map ("\n  " ++ emphasize .green ·))
  | invalidValue value argument more =>
    "invalid value '" ++ emphasize .yellow value ++ "' for '" ++ emphasize .bold argument ++ "'" ++
      more
  | missingValue argument =>
    "a value is required for '" ++ emphasize .yellow argument ++ "' but none was supplied"
  | repeatedArgument argument =>
    "the argument '" ++ emphasize .yellow argument ++ "' cannot be used multiple times"
  | unneededValue value argument =>
    "unexpected value '" ++ emphasize .yellow value ++ "' for '" ++ emphasize .bold argument ++
      "' found; no more were expected"
  | missingCommand =>
    "'" ++ emphasize .yellow programName ++ "' requires a subcommand but one was not provided"

/-- What is printed on a refused command line. -/
def UsageError.report (cause : UsageError) : String :=
  emphasize .red "error:" ++ " " ++ cause.message ++ "\n\nFor more information, try '" ++
    emphasize .bold "--help" ++ "'.\n"

end AppBundle.CommandLine
