/-!
# Refused file operations

The causes for which a file cannot be read or written, and the wording of each.
-/

namespace AppBundle

/-- The causes for which a file cannot be read or written. -/
inductive FileError where
  | notFound
  | alreadyExists
  | notDirectory
  | isDirectory
  | nameTooLong
  | tooManyLinks
  | notText
  | nulInName
  /-- A cause of another kind, in the words of the system. -/
  | system (words : String)
  deriving DecidableEq

/-- The wording of the cause. -/
def FileError.message : FileError → String
  | notFound => "No such file or directory (os error 2)"
  | alreadyExists => "File exists (os error 17)"
  | notDirectory => "Not a directory (os error 20)"
  | isDirectory => "Is a directory (os error 21)"
  | nameTooLong => "File name too long (os error 36)"
  | tooManyLinks => "Too many levels of symbolic links (os error 40)"
  | notText => "stream did not contain valid UTF-8"
  | nulInName => "file name contained an unexpected NUL byte"
  | system words => words

end AppBundle
