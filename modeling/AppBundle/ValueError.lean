/-!
# Refused names of target values

The causes for which the name of an architecture, a density class or a language
is refused, and the wording of each.
-/

namespace AppBundle

/-- The cause for which a name is refused. -/
inductive ValueError where
  | unknownAbi (name : String)
  | unknownDensity (name : String)
  | invalidLanguage (code : String)
  deriving DecidableEq

/-- The wording of the cause. -/
def ValueError.message : ValueError → String
  | unknownAbi name => "unknown ABI: '" ++ name ++ "'"
  | unknownDensity name => "unknown screen density bucket: '" ++ name ++ "'"
  | invalidLanguage code => "invalid language code: '" ++ code ++ "'"

end AppBundle
