import AppBundle.Density
import AppBundle.Language
import AppBundle.Text.Pieces

/-!
# Paths of resources

A resource lies at `res/<type>[-<qualifier>...]/<file>`; the qualifiers tell for
which density and which language it is meant.
-/

namespace AppBundle

/-- The path of a resource, taken apart. -/
structure ResourcePath where
  /-- The type of the resource, such as `drawable`. -/
  kind : String
  /-- The qualifiers of the directory, in their order. -/
  qualifiers : List String
  /-- The path below the directory. -/
  file : String
  deriving DecidableEq

namespace ResourcePath

/-- Takes the path of a resource apart. -/
def parse? (path : String) : Option ResourcePath := do
  let rest ← Text.after? "res/" path
  let (directory, file) ← Text.cut? '/' rest
  match Text.split '-' directory with
  | kind :: qualifiers => some { kind, qualifiers, file }
  | [] => none

/-- The density class that the resource is meant for, the first one among its
qualifiers. -/
def density? (r : ResourcePath) : Option Density := r.qualifiers.findSome? Density.ofName?

/-- What the resource is regardless of its density; the variants of a resource
for different densities have the same key. -/
def key (r : ResourcePath) : String :=
  let others := r.qualifiers.filter fun q => (Density.ofName? q).isNone
  r.kind ++ "[" ++ Text.join "-" others ++ "]/" ++ r.file

/-- Qualifiers that have the shape of a language code and are none. -/
def notLanguages : List String := ["car", "hdr", "ldltr", "ldrtl"]

/-- The language that a qualifier stands for: a code in lower case, or a tag
`b+<code>+...`. -/
def qualifierLanguage? (q : String) : Option Language :=
  match Text.after? "b+" q with
  | some tag => Language.parse? (String.ofList (tag.toList.takeWhile (· ≠ '+')))
  | none =>
    if q ∈ notLanguages then none
    else (Language.parse? q).filter (·.code = q)

/-- Whether a qualifier stands for a mobile country or network code. -/
def isNetworkCode (q : String) : Bool := Text.startsWith "mcc" q || Text.startsWith "mnc" q

/-- The language that the resource is meant for, told by the first qualifier
after the codes of country and network. -/
def language? (r : ResourcePath) : Option Language :=
  (r.qualifiers.find? (!isNetworkCode ·)).bind qualifierLanguage?

end ResourcePath

end AppBundle
