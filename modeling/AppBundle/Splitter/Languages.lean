import AppBundle.Splitter.Division
import AppBundle.Splitter.ResourcePath

/-!
# Resources and assets by language

A resource tells its language by a qualifier of its directory, an asset by a
directory that ends in `#lang_<code>`. The content of each language forms a
split.
-/

namespace AppBundle

/-- The language of a resource; a resource qualified by a density has none. -/
def resourceLanguage? (path : String) : Option Language := do
  let resource ← ResourcePath.parse? path
  if resource.density?.isSome then none else resource.language?

/-- The language of an asset, told by its innermost directory that is marked
with `#lang_`. -/
def assetLanguage? (path : String) : Option Language := do
  let rest ← Text.after? "assets/" path
  let directories := (Text.split '/' rest).dropLast
  let code ← directories.reverse.findSome? (Text.afterFirst? "#lang_")
  Language.parse? code

/-- One split per language, after the split of all that has no language. -/
def Split.byLanguage (s : Split) (language? : String → Option Language) : List Split :=
  s.divide (s.entries.map fun e => (e, language? e.path)) fun l _ => .forLanguage l

end AppBundle
