import AppBundle.PathError
import AppBundle.OrderedMap
import AppBundle.Splitter.Division

/-!
# System images by sets of architectures

A system image lies at `apex/<abi>[.<abi>...].img`, and a file that tells how it
was built may lie beside it. The images of each set of architectures form a
split, together with the files that belong to them.
-/

namespace AppBundle

/-- What an entry is among system images. -/
inductive ApexFile where
  /-- A system image with the list of its architectures. -/
  | image (stem : String)
  /-- The file that tells how the image of the same stem was built. -/
  | buildInfo (stem : String)
  | other
  deriving DecidableEq

namespace ApexFile

/-- What the entry of a path is. -/
def ofPath (path : String) : ApexFile :=
  match Text.after? "apex/" path with
  | none => other
  | some name =>
    match Text.before? ".build_info.pb" name with
    | some stem => buildInfo stem
    | none =>
      match Text.before? ".img" name with
      | some stem => image stem
      | none => other

/-- The set of architectures that a stem lists between dots. -/
def abis? (stem : String) : Option AbiSet :=
  if stem = "" then none
  else ((Text.split '.' stem).mapM Abi.ofName?).map OrderedSet.ofList

/-- The stem of a file that tells how an image was built. -/
def buildInfoStem? (path : String) : Option String :=
  match ofPath path with
  | buildInfo stem => some stem
  | _ => none

/-- The set of architectures of an image; all other paths have none. Fails for
an image whose stem is no list of architectures. -/
def imageAbis (path : String) : Except PathError (Option AbiSet) :=
  match ofPath path with
  | image stem =>
    match abis? stem with
    | some abis => .ok (some abis)
    | none => .error (.malformedApexImage path)
  | _ => .ok none

end ApexFile

/-- The entries other than those that tell how an image was built, with the sets
of architectures of the images. -/
def labelImages (entries : List Entry) : Except PathError (List (Entry × Option AbiSet)) :=
  (entries.filter fun e => (ApexFile.buildInfoStem? e.path).isNone).mapM fun e =>
    do return (e, ← ApexFile.imageAbis e.path)

/-- The files that tell how an image was built, in the order of their stems. Such
a file goes with the images of its set of architectures, if there are any. -/
def labelBuildInfo (entries : List Entry) (images : OrderedSet AbiSet) :
    List (Entry × Option AbiSet) :=
  let files := entries.filterMap fun e => (ApexFile.buildInfoStem? e.path).map (·, e)
  (OrderedMap.ofList files).toList.map fun (stem, e) =>
    (e, (ApexFile.abis? stem).filter (· ∈ images))

/-- One split per set of architectures among the images, after the split of all
else. -/
def Split.byImageAbis (s : Split) : Except PathError (List Split) := do
  let images ← labelImages s.entries
  return s.divide (images ++ labelBuildInfo s.entries (occurringLabels images)) .forAbiSet

end AppBundle
