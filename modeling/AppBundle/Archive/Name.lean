import AppBundle.Files.Path

/-!
# Names in archives

The header of an archived file has a field of 100 bytes for its name. The name is
copied into the field part by part, without what leads nowhere. The main statement
is that what was copied fits into the field.
-/

namespace AppBundle.Archive

/-- The number of bytes of the field for a name. -/
def nameSize : Nat := 100

/-- The byte of a slash. -/
def slash : UInt8 := 47

/-- The bytes of a text. -/
def bytesOf (s : String) : List UInt8 := s.toUTF8.data.toList

/-- The parts of a path that go into a name. A path that leads nowhere at all is a
point, if it begins with one. -/
def nameParts (path : String) : List String :=
  let parts := Text.split '/' path
  match parts.filter (!Files.isIdlePart ·) with
  | [] => if parts.head? = some "." then ["."] else []
  | leading => leading

/-- What was copied into the field for a name. -/
structure Copied where
  bytes : List UInt8
  /-- Whether the whole name was copied. -/
  complete : Bool
  deriving DecidableEq

/-- What comes before the next part: a slash, if that is not the first one. -/
def leadOf (before : List UInt8) : List UInt8 :=
  if before.isEmpty then [] else before ++ [slash]

/-- Adds a part to what was copied. -/
def Copied.addPart (before : List UInt8) (part : String) : Copied :=
  if nameSize < (leadOf before).length then ⟨before, false⟩
  else if 0 ∈ bytesOf part ∨ nameSize < (leadOf before).length + (bytesOf part).length then
    ⟨leadOf before, false⟩
  else ⟨leadOf before ++ bytesOf part, true⟩

/-- Copies the parts of a name, up to the first one that is refused. Two points are
refused, but not at the end of a name that was cut. -/
def copyParts (isCut : Bool) (before : List UInt8) : List String → Copied
  | [] => ⟨before, true⟩
  | part :: rest =>
    if part = ".." ∧ ¬ (isCut ∧ rest = []) then ⟨before, false⟩
    else
      let copied := Copied.addPart before part
      if copied.complete then copyParts isCut copied.bytes rest else copied

/-- Copies the name that a path stands for. A slash at the end stays. -/
def copyName (isCut : Bool) (path : String) : Copied :=
  if Files.isAbsolute path then ⟨[], false⟩
  else
    match nameParts path with
    | [] => ⟨[], false⟩
    | parts =>
      let copied := copyParts isCut [] parts
      if copied.complete ∧ Text.endsWith "/" path then
        if copied.bytes.length < nameSize then ⟨copied.bytes ++ [slash], true⟩
        else ⟨copied.bytes, false⟩
      else copied

/-- The beginning of a path that fits into the field. -/
def cutPath (path : String) : String := Text.takeBytes nameSize path

/-- The field for a name, with what a longer name left behind the end of a shorter
one that was copied after it. -/
def overlay (bytes before : List UInt8) : List UInt8 :=
  (bytes ++ 0 :: before.drop (bytes.length + 1)).take nameSize

theorem Copied.length_addPart {before : List UInt8} (h : before.length ≤ nameSize)
    (part : String) : (Copied.addPart before part).bytes.length ≤ nameSize := by
  unfold Copied.addPart
  split
  · exact h
  · split
    · dsimp only
      omega
    · rename_i hbody
      simp only [not_or] at hbody
      simp only [List.length_append]
      omega

theorem length_copyParts (isCut : Bool) {b : List UInt8} (h : b.length ≤ nameSize)
    (parts : List String) : (copyParts isCut b parts).bytes.length ≤ nameSize := by
  induction parts generalizing b with
  | nil => exact h
  | cons part rest ih =>
    unfold copyParts
    dsimp only
    split
    · exact h
    · split
      · exact ih (Copied.length_addPart h part)
      · exact Copied.length_addPart h part

/-- What was copied fits into the field. -/
theorem length_copyName (isCut : Bool) (path : String) :
    (copyName isCut path).bytes.length ≤ nameSize := by
  unfold copyName
  split
  · simp
  · split
    · simp
    · dsimp only
      have hparts := length_copyParts isCut (b := []) (Nat.zero_le nameSize)
      split
      · split
        · simp only [List.length_append, List.length_singleton]
          omega
        · exact hparts _
      · exact hparts _

end AppBundle.Archive
