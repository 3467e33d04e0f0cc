import AppBundle.Archive.Writing

/-!
# Reading archives

An archive is read block by block: a header, then the content up to the next whole
block, until a block of zeros. A record with a long name gives the name of the file
after it. The main statement is that a header is only read from a whole block whose
checksum is right.
-/

namespace AppBundle.Archive

/-- The bytes of a field up to the first zero. -/
def fieldText (bytes : List UInt8) : List UInt8 := bytes.takeWhile (· ≠ 0)

/-- The value of an octal digit. -/
def octalValue? (digit : UInt8) : Option Nat :=
  if 48 ≤ digit ∧ digit < 56 then some (digit.toNat - 48) else none

/-- The number that octal digits stand for, after some leading digits. -/
def octalNumber? (before : Nat) : List UInt8 → Option Nat
  | [] => some before
  | digit :: rest => do octalNumber? (8 * before + (← octalValue? digit)) rest

/-- The number that some bytes make, after some leading ones. -/
def bytesNumber (before : Nat) (bytes : List UInt8) : Nat :=
  bytes.foldl (fun n b => 256 * n + b.toNat) before

/-- The number in a field, which is written as bytes if there is a mark before it. -/
def fieldNumber? (bytes : List UInt8) : Option Nat :=
  match bytes with
  | [] => some 0
  | first :: rest =>
    if bytesMark ≤ first then some (bytesNumber (first - bytesMark).toNat rest)
    else octalNumber? 0 (fieldText bytes)

/-- Some of the bytes of a block. -/
def part (start size : Nat) (block : List UInt8) : List UInt8 := (block.drop start).take size

/-- The sum of all bytes of a block, with blanks for the checksum itself. -/
def blockSum (block : List UInt8) : Nat :=
  byteSum (block.take 148) + 8 * 32 + byteSum (block.drop 156)

/-- The kind of a record. -/
def RecordKind.ofCode? (code : List UInt8) : Option RecordKind :=
  if code = [48] then some .file else if code = [76] then some .longName else none

/-- The header in a block; none if the checksum is not right. -/
def Header.ofBlock? (block : List UInt8) : Option Header := do
  let size ← fieldNumber? (part 124 12 block)
  let checksum ← fieldNumber? (part 148 8 block)
  let kind ← RecordKind.ofCode? (part 156 1 block)
  if block.length = blockSize ∧ checksum = blockSum block then
    some { name := fieldText (part 0 nameSize block), size, kind }
  else none

/-- The names and contents of the files in an archive. The name is that of the
header, if no longer name has come before. -/
def filesFrom? (longName : Option (List UInt8)) (bytes : List UInt8) :
    Option (List (List UInt8 × List UInt8)) :=
  if _h : bytes.length < blockSize then none
  else
    let block := bytes.take blockSize
    if block.all (· = 0) then some []
    else do
      let header ← Header.ofBlock? block
      let content := part blockSize header.size bytes
      let rest := bytes.drop (blockSize + (header.size + missingBytes header.size))
      if content.length < header.size then none
      else
        match header.kind with
        | .longName => filesFrom? (some (fieldText content)) rest
        | .file => return (longName.getD header.name, content) :: (← filesFrom? none rest)
termination_by bytes.length
decreasing_by all_goals
  simp only [List.length_drop, blockSize] at *
  omega

/-- A file as an entry; none if its name is no text. -/
def entryOfFile? (file : List UInt8 × List UInt8) : Option Entry :=
  (String.fromUTF8? file.1.toByteArray).map fun path =>
    { path, content := file.2.toByteArray }

/-- The entries of an archive. -/
def read? (archive : ByteArray) : Option (List Entry) := do
  (← filesFrom? none archive.data.toList).mapM entryOfFile?

/-- A header is only read from a whole block whose checksum is right. -/
theorem Header.length_of_ofBlock? {block : List UInt8} {h : Header}
    (hblock : Header.ofBlock? block = some h) :
    block.length = blockSize ∧ fieldNumber? (part 148 8 block) = some (blockSum block) := by
  simp only [Header.ofBlock?, Option.bind_eq_bind, Option.bind_eq_some_iff] at hblock
  obtain ⟨size, _, checksum, hchecksum, kind, _, hif⟩ := hblock
  split at hif
  · rename_i hcond
    exact ⟨hcond.1, hcond.2 ▸ hchecksum⟩
  · cases hif

end AppBundle.Archive
