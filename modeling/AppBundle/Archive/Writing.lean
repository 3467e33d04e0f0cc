import AppBundle.Archive.Header
import AppBundle.Entry

/-!
# Writing archives

An archive has a record for each file: a header and the content, filled up to whole
blocks. A name that does not fit into a header comes in a record of its own before
that of its file. The main statement is that an archive consists of whole blocks.
-/

namespace AppBundle.Archive

/-- The refusal of a path that cannot be a name in an archive. -/
structure RefusedName where
  path : String
  deriving DecidableEq

/-- The wording of the refusal. -/
def RefusedName.message (e : RefusedName) : String :=
  "'" ++ e.path ++ "' is no relative path of a file"

/-- A header with its content. -/
structure Record where
  header : Header
  content : ByteArray

/-- The name of records with long names. -/
def longNameMark : List UInt8 := bytesOf "././@LongLink"

/-- The record of a long name, which ends with a zero byte. -/
def longNameRecord (path : String) : Record :=
  let content := path.toUTF8 ++ [0].toByteArray
  { header := { name := longNameMark, size := content.size, kind := .longName }, content }

/-- The record of a file. -/
def fileRecord (name : List UInt8) (content : ByteArray) : Record :=
  { header := { name, size := content.size, kind := .file }, content }

/-- The records of an entry. A path of at least 100 bytes that is refused as a name
is cut, and the whole path comes in a record before it. -/
def entryRecords (e : Entry) : Except RefusedName (List Record) :=
  let copied := copyName false e.path
  if copied.complete then .ok [fileRecord copied.bytes e.content]
  else if e.path.utf8ByteSize < nameSize then .error ⟨e.path⟩
  else
    let short := copyName true (cutPath e.path)
    if short.complete then
      .ok [longNameRecord e.path, fileRecord (overlay short.bytes copied.bytes) e.content]
    else .error ⟨e.path⟩

/-- The number of bytes that are missing to whole blocks. -/
def missingBytes (size : Nat) : Nat := (blockSize - size % blockSize) % blockSize

/-- Some zero bytes. -/
def zeros (count : Nat) : ByteArray := (List.replicate count 0).toByteArray

/-- The bytes of a record. -/
def Record.bytes (r : Record) : ByteArray :=
  r.header.block.toByteArray ++ r.content ++ zeros (missingBytes r.content.size)

/-- The bytes of some records after those that were written before. -/
def appendRecords (written : ByteArray) (records : List Record) : ByteArray :=
  records.foldl (fun bytes r => bytes ++ r.bytes) written

/-- The archive of some entries, with two blocks of zeros at the end. -/
def write (entries : List Entry) : Except RefusedName ByteArray := do
  let records ← entries.mapM entryRecords
  return appendRecords .empty records.flatten ++ zeros (2 * blockSize)

theorem size_zeros (count : Nat) : (zeros count).size = count := by simp [zeros]

theorem missingBytes_spec (size : Nat) : (size + missingBytes size) % blockSize = 0 := by
  simp only [missingBytes, blockSize]
  omega

/-- A record consists of whole blocks. -/
theorem Record.size_bytes (r : Record) : r.bytes.size % blockSize = 0 := by
  have h := missingBytes_spec r.content.size
  simp only [Record.bytes, ByteArray.size_append, List.size_toByteArray, Header.length_block,
    size_zeros]
  simp only [blockSize] at *
  omega

theorem size_appendRecords {w : ByteArray} (h : w.size % blockSize = 0)
    (records : List Record) : (appendRecords w records).size % blockSize = 0 := by
  induction records generalizing w with
  | nil => exact h
  | cons r rest ih =>
    refine ih ?_
    have hr := r.size_bytes
    simp only [ByteArray.size_append, blockSize] at *
    omega

/-- An archive consists of whole blocks. -/
theorem size_write {entries : List Entry} {archive : ByteArray}
    (h : write entries = .ok archive) : archive.size % blockSize = 0 := by
  unfold write at h
  cases hrec : entries.mapM entryRecords with
  | error e => simp [hrec, bind, Except.bind] at h
  | ok records =>
    simp only [hrec, bind, Except.bind, pure, Except.pure, Except.ok.injEq] at h
    rw [← h, ByteArray.size_append, size_zeros]
    have := size_appendRecords (w := .empty) rfl records.flatten
    simp only [blockSize] at *
    omega

end AppBundle.Archive
