import AppBundle.Archive.Name

/-!
# Headers of archived files

A header is a block of 512 bytes with fields of fixed sizes. Numbers are written
with octal digits, and those that need more digits than a field has are written as
bytes. The main statement is that every header fills its block.
-/

namespace AppBundle.Archive

/-- The number of bytes of a block. -/
def blockSize : Nat := 512

/-- The kinds of records in an archive. -/
inductive RecordKind where
  /-- The content of a file. -/
  | file
  /-- The name of the file in the record after it. -/
  | longName
  deriving DecidableEq

/-- The character of a kind in a header. -/
def RecordKind.code : RecordKind → Char
  | file => '0'
  | longName => 'L'

/-- A header. -/
structure Header where
  /-- The bytes of the field for the name, without zeros at the end. -/
  name : List UInt8
  /-- The number of bytes of the content. -/
  size : Nat
  kind : RecordKind

/-- Some bytes in a field, with zeros behind them. -/
def field (size : Nat) (bytes : List UInt8) : List UInt8 :=
  bytes.take size ++ List.replicate (size - bytes.length) 0

/-- The last octal digits of a number. -/
def octalDigits : (count : Nat) → Nat → List UInt8
  | 0, _ => []
  | count + 1, n => octalDigits count (n / 8) ++ [UInt8.ofNat (n % 8 + 48)]

/-- The last bytes of a number. -/
def lastBytes : (count : Nat) → Nat → List UInt8
  | 0, _ => []
  | count + 1, n => lastBytes count (n / 256) ++ [UInt8.ofNat n]

/-- The byte before a number that is written as bytes. It begins no text. -/
def bytesMark : UInt8 := 128

/-- A number in a field: its octal digits with a zero byte at the end, or its bytes
behind a mark if it has too many digits. -/
def numberField (size n : Nat) : List UInt8 :=
  if n < Nat.pow 8 (size - 1) then field size (octalDigits (size - 1) n)
  else field size (bytesMark :: lastBytes (size - 1) n)

/-- The fields before the checksum: the name, the permission to read for all and to
write for the owner, no owner, no group, the size, and no time of change. -/
def Header.beforeChecksum (h : Header) : List UInt8 :=
  field nameSize h.name ++ numberField 8 0o644 ++ numberField 8 0 ++ numberField 8 0 ++
    numberField 12 h.size ++ numberField 12 0

/-- The fields after the checksum: the kind, the name of a link, the mark of the
format, and what is not used. -/
def Header.afterChecksum (h : Header) : List UInt8 :=
  bytesOf (String.singleton h.kind.code) ++ field 100 [] ++ field 8 (bytesOf "ustar  ") ++
    field 247 []

/-- The sum of some bytes. -/
def byteSum (bytes : List UInt8) : Nat := bytes.foldl (fun sum b => sum + b.toNat) 0

/-- The sum of all bytes of a header, with blanks for the checksum itself. -/
def Header.checksum (h : Header) : Nat :=
  byteSum (h.beforeChecksum ++ List.replicate 8 32 ++ h.afterChecksum)

/-- The block of a header. -/
def Header.block (h : Header) : List UInt8 :=
  h.beforeChecksum ++ numberField 8 h.checksum ++ h.afterChecksum

@[simp] theorem length_field (size : Nat) (bytes : List UInt8) :
    (field size bytes).length = size := by
  simp only [field, List.length_append, List.length_take, List.length_replicate]
  omega

@[simp] theorem length_numberField (size n : Nat) : (numberField size n).length = size := by
  unfold numberField
  split <;> exact length_field _ _

/-- A header fills its block. -/
theorem Header.length_block (h : Header) : h.block.length = blockSize := by
  have hkind : (bytesOf (String.singleton h.kind.code)).length = 1 := by
    cases h.kind <;> decide
  simp [Header.block, Header.beforeChecksum, Header.afterChecksum, hkind, nameSize, blockSize]

end AppBundle.Archive
