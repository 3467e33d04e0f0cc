import AppBundle.Proofs.ArchiveNames
import AppBundle.Proofs.Identities
import Mathlib.Data.List.GetD

/-!
# Digests of short inputs

An input of at most 1024 bytes is one chunk, so its digest takes no tree: the blocks are compressed
one after the other. Here this is done with lists, which are read from the front, and not with an
array of bytes, in which every place is looked up on its own. The same is done for the text of a
package, so that the identifiers of packages with short files can be computed inside proofs.
-/

namespace AppBundle

open Archive

namespace Blake3

/-- The word of four bytes, the lowest first. -/
def wordOf (a b c d : UInt8) : UInt32 :=
  a.toUInt32 ||| (b.toUInt32 <<< 8) ||| (c.toUInt32 <<< 16) ||| (d.toUInt32 <<< 24)

/-- The words of some bytes. The last one is filled up with zeros. -/
def wordsOf : List UInt8 → List UInt32
  | a :: b :: c :: d :: rest => wordOf a b c d :: wordsOf rest
  | rest => [wordOf (rest.getD 0 0) (rest.getD 1 0) (rest.getD 2 0) 0]

/-- The first four words, zeros behind the end. -/
def rowOf (words : List UInt32) : Row :=
  ⟨words.getD 0 0, words.getD 1 0, words.getD 2 0, words.getD 3 0⟩

/-- The first sixteen words, zeros behind the end. -/
def messageOf (words : List UInt32) : Message :=
  ⟨rowOf words, rowOf (words.drop 4), rowOf (words.drop 8), rowOf (words.drop 12)⟩

/-- Compresses the blocks of a chunk but the last one. There are `more` blocks after the first one,
and `size` bytes in the words that are left. -/
def blocksFrom (counter : Nat) :
    (more size : Nat) → (words : List UInt32) → (chain : Chain) → (flags : UInt32) → Pending
  | 0, size, words, chain, flags =>
    { chain, message := messageOf words, counter, length := size, flags := flags ||| chunkEnd }
  | more + 1, size, words, chain, flags =>
    let block : Pending := { chain, message := messageOf words, counter, length := 64, flags }
    blocksFrom counter more (size - 64) (words.drop 16) (block.compress 0) 0

/-- The words of the digest of one chunk. -/
def shortDigest (bytes : List UInt8) : Chain :=
  (blocksFrom 0 ((bytes.length - 1) / 64) bytes.length (wordsOf bytes) start chunkStart).compress
    rootFlag

theorem getD_wordsOf (bytes : List UInt8) (i : Nat) :
    (wordsOf bytes).getD i 0 = wordOf (bytes.getD (4 * i) 0) (bytes.getD (4 * i + 1) 0)
      (bytes.getD (4 * i + 2) 0) (bytes.getD (4 * i + 3) 0) := by
  fun_induction wordsOf bytes generalizing i with
  | case1 a b c d rest ih =>
    cases i with
    | zero => rfl
    | succ i => simpa [Nat.mul_succ] using ih i
  | case2 rest hrest =>
    have hshort : rest.length ≤ 3 := by
      match rest, hrest with
      | [], _ | [_], _ | [_, _], _ | [_, _, _], _ => simp
      | a :: b :: c :: d :: rest, hrest => exact absurd rfl (hrest a b c d rest)
    have hbehind {j : Nat} (hj : 3 ≤ j) : rest.getD j 0 = 0 :=
      List.getD_eq_default _ _ (Nat.le_trans hshort hj)
    cases i with
    | zero =>
      rw [hbehind (Nat.le_refl 3)]
      rfl
    | succ i =>
      rw [hbehind (by omega : 3 ≤ 4 * (i + 1)), hbehind (by omega : 3 ≤ 4 * (i + 1) + 1),
        hbehind (by omega : 3 ≤ 4 * (i + 1) + 2), hbehind (by omega : 3 ≤ 4 * (i + 1) + 3)]
      rfl

section Places

variable (bytes : ByteArray)

theorem byteAt_eq (i : Nat) : byteAt bytes i = (bytes.data.toList.getD i 0).toUInt32 := by
  unfold byteAt
  split
  · rename_i h
    rw [List.getD_eq_getElem _ _ (by simpa using h)]
    rfl
  · rename_i h
    rw [List.getD_eq_default _ _ (by simpa using h)]
    rfl

theorem wordAt_eq (i : Nat) :
    wordAt bytes (4 * i) = (wordsOf bytes.data.toList).getD i 0 := by
  simp only [wordAt, byteAt_eq, getD_wordsOf, wordOf]

theorem rowAt_eq (i : Nat) :
    rowAt bytes (4 * i) = rowOf ((wordsOf bytes.data.toList).drop i) := by
  have hword (j : Nat) : wordAt bytes (4 * i + 4 * j) =
      ((wordsOf bytes.data.toList).drop i).getD j 0 := by
    rw [← Nat.mul_add, wordAt_eq]
    simp
  rw [rowAt, rowOf, ← hword 0, ← hword 1, ← hword 2, ← hword 3]
  rfl

theorem messageAt_eq (i : Nat) :
    messageAt bytes (4 * i) = messageOf ((wordsOf bytes.data.toList).drop i) := by
  have hrow (j : Nat) : rowAt bytes (4 * i + 4 * j) =
      rowOf (((wordsOf bytes.data.toList).drop i).drop j) := by
    rw [← Nat.mul_add, rowAt_eq, List.drop_drop]
  rw [messageAt, messageOf, ← hrow 4, ← hrow 8, ← hrow 12, rowAt_eq]

/-- The blocks of a chunk are those of the list of its words. -/
theorem chunkFrom_eq (counter more i : Nat) (chain : Chain) (flags : UInt32) :
    chunkFrom bytes counter more (4 * i) chain flags =
      blocksFrom counter more (bytes.size - 4 * i) ((wordsOf bytes.data.toList).drop i) chain
        flags := by
  induction more generalizing i chain flags with
  | zero => rw [chunkFrom, blocksFrom, messageAt_eq]
  | succ more ih =>
    have hoffset : 4 * i + 64 = 4 * (i + 16) := by omega
    rw [chunkFrom, blocksFrom, messageAt_eq, hoffset, ih, List.drop_drop, Nat.sub_sub, hoffset]

/-- A short input has the digest of its one chunk. -/
theorem digest_eq_shortDigest (h : bytes.size ≤ 1024) :
    digest bytes = shortDigest bytes.data.toList := by
  have hcount : chunkCount bytes.size = 1 := by
    rw [chunkCount]
    omega
  have hwhole : bytes.extract (1024 * 0) (1024 * (0 + 1)) = bytes := by
    ext1
    rw [ByteArray.data_extract]
    exact Array.extract_eq_self_of_le h
  have hchunk : chunk bytes 0 = blocksFrom 0 ((bytes.size - 1) / 64) bytes.size
      (wordsOf bytes.data.toList) start chunkStart := chunkFrom_eq bytes 0 _ 0 start chunkStart
  rw [digest, hcount]
  simp only [List.range_one, List.map_singleton, hwhole, hchunk]
  rfl

end Places

/-! ## Digits -/

/-- The digit of a number below sixteen, as a byte. -/
def digitByte (n : Nat) : UInt8 := if n < 10 then UInt8.ofNat (48 + n) else UInt8.ofNat (87 + n)

/-- The digits of a digest, as bytes. -/
def digitsOf (c : Chain) : List UInt8 :=
  (c.words.flatMap wordBytes).flatMap fun b => [digitByte (b.toNat / 16), digitByte (b.toNat % 16)]

theorem length_digitsOf (c : Chain) : (digitsOf c).length = 64 := by
  simp [digitsOf, Chain.words, Row.words, wordBytes]

theorem utf8EncodeChar_hexDigit {n : Nat} (h : n < 16) :
    String.utf8EncodeChar (Text.hexDigit n) = [digitByte n] := by
  have hall : ∀ n : Fin 16, String.utf8EncodeChar (Text.hexDigit n) = [digitByte n] := by decide
  exact hall ⟨n, h⟩

/-- The bytes of a digest are its digits. -/
theorem bytesOf_hex (bytes : ByteArray) : bytesOf (hex bytes) = digitsOf (digest bytes) := by
  have hbyte (b : UInt8) : (hexByte b).flatMap String.utf8EncodeChar =
      [digitByte (b.toNat / 16), digitByte (b.toNat % 16)] := by
    have hlt : b.toNat < 256 := b.toNat_lt
    rw [hexByte, List.flatMap_cons, List.flatMap_singleton, utf8EncodeChar_hexDigit (by omega),
      utf8EncodeChar_hexDigit (by omega)]
    rfl
  rw [bytesOf_eq_flatMap, hex, String.toList_ofList, List.flatMap_assoc, digitsOf]
  simp only [hbyte]

-- the digest of no bytes
example : digitsOf (shortDigest []) =
    bytesOf "af1349b9f5f9a1a6a0404dea36dcc9499bcb25c9adc112b7cc9a93cae41f3262" := by
  decide +kernel

theorem size_hex (bytes : ByteArray) : (hex bytes).utf8ByteSize = 64 := by
  rw [← length_bytesOf, bytesOf_hex, length_digitsOf]

end Blake3

/-! ## Identifiers -/

/-- The bytes of the line for an entry with a short content. -/
def Entry.lineBytes (e : Entry) : List UInt8 :=
  bytesOf e.path ++ 32 :: Blake3.digitsOf (Blake3.shortDigest e.content.data.toList) ++ [10]

/-- The bytes of the text for a package with short files. -/
def identityBytes (t : Targeting) (entries : List Entry) : List UInt8 :=
  bytesOf t.label ++ 10 :: entries.flatMap Entry.lineBytes

variable {t : Targeting} {e : Entry} {entries : List Entry}

theorem Entry.bytesOf_line (h : e.content.size ≤ 1024) : bytesOf e.line = e.lineBytes := by
  have hspace : bytesOf " " = [32] := by decide
  have hbreak : bytesOf "\n" = [10] := by decide
  rw [line, bytesOf_append, bytesOf_append, bytesOf_append, hspace, hbreak, Blake3.bytesOf_hex,
    Blake3.digest_eq_shortDigest _ h]
  simp [lineBytes]

theorem bytesOf_identity (h : ∀ e ∈ entries, e.content.size ≤ 1024) :
    bytesOf (identity t entries) = identityBytes t entries := by
  have hbreak : bytesOf "\n" = [10] := by decide
  have hlines : bytesOf (Text.join "" (entries.map Entry.line)) =
      entries.flatMap Entry.lineBytes := by
    induction entries with
    | nil => rfl
    | cons e rest ih =>
      obtain ⟨he, hrest⟩ := List.forall_mem_cons.mp h
      rw [List.map_cons, Text.join_empty_cons, bytesOf_append, Entry.bytesOf_line he, ih hrest,
        List.flatMap_cons]
  rw [identity, bytesOf_append, bytesOf_append, hbreak, hlines]
  simp [identityBytes]

namespace Package

variable {p : Package}

/-- The files of a package are short, and so is the text for it. -/
structure IsShort (p : Package) : Prop where
  entries : ∀ e ∈ p.entries, e.content.size ≤ 1024
  text : (identityBytes p.targeting p.entries).length ≤ 1024

instance (p : Package) : Decidable p.IsShort :=
  decidable_of_iff ((∀ e ∈ p.entries, e.content.size ≤ 1024) ∧
    (identityBytes p.targeting p.entries).length ≤ 1024)
    ⟨fun h => ⟨h.1, h.2⟩, fun h => ⟨h.entries, h.text⟩⟩

/-- The bytes of the identifier of a short package. -/
def idBytes (p : Package) : List UInt8 :=
  Blake3.digitsOf (Blake3.shortDigest (identityBytes p.targeting p.entries))

/-- The identifier of a short package can be computed from lists of bytes. -/
theorem bytesOf_id (hid : p.id = Blake3.hex p.identityText.toUTF8) (h : p.IsShort) :
    bytesOf p.id = p.idBytes := by
  have htext : p.identityText.toUTF8.data.toList = identityBytes p.targeting p.entries :=
    bytesOf_identity h.entries
  have hsize : p.identityText.toUTF8.size ≤ 1024 := by
    have hlength := congrArg List.length htext
    rw [Array.length_toList] at hlength
    exact hlength.le.trans h.text
  rw [hid, Blake3.bytesOf_hex, Blake3.digest_eq_shortDigest _ hsize, htext, idBytes]

end Package

end AppBundle
