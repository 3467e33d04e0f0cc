import AppBundle.Proofs.ArchivedEntries
import Mathlib.Tactic.Ring

/-!
# Fields of headers

A header is read from its block again. Its numbers are, whether they are written with octal digits
or as bytes; its name is, up to the zeros behind it; and the checksum in the block is the sum of its
bytes with blanks for the checksum itself.
-/

namespace AppBundle.Archive

/-! ## Numbers -/

/-- Octal digits are added to those before them. -/
theorem octalNumber?_octalDigits (count n before : Nat) (rest : List UInt8) :
    octalNumber? before (octalDigits count n ++ rest) =
      octalNumber? (before * 8 ^ count + n % 8 ^ count) rest := by
  induction count generalizing n rest with
  | zero => simp [octalDigits, Nat.mod_one]
  | succ count ih =>
    have hdigit : octalValue? (UInt8.ofNat (n % 8 + 48)) = some (n % 8) := by
      have htoNat : (UInt8.ofNat (n % 8 + 48)).toNat = n % 8 + 48 :=
        UInt8.toNat_ofNat_of_lt' (by change n % 8 + 48 < 256; omega)
      rw [octalValue?, if_pos, htoNat, Nat.add_sub_cancel]
      rw [UInt8.le_iff_toNat_le, UInt8.lt_iff_toNat_lt, htoNat]
      change 48 ≤ n % 8 + 48 ∧ n % 8 + 48 < 56
      omega
    have hnumber : 8 * (before * 8 ^ count + n / 8 % 8 ^ count) + n % 8 =
        before * 8 ^ (count + 1) + n % 8 ^ (count + 1) := by
      rw [Nat.pow_succ', Nat.mod_mul]
      ring
    rw [octalDigits, List.append_assoc, ih, List.singleton_append, octalNumber?, hdigit,
      ← hnumber]
    rfl

/-- Bytes are added to those before them. -/
theorem bytesNumber_lastBytes (count n before : Nat) :
    bytesNumber before (lastBytes count n) = before * 256 ^ count + n % 256 ^ count := by
  induction count generalizing n with
  | zero => simp [lastBytes, bytesNumber, Nat.mod_one]
  | succ count ih =>
    have hlast : bytesNumber before (lastBytes (count + 1) n) =
        256 * bytesNumber before (lastBytes count (n / 256)) + n % 256 := by
      rw [bytesNumber, lastBytes, List.foldl_concat, UInt8.toNat_ofNat']
      rfl
    rw [hlast, ih, Nat.pow_succ', Nat.mod_mul]
    ring

theorem length_octalDigits (count n : Nat) : (octalDigits count n).length = count := by
  induction count generalizing n with
  | zero => rfl
  | succ count ih => rw [octalDigits, List.length_append, ih, List.length_singleton]

theorem length_lastBytes (count n : Nat) : (lastBytes count n).length = count := by
  induction count generalizing n with
  | zero => rfl
  | succ count ih => rw [lastBytes, List.length_append, ih, List.length_singleton]

/-- The bytes of octal digits are neither zeros nor marks. -/
theorem lt_of_mem_octalDigits {count n : Nat} {b : UInt8} (h : b ∈ octalDigits count n) :
    0 < b ∧ b < bytesMark := by
  induction count generalizing n with
  | zero => exact absurd h List.not_mem_nil
  | succ count ih =>
    rcases List.mem_append.mp h with h | h
    · exact ih h
    · obtain rfl := List.mem_singleton.mp h
      have htoNat : (UInt8.ofNat (n % 8 + 48)).toNat = n % 8 + 48 :=
        UInt8.toNat_ofNat_of_lt' (by change n % 8 + 48 < 256; omega)
      rw [UInt8.lt_iff_toNat_lt, UInt8.lt_iff_toNat_lt, htoNat]
      change 0 < n % 8 + 48 ∧ n % 8 + 48 < 128
      omega

/-- A number that fits into a field is read from it again. -/
theorem fieldNumber?_numberField {size n : Nat} (hsize : 1 < size) (h : n < 256 ^ (size - 1)) :
    fieldNumber? (numberField size n) = some n := by
  unfold numberField
  split
  · rename_i hoctal
    have hzero : 0 ∉ octalDigits (size - 1) n := fun hmem =>
      absurd (lt_of_mem_octalDigits hmem).1 (by decide)
    have htext : fieldText (field size (octalDigits (size - 1) n)) = octalDigits (size - 1) n :=
      fieldText_field hzero (by rw [length_octalDigits]; omega)
    have hnumber : octalNumber? 0 (octalDigits (size - 1) n) = some n := by
      have hmod : n % 8 ^ (size - 1) = n := Nat.mod_eq_of_lt hoctal
      have hdigits := octalNumber?_octalDigits (size - 1) n 0 []
      rwa [List.append_nil, Nat.zero_mul, Nat.zero_add, hmod] at hdigits
    cases hfield : field size (octalDigits (size - 1) n) with
    | nil =>
      have hlength := length_field size (octalDigits (size - 1) n)
      rw [hfield, List.length_nil] at hlength
      omega
    | cons first rest =>
      -- the first byte of the field is that of the first digit
      have hfirst : first ∈ octalDigits (size - 1) n := by
        obtain ⟨digit, digits, hdigits⟩ := List.exists_cons_of_length_pos
          (l := octalDigits (size - 1) n) (by rw [length_octalDigits]; omega)
        obtain ⟨count, rfl⟩ : ∃ count, size = count + 1 := ⟨size - 1, by omega⟩
        rw [field, hdigits, List.take_succ_cons, List.cons_append] at hfield
        rw [hdigits, (List.cons.inj hfield).1]
        exact List.mem_cons_self
      have hmark : ¬ bytesMark ≤ first := UInt8.not_le.mpr (lt_of_mem_octalDigits hfirst).2
      rw [fieldNumber?, if_neg hmark, ← hfield, htext, hnumber]
  · have hlength : (bytesMark :: lastBytes (size - 1) n).length = size := by
      rw [List.length_cons, length_lastBytes]
      omega
    rw [field, List.take_of_length_le (Nat.le_of_eq hlength), hlength, Nat.sub_self,
      List.replicate_zero, List.append_nil, fieldNumber?, if_pos (UInt8.le_refl bytesMark),
      bytesNumber_lastBytes, Nat.mod_eq_of_lt h]
    simp

/-! ## Blocks -/

/-- What stands between two parts of a block is read at the length of the first part. -/
theorem part_append {start size : Nat} {left middle right : List UInt8}
    (hleft : left.length = start) (hmiddle : middle.length = size) :
    part start size (left ++ middle ++ right) = middle := by
  subst hleft hmiddle
  rw [part, List.append_assoc, List.drop_left, List.take_left]

theorem byteSum_append (left right : List UInt8) :
    byteSum (left ++ right) = byteSum left + byteSum right := by
  have hfold (bytes : List UInt8) (start : Nat) :
      bytes.foldl (fun sum b => sum + b.toNat) start = start + byteSum bytes := by
    induction bytes generalizing start with
    | nil => rfl
    | cons b rest ih =>
      rw [byteSum, List.foldl_cons, List.foldl_cons, ih, ih (0 + b.toNat)]
      omega
  rw [byteSum, List.foldl_append, hfold]
  rfl

/-- The sum of bytes is limited by their number. -/
theorem byteSum_le (bytes : List UInt8) : byteSum bytes ≤ 255 * bytes.length := by
  induction bytes with
  | nil => exact Nat.le_refl 0
  | cons b rest ih =>
    have hb : b.toNat < 256 := b.toNat_lt
    have hsum : byteSum (b :: rest) = b.toNat + byteSum rest := by
      rw [← List.singleton_append, byteSum_append]
      simp [byteSum]
    rw [hsum, List.length_cons]
    omega

/-- The character of a kind is one byte. -/
@[simp] theorem RecordKind.utf8Size_code (k : RecordKind) : k.code.utf8Size = 1 := by
  cases k <;> rfl

/-- A kind is read from its character again. -/
theorem RecordKind.ofCode?_code (k : RecordKind) :
    ofCode? (bytesOf (String.singleton k.code)) = some k := by
  cases k <;> decide

namespace Header

variable (h : Header)

@[simp] theorem length_beforeChecksum : h.beforeChecksum.length = 148 := by
  simp [beforeChecksum, nameSize]

@[simp] theorem length_afterChecksum : h.afterChecksum.length = 356 := by
  simp [afterChecksum]

/-- The checksum of a header is the sum of the bytes of its block, with blanks for itself. -/
theorem blockSum_block : blockSum h.block = h.checksum := by
  have hbefore : h.block.take 148 = h.beforeChecksum := by
    rw [block, List.append_assoc]
    exact List.take_left' h.length_beforeChecksum
  have hafter : h.block.drop 156 = h.afterChecksum := by
    rw [block]
    exact List.drop_left' (by simp)
  have hblanks : byteSum (List.replicate 8 32) = 8 * 32 := by decide
  rw [blockSum, hbefore, hafter, checksum, byteSum_append, byteSum_append, hblanks]

/-- The checksum of a header fits into its field. -/
theorem checksum_lt : h.checksum < 256 ^ 7 := by
  have hsum := byteSum_le (h.beforeChecksum ++ List.replicate 8 32 ++ h.afterChecksum)
  have hlength : (h.beforeChecksum ++ List.replicate 8 (32 : UInt8) ++ h.afterChecksum).length =
      512 := by simp
  rw [hlength] at hsum
  exact Nat.lt_of_le_of_lt hsum (by decide)

/-- The checksum in the block of a header is right. -/
theorem fieldNumber?_checksum :
    fieldNumber? (part 148 8 h.block) = some (blockSum h.block) := by
  have hpart : part 148 8 h.block = numberField 8 h.checksum :=
    part_append h.length_beforeChecksum (length_numberField 8 _)
  rw [hpart, fieldNumber?_numberField (by decide) h.checksum_lt, blockSum_block]

/-- The name is in the field at the beginning of the block. -/
theorem part_name : part 0 nameSize h.block = field nameSize h.name := by
  obtain ⟨rest, hblock⟩ : ∃ rest, h.block = field nameSize h.name ++ rest :=
    ⟨_, by simp only [block, beforeChecksum, List.append_assoc]; rfl⟩
  rw [hblock, part, List.drop_zero, List.take_left' (length_field _ _)]

/-- The size is in a field of its own. -/
theorem part_size : part 124 12 h.block = numberField 12 h.size := by
  have hblock : h.block =
      field nameSize h.name ++ numberField 8 0o644 ++ numberField 8 0 ++ numberField 8 0 ++
        numberField 12 h.size ++ (numberField 12 0 ++ numberField 8 h.checksum ++
          h.afterChecksum) := by
    simp only [block, beforeChecksum, List.append_assoc]
  rw [hblock]
  exact part_append (by simp [nameSize]) (length_numberField _ _)

/-- The character of the kind stands behind the checksum. -/
theorem part_code : part 156 1 h.block = bytesOf (String.singleton h.kind.code) := by
  have hblock : h.block =
      h.beforeChecksum ++ numberField 8 h.checksum ++ bytesOf (String.singleton h.kind.code) ++
        (field 100 [] ++ field 8 (bytesOf "ustar  ") ++ field 247 []) := by
    simp only [block, afterChecksum, List.append_assoc]
  rw [hblock]
  exact part_append (by simp) (by simp)

/-- A header is read from its block again, up to zeros behind its name. -/
theorem ofBlock?_block (hsize : h.size < 256 ^ 11) :
    ofBlock? h.block = some { h with name := fieldText (field nameSize h.name) } := by
  rw [ofBlock?, h.part_size, h.part_code, h.part_name, h.fieldNumber?_checksum,
    fieldNumber?_numberField (by decide) hsize, RecordKind.ofCode?_code]
  simp [h.length_block]

/-- The block of a header is no block of zeros. -/
theorem all_block : h.block.all (· = 0) = false := by
  rw [← Bool.not_eq_true, List.all_eq_true]
  intro hall
  have hcode : (bytesOf (String.singleton h.kind.code)).all (· = 0) = true := by
    rw [← h.part_code, List.all_eq_true]
    exact fun b hb => hall b (List.mem_of_mem_drop (List.mem_of_mem_take hb))
  cases hkind : h.kind <;> rw [hkind] at hcode <;> exact absurd hcode (by decide)

end Header

end AppBundle.Archive
