import AppBundle.Proofs.ArchiveFields

/-!
# Archives that are read again

An archive is read record by record. Each record is read from its own blocks, whatever its content
is and whatever comes after it, so an archive of plain paths gives back its entries, and every
header in it has the right checksum.
-/

namespace AppBundle.Archive

open Files

/-! ## Bytes of records -/

/-- The bytes of some records. -/
def recordBytes (records : List Record) : List UInt8 :=
  records.flatMap fun r => r.bytes.data.toList

theorem recordBytes_cons (r : Record) (rest : List Record) :
    recordBytes (r :: rest) = r.bytes.data.toList ++ recordBytes rest := List.flatMap_cons

theorem toList_zeros (count : Nat) : (zeros count).data.toList = List.replicate count 0 := by
  simp [zeros]

/-- The bytes of a record are those of its header and its content, and some zeros. -/
theorem Record.toList_bytes (r : Record) :
    r.bytes.data.toList = r.header.block ++ (r.content.data.toList ++
      List.replicate (missingBytes r.content.size) 0) := by
  simp [Record.bytes, toList_zeros]

theorem toList_appendRecords (written : ByteArray) (records : List Record) :
    (appendRecords written records).data.toList =
      written.data.toList ++ recordBytes records := by
  induction records generalizing written with
  | nil => simp [appendRecords, recordBytes]
  | cons r rest ih =>
    rw [appendRecords, List.foldl_cons, ← appendRecords, ih, recordBytes_cons,
      ByteArray.toList_data_append, List.append_assoc]

/-- A record tells the size of its content, and the size fits into the header. -/
structure Record.IsSized (r : Record) : Prop where
  size : r.header.size = r.content.size
  fits : r.content.size < 256 ^ 11

/-- The contents of the files in some records. -/
def fileContents (records : List Record) : List (List UInt8) :=
  (records.filter (·.header.kind = .file)).map fun r => r.content.data.toList

/-! ## Reading records -/

section Reading

variable {r : Record} {records : List Record} {longName : Option (List UInt8)}
variable {rest : List UInt8}

/-- A record is read from its own bytes, whatever comes after it. -/
theorem filesFrom?_bytes (h : r.IsSized) :
    filesFrom? longName (r.bytes.data.toList ++ rest) =
      match r.header.kind with
      | .longName => filesFrom? (some (fieldText r.content.data.toList)) rest
      | .file => (filesFrom? none rest).map
        ((longName.getD (fieldText (field nameSize r.header.name)), r.content.data.toList) :: ·) := by
  have hlength : r.content.data.toList.length = r.content.size := rfl
  let padding := List.replicate (missingBytes r.content.size) (0 : UInt8)
  have hbytes : r.bytes.data.toList ++ rest =
      r.header.block ++ (r.content.data.toList ++ (padding ++ rest)) := by
    rw [r.toList_bytes]
    simp only [List.append_assoc, padding]
  have hlong : ¬ (r.bytes.data.toList ++ rest).length < blockSize := by
    rw [hbytes, List.length_append, r.header.length_block]
    omega
  have hblock : (r.bytes.data.toList ++ rest).take blockSize = r.header.block := by
    rw [hbytes]
    exact List.take_left' r.header.length_block
  have hcontent : part blockSize r.header.size (r.bytes.data.toList ++ rest) =
      r.content.data.toList := by
    rw [hbytes, ← List.append_assoc]
    exact part_append r.header.length_block (hlength.trans h.size.symm)
  have hrest : (r.bytes.data.toList ++ rest).drop
      (blockSize + (r.header.size + missingBytes r.header.size)) = rest := by
    rw [hbytes, h.size, ← List.append_assoc, ← List.append_assoc]
    refine List.drop_left' ?_
    simp only [List.length_append, r.header.length_block, hlength, padding, List.length_replicate]
    omega
  have hheader := r.header.ofBlock?_block (h.size ▸ h.fits)
  rw [filesFrom?, dif_neg hlong]
  dsimp only
  rw [hblock, r.header.all_block, hheader]
  simp only [Option.bind_eq_bind, Option.bind_some, Bool.false_eq_true, if_false]
  rw [hcontent, hrest, hlength, h.size, if_neg (Nat.lt_irrefl _)]
  cases r.header.kind with
  | longName => rfl
  | file => cases filesFrom? none rest <;> rfl

/-- Nothing is read from the zeros at the end. -/
theorem filesFrom?_zeros {count : Nat} (h : blockSize ≤ count) :
    filesFrom? longName (List.replicate count 0) = some [] := by
  have hlong : ¬ (List.replicate count (0 : UInt8)).length < blockSize := by
    rw [List.length_replicate]
    omega
  have hzeros : ((List.replicate count (0 : UInt8)).take blockSize).all (· = 0) = true := by
    rw [List.take_replicate, List.all_replicate]
    simp
  rw [filesFrom?, dif_neg hlong]
  dsimp only
  rw [if_pos hzeros]

/-- The files that are read from records have the names and the contents of the records. -/
theorem filesFrom?_recordBytes (h : ∀ r ∈ records, r.IsSized) :
    filesFrom? longName (recordBytes records ++ List.replicate (2 * blockSize) 0) =
      some ((namesFrom longName records).zip (fileContents records)) := by
  induction records generalizing longName with
  | nil => exact filesFrom?_zeros (by decide)
  | cons r rest ih =>
    obtain ⟨hr, hrest⟩ := List.forall_mem_cons.mp h
    rw [recordBytes_cons, List.append_assoc, filesFrom?_bytes hr, namesFrom, fileContents,
      List.filter_cons]
    cases hkind : r.header.kind with
    | longName => exact ih hrest
    | file =>
      dsimp only
      rw [ih hrest]
      rfl

end Reading

/-! ## Archives of entries -/

/-- The number of bytes that no text and no content in memory reaches. -/
def memoryLimit : Nat := 2 ^ 63

section Entries

variable {e : Entry} {entries : List Entry}

/-- The records of an entry tell their sizes. -/
theorem isSized_of_entryRecords {records : List Record} (h : entryRecords e = .ok records)
    (hcontent : e.content.size < memoryLimit) (hpath : e.path.utf8ByteSize < memoryLimit) :
    ∀ r ∈ records, r.IsSized := by
  have hlimit : memoryLimit + 1 < 256 ^ 11 := by decide
  have hfile (name : List UInt8) : (fileRecord name e.content).IsSized :=
    ⟨rfl, by change e.content.size < 256 ^ 11; omega⟩
  have hname : (longNameRecord e.path).IsSized := by
    refine ⟨rfl, ?_⟩
    have hsize : (longNameRecord e.path).content.size = e.path.utf8ByteSize + 1 := by
      simp [longNameRecord]
    omega
  rcases cases_of_entryRecords h with ⟨bytes, rfl⟩ | ⟨bytes, rfl⟩
  · simpa using hfile bytes
  · simpa using ⟨hname, hfile bytes⟩

/-- The records of an entry have its content as the only one of a file. -/
theorem fileContents_of_entryRecords {records : List Record}
    (h : entryRecords e = .ok records) : fileContents records = [e.content.data.toList] := by
  rcases cases_of_entryRecords h with ⟨bytes, rfl⟩ | ⟨bytes, rfl⟩
  · rfl
  · rfl

theorem fileContents_flatten {records : List (List Record)}
    (h : List.Forall₂ (fun e rs => entryRecords e = .ok rs) entries records) :
    fileContents records.flatten = entries.map fun e => e.content.data.toList := by
  have happend (left right : List Record) :
      fileContents (left ++ right) = fileContents left ++ fileContents right := by
    rw [fileContents, List.filter_append, List.map_append]
    rfl
  induction h with
  | nil => rfl
  | cons hfirst _ ih =>
    rw [List.flatten_cons, happend, fileContents_of_entryRecords hfirst, ih]
    rfl

theorem toByteArray_toList (bytes : ByteArray) : bytes.data.toList.toByteArray = bytes :=
  ByteArray.ext (Array.toList_inj.mp List.toList_data_toByteArray)

/-- The bytes of a path and of a content make the entry again. -/
theorem entryOfFile?_bytesOf (e : Entry) :
    entryOfFile? (bytesOf e.path, e.content.data.toList) = some e := by
  have htext : String.fromUTF8? e.path.toUTF8 = some e.path := dif_pos e.path.isValidUTF8
  rw [entryOfFile?, bytesOf, toByteArray_toList, toByteArray_toList, htext]
  rfl

theorem mapM_entryOfFile? (entries : List Entry) :
    (entries.map fun e => (bytesOf e.path, e.content.data.toList)).mapM entryOfFile? =
      some entries := by
  induction entries with
  | nil => rfl
  | cons e rest ih =>
    rw [List.map_cons, List.mapM_cons, entryOfFile?_bytesOf, ih]
    rfl

/-- The entries of an archive are read again if they are named by their paths. -/
theorem read?_eq_some {records : List (List Record)}
    (h : List.Forall₂ (fun e rs => entryRecords e = .ok rs) entries records)
    (hnames : ∀ e ∈ entries, NamedAs e (bytesOf e.path))
    (hsizes : ∀ e ∈ entries,
      e.content.size < memoryLimit ∧ e.path.utf8ByteSize < memoryLimit) :
    read? (appendRecords .empty records.flatten ++ zeros (2 * blockSize)) = some entries := by
  have hsized : ∀ r ∈ records.flatten, r.IsSized := by
    intro r hr
    obtain ⟨rs, hrs, hr⟩ := List.mem_flatten.mp hr
    obtain ⟨e, he, hrecords⟩ := exists_of_mem_of_forall₂ h hrs
    exact isSized_of_entryRecords hrecords (hsizes e he).1 (hsizes e he).2 r hr
  have hread : namesFrom none records.flatten = entries.map fun e => bytesOf e.path := by
    refine namesFrom_flatten h ?_
    rw [List.forall₂_map_right_iff, List.forall₂_same]
    exact hnames
  rw [read?, ByteArray.toList_data_append, toList_appendRecords, toList_zeros]
  change (filesFrom? none (recordBytes records.flatten ++ List.replicate (2 * blockSize) 0)).bind
    (·.mapM entryOfFile?) = some entries
  rw [filesFrom?_recordBytes hsized, hread, fileContents_flatten h, List.zip_map']
  exact mapM_entryOfFile? entries

end Entries

/-- An archive of some entries can be read without other knowledge. -/
structure IsReadable (archive : ByteArray) (entries : List Entry) : Prop where
  /-- The entries are read again in their order, with their paths and contents. -/
  read : read? archive = some entries
  /-- The archive has the records of the entries and two blocks of zeros behind them. Each record
  begins with a block of a header, whose checksum is the sum of its bytes with blanks for the
  checksum itself. -/
  records : ∃ records, entries.mapM entryRecords = .ok records ∧
    archive.data.toList = recordBytes records.flatten ++ List.replicate (2 * blockSize) 0 ∧
    ∀ r ∈ records.flatten, r.header.block <+: r.bytes.data.toList ∧
      r.header.block.length = blockSize ∧
      fieldNumber? (part 148 8 r.header.block) = some (blockSum r.header.block)
  /-- The archive consists of whole blocks. -/
  size : archive.size % blockSize = 0

variable {entries : List Entry}

/-- Entries with plain paths are written to an archive from which they are read again, with all
paths that are longer than a header and with all contents. -/
theorem isReadable_of_isPlainPath (hpaths : ∀ e ∈ entries, IsPlainPath e.path)
    (hsizes : ∀ e ∈ entries,
      e.content.size < memoryLimit ∧ e.path.utf8ByteSize < memoryLimit) :
    ∃ archive, write entries = .ok archive ∧ IsReadable archive entries := by
  have hnames (e : Entry) (he : e ∈ entries) : NamedAs e (bytesOf e.path) :=
    namedAs_of_isPlainPath (hpaths e he)
  obtain ⟨archive, hwrite, records, hrecords, rfl, -⟩ := hasNames_iff.mpr
    (List.forall₂_map_right_iff.mpr (List.forall₂_same.mpr hnames))
  refine ⟨_, hwrite, read?_eq_some (mapM_eq_ok_iff.mp hrecords) hnames hsizes,
    ⟨records, hrecords, ?_, fun r _ => ⟨?_, r.header.length_block, ?_⟩⟩, size_write hwrite⟩
  · rw [ByteArray.toList_data_append, toList_appendRecords, toList_zeros]
    rfl
  · rw [r.toList_bytes]
    exact List.prefix_append _ _
  · exact r.header.fieldNumber?_checksum

/-- Entries whose paths fill the field of a header or are longer, with contents that are empty or
look like the end of an archive. -/
def hardEntries : List Entry :=
  [⟨Text.join "/" [String.ofList (List.replicate 98 'a'), "b"], .empty⟩,
    ⟨Text.join "/" [String.ofList (List.replicate 99 'a'), "b"], zeros 1024⟩,
    ⟨"c", (longNameRecord "d").bytes⟩]

/-- The hard entries are read again. -/
theorem isReadable_hardEntries : (∀ e ∈ hardEntries, IsPlainPath e.path) ∧
    (∀ e ∈ hardEntries, e.content.size < memoryLimit ∧ e.path.utf8ByteSize < memoryLimit) ∧
    ∃ archive, write hardEntries = .ok archive ∧ IsReadable archive hardEntries := by
  have hpaths : ∀ e ∈ hardEntries, IsPlainPath e.path := by
    simp only [hardEntries, List.forall_mem_cons]
    exact ⟨isPlainPath_join (by simp) (by decide), isPlainPath_join (by simp) (by decide),
      isPlainPath_of_isFileName (by decide), by simp⟩
  have hsizes : ∀ e ∈ hardEntries,
      e.content.size < memoryLimit ∧ e.path.utf8ByteSize < memoryLimit := by
    simp only [hardEntries, List.forall_mem_cons]
    have hrecord : (longNameRecord "d").bytes.size = 1024 := by
      simp only [Record.bytes, ByteArray.size_append, List.size_toByteArray, Header.length_block,
        size_zeros]
      decide
    rw [size_zeros, hrecord]
    decide
  exact ⟨hpaths, hsizes, isReadable_of_isPlainPath hpaths hsizes⟩

end AppBundle.Archive
