import AppBundle.Proofs.PlainPaths

/-!
# Archived entries

Each entry of an archive is written as a record or two, and read back under one name. This file
compares this name with the path of the entry: they agree if the path is plain, and for a path
that fits into a header only then.
-/

namespace AppBundle.Archive

open Files

/-- The names of the files in some records. The name is that in the header, if no longer name has
come before. -/
def namesFrom (longName : Option (List UInt8)) : List Record → List (List UInt8)
  | [] => []
  | r :: rest =>
    match r.header.kind with
    | .longName => namesFrom (some (fieldText r.content.data.toList)) rest
    | .file => longName.getD (fieldText (field nameSize r.header.name)) :: namesFrom none rest

/-- An entry is written, and read back under some name. -/
def NamedAs (e : Entry) (name : List UInt8) : Prop :=
  ∃ records, entryRecords e = .ok records ∧
    ∀ rest, namesFrom none (records ++ rest) = name :: namesFrom none rest

/-- An archive of some entries, in which their files have some names. -/
def HasNames (archive : ByteArray) (entries : List Entry) (names : List (List UInt8)) : Prop :=
  ∃ records, entries.mapM entryRecords = .ok records ∧
    archive = appendRecords .empty records.flatten ++ zeros (2 * blockSize) ∧
    namesFrom none records.flatten = names

variable {e : Entry} {entries : List Entry} {archive : ByteArray}

/-! ## Fields -/

/-- Zeros behind a text are not read. -/
theorem fieldText_append_zeros {bytes : List UInt8} (h : 0 ∉ bytes) (count : Nat) :
    fieldText (bytes ++ List.replicate count 0) = bytes := by
  have hzeros : (List.replicate count (0 : UInt8)).takeWhile (· ≠ 0) = [] := by
    cases count <;> rfl
  have hbytes (b : UInt8) (hb : b ∈ bytes) : decide (b ≠ 0) = true :=
    decide_eq_true fun hzero => h (hzero ▸ hb)
  rw [fieldText, List.takeWhile_append_of_pos hbytes, hzeros, List.append_nil]

theorem fieldText_field {size : Nat} {bytes : List UInt8} (hzero : 0 ∉ bytes)
    (hsize : bytes.length ≤ size) : fieldText (field size bytes) = bytes := by
  rw [field, List.take_of_length_le hsize, fieldText_append_zeros hzero]

/-- A name has no zeros. -/
theorem IsStorable.zero {path : String} (h : IsStorable false path) :
    '\x00' ∉ (storedName path).toList := by
  intro hzero
  rw [storedName, String.toList_append, List.mem_append] at hzero
  rcases hzero with hzero | hzero
  · rcases Text.mem_of_mem_join hzero with hzero | ⟨part, hpart, hzero⟩
    · exact absurd hzero (by decide)
    · exact (h.copyable.of_mem hpart).2 hzero
  · split at hzero
    · exact absurd hzero (by decide)
    · exact List.not_mem_nil hzero

/-! ## Records of an entry -/

/-- A path that can be stored in a header is read back from it. -/
theorem namedAs_of_isStorable (h : IsStorable false e.path) :
    NamedAs e (bytesOf (storedName e.path)) := by
  refine ⟨[fileRecord (bytesOf (storedName e.path)) e.content], ?_, fun rest => ?_⟩
  · simp [entryRecords, copyName_of_isStorable h]
  · have hzero : 0 ∉ bytesOf (storedName e.path) := mt zero_mem_bytesOf_iff.mp h.zero
    simp [namesFrom, fileRecord, fieldText_field hzero h.fits]

/-- A long path is read back from a record of its own, if the cut path can be stored in the
header. -/
theorem namedAs_of_isStorable_cutPath (h : ¬ IsStorable false e.path)
    (hsize : nameSize ≤ e.path.utf8ByteSize) (hzero : '\x00' ∉ e.path.toList)
    (hcut : IsStorable true (cutPath e.path)) : NamedAs e (bytesOf e.path) := by
  refine ⟨[longNameRecord e.path, fileRecord
    (overlay (bytesOf (storedName (cutPath e.path))) (copyName false e.path).bytes) e.content],
    ?_, fun rest => ?_⟩
  · rw [← copyName_complete_iff] at h
    simp [entryRecords, h, Nat.not_lt.mpr hsize, copyName_of_isStorable hcut]
  · have hname : fieldText (longNameRecord e.path).content.data.toList = bytesOf e.path := by
      have hbytes : (longNameRecord e.path).content.data.toList =
          bytesOf e.path ++ List.replicate 1 0 := by
        simp [longNameRecord, bytesOf]
      rw [hbytes, fieldText_append_zeros (mt zero_mem_bytesOf_iff.mp hzero)]
    simp only [List.cons_append, List.nil_append, namesFrom, hname]
    rfl

/-- A plain path is read back. -/
theorem namedAs_of_isPlainPath (h : IsPlainPath e.path) : NamedAs e (bytesOf e.path) := by
  by_cases hsize : e.path.utf8ByteSize ≤ nameSize
  · have hnamed := namedAs_of_isStorable (h.isStorable_iff.mpr hsize)
    rwa [storedName_of_isPlainPath h] at hnamed
  · have hlong : nameSize < e.path.utf8ByteSize := Nat.lt_of_not_le hsize
    exact namedAs_of_isStorable_cutPath (fun hstorable => hsize (h.isStorable_iff.mp hstorable))
      (Nat.le_of_lt hlong) h.zero (h.isStorable_cutPath hlong)

/-- A path that is shorter than the field is only written if it can be stored there. -/
theorem isStorable_of_entryRecords {records : List Record} (h : entryRecords e = .ok records)
    (hsize : e.path.utf8ByteSize < nameSize) : IsStorable false e.path := by
  rw [← copyName_complete_iff]
  by_contra hcomplete
  simp [entryRecords, hcomplete, hsize] at h

/-- An entry has one name. -/
theorem NamedAs.unique {name other : List UInt8} (h : NamedAs e name) (h' : NamedAs e other) :
    name = other := by
  obtain ⟨records, hrecords, hname⟩ := h
  obtain ⟨records', hrecords', hother⟩ := h'
  obtain rfl := Except.ok.inj (hrecords.symm.trans hrecords')
  exact (List.cons.inj ((hname []).symm.trans (hother []))).1

/-- A path that is its own name is plain, if it leads somewhere. -/
theorem isPlainPath_of_storedName {path : String} (h : IsStorable false path)
    (hstored : storedName path = path)
    (hleads : ∃ part ∈ Text.split '/' path, isIdlePart part = false) : IsPlainPath path := by
  have hne : (Text.split '/' path).filter (!isIdlePart ·) ≠ [] := by
    obtain ⟨part, hpart, hidle⟩ := hleads
    exact List.ne_nil_of_mem (List.mem_filter.mpr ⟨hpart, by simp [hidle]⟩)
  have hparts := nameParts_of_filter hne rfl
  have hnames (name : String) (hname : name ∈ nameParts path) : IsFileName name := by
    obtain ⟨hup, hzero⟩ := h.copyable.of_mem hname
    rw [hparts, List.mem_filter] at hname
    exact ⟨⟨by simpa using hname.2, hup⟩, (Text.mem_of_mem_split hname.1).1, hzero⟩
  refine ⟨nameParts path, h.leads, hnames, ?_⟩
  have hsplit : Text.split '/' (Text.join "/" (nameParts path)) = nameParts path :=
    Text.split_join slash_toList h.leads fun name hname => (hnames name hname).slash
  rw [storedName] at hstored
  split at hstored
  · have hpath : path = Text.join "/" (nameParts path) ++ "/" ++ "" := by
      rw [String.append_empty, hstored]
    right
    calc Text.split '/' path
        = Text.split '/' (Text.join "/" (nameParts path) ++ "/" ++ "") := congrArg _ hpath
      _ = nameParts path ++ [""] := by
        rw [Text.split_append slash_toList, hsplit]
        rfl
  · left
    rw [String.append_empty] at hstored
    calc Text.split '/' path
        = Text.split '/' (Text.join "/" (nameParts path)) := congrArg _ hstored.symm
      _ = nameParts path := hsplit

/-- A path that is shorter than the field is only read back if it is plain, or leads nowhere. -/
theorem isPlainPath_of_namedAs (h : NamedAs e (bytesOf e.path))
    (hsize : e.path.utf8ByteSize < nameSize)
    (hleads : ∃ part ∈ Text.split '/' e.path, isIdlePart part = false) : IsPlainPath e.path := by
  obtain ⟨records, hrecords, -⟩ := id h
  have hstorable := isStorable_of_entryRecords hrecords hsize
  have hstored : storedName e.path = e.path :=
    (bytesOf_inj.mp (h.unique (namedAs_of_isStorable hstorable))).symm
  exact isPlainPath_of_storedName hstorable hstored hleads

/-! ## Archives of entries -/

/-- The names in the records of some entries are those of the entries. -/
theorem namesFrom_flatten {records : List (List Record)} {names : List (List UInt8)}
    (hrecords : List.Forall₂ (fun e rs => entryRecords e = .ok rs) entries records)
    (hnames : List.Forall₂ NamedAs entries names) : namesFrom none records.flatten = names := by
  induction hrecords generalizing names with
  | nil =>
    cases hnames
    rfl
  | cons hfirst _ ih =>
    obtain _ | ⟨⟨first, hfirst', hname⟩, hrest⟩ := hnames
    obtain rfl := Except.ok.inj (hfirst.symm.trans hfirst')
    rw [List.flatten_cons, hname, ih hrest]

/-- An entry is written as one record, or as two with its path in the first one. -/
theorem cases_of_entryRecords {records : List Record} (h : entryRecords e = .ok records) :
    (∃ bytes, records = [fileRecord bytes e.content]) ∨
      ∃ bytes, records = [longNameRecord e.path, fileRecord bytes e.content] := by
  unfold entryRecords at h
  dsimp only at h
  split at h
  · exact .inl ⟨_, (Except.ok.inj h).symm⟩
  split at h
  · cases h
  split at h
  · exact .inr ⟨_, (Except.ok.inj h).symm⟩
  · cases h

/-- Every entry that is written has a name. -/
theorem exists_namedAs {records : List Record} (h : entryRecords e = .ok records) :
    ∃ name, NamedAs e name := by
  rcases cases_of_entryRecords h with ⟨bytes, rfl⟩ | ⟨bytes, rfl⟩
  · exact ⟨_, _, h, fun rest => rfl⟩
  · exact ⟨_, _, h, fun rest => rfl⟩

/-- An archive can be written with some names if each entry can be written with its name. -/
theorem hasNames_iff {names : List (List UInt8)} :
    (∃ archive, write entries = .ok archive ∧ HasNames archive entries names) ↔
      List.Forall₂ NamedAs entries names := by
  constructor
  · rintro ⟨archive, -, records, hrecords, -, hnames⟩
    rw [mapM_eq_ok_iff] at hrecords
    induction hrecords generalizing names with
    | nil =>
      obtain rfl : [] = names := hnames
      exact .nil
    | cons hfirst _ ih =>
      obtain ⟨name, records, hrecords, hname⟩ := exists_namedAs hfirst
      obtain rfl := Except.ok.inj (hfirst.symm.trans hrecords)
      rw [List.flatten_cons, hname] at hnames
      rw [← hnames]
      exact .cons ⟨_, hfirst, hname⟩ (ih rfl)
  · intro h
    obtain ⟨records, hrecords⟩ : ∃ records,
        List.Forall₂ (fun e rs => entryRecords e = .ok rs) entries records := by
      induction h with
      | nil => exact ⟨[], .nil⟩
      | cons hfirst _ ih =>
        obtain ⟨first, hfirst, -⟩ := hfirst
        obtain ⟨rest, hrest⟩ := ih
        exact ⟨first :: rest, .cons hfirst hrest⟩
    have hmap := mapM_eq_ok_iff.mpr hrecords
    exact ⟨_, bind_eq_ok_iff.mpr ⟨records, hmap, rfl⟩, records, hmap, rfl,
      namesFrom_flatten hrecords h⟩

/-- Entries with plain paths can be archived. -/
theorem exists_write_of_isPlainPath (h : ∀ e ∈ entries, IsPlainPath e.path) :
    ∃ archive, write entries = .ok archive := by
  obtain ⟨archive, hwrite, -⟩ := hasNames_iff.mpr (List.forall₂_map_right_iff.mpr
    (List.forall₂_same.mpr fun e he => namedAs_of_isPlainPath (h e he)))
  exact ⟨archive, hwrite⟩

end AppBundle.Archive
