import AppBundle.Archive.Reading
import AppBundle.Proofs.JoinedTexts
import AppBundle.Proofs.Outcomes
import AppBundle.Proofs.PathResolution

/-!
# Names in archives

The name of an archived file is put together from the parts of its path. This file says which name
that is for any path, and that a path of plain names is stored as it is, whatever its length: a
path that does not fit into a header comes in a record of its own.
-/

namespace AppBundle.Archive

open Files

/-! ## Bytes of texts -/

theorem bytesOf_eq_flatMap (s : String) : bytesOf s = s.toList.flatMap String.utf8EncodeChar := by
  rw [bytesOf, String.toUTF8_eq_toByteArray, ← String.utf8Encode_toList, List.utf8Encode]
  simp

@[simp] theorem bytesOf_append (s t : String) : bytesOf (s ++ t) = bytesOf s ++ bytesOf t := by
  simp [bytesOf_eq_flatMap]

@[simp] theorem length_bytesOf (s : String) : (bytesOf s).length = s.utf8ByteSize := rfl

theorem bytesOf_inj {s t : String} : bytesOf s = bytesOf t ↔ s = t := by
  rw [bytesOf, bytesOf, Array.toList_inj, ← ByteArray.ext_iff, String.toUTF8_eq_toByteArray,
    String.toUTF8_eq_toByteArray, String.toByteArray_inj]

theorem bytesOf_slash : bytesOf "/" = [slash] := by decide

/-- Of all characters, only the zero character has a zero byte. -/
theorem zero_mem_utf8EncodeChar_iff {c : Char} : 0 ∈ String.utf8EncodeChar c ↔ c = '\x00' := by
  have hbyte (n : Nat) : (0 : UInt8) = UInt8.ofNat n ↔ n % 256 = 0 := by
    rw [← UInt8.toNat_inj, UInt8.toNat_ofNat']
    exact eq_comm
  have hchar : c = '\x00' ↔ c.val.toNat = 0 := by
    rw [← Char.val_inj, ← UInt32.toNat_inj]
    rfl
  rw [hchar, String.utf8EncodeChar]
  split_ifs <;> simp only [List.mem_cons, List.not_mem_nil, or_false, hbyte] <;> omega

theorem zero_mem_bytesOf_iff {s : String} : 0 ∈ bytesOf s ↔ '\x00' ∈ s.toList := by
  simp [bytesOf_eq_flatMap, zero_mem_utf8EncodeChar_iff]

/-! ## Copying the parts of a name -/

/-- Parts that can be copied if they fit. -/
def IsCopyable (isCut : Bool) : List String → Prop
  | [] => True
  | part :: rest =>
    (part = ".." → isCut = true ∧ rest = []) ∧ '\x00' ∉ part.toList ∧ IsCopyable isCut rest

variable {isCut : Bool} {before : List UInt8} {part path : String} {parts rest : List String}

/-- The parts of a name that is not cut neither lead upward nor have zeros. -/
theorem IsCopyable.of_mem (h : IsCopyable false parts) (hpart : part ∈ parts) :
    part ≠ ".." ∧ '\x00' ∉ part.toList := by
  induction parts with
  | nil => exact absurd hpart List.not_mem_nil
  | cons first rest ih =>
    obtain ⟨hup, hzero, hrest⟩ := h
    rcases List.mem_cons.mp hpart with rfl | hpart
    · exact ⟨fun heq => absurd (hup heq).1 Bool.false_ne_true, hzero⟩
    · exact ih hrest hpart

/-- A part is copied if it has no zero and fits. -/
theorem addPart_eq (before : List UInt8) (part : String)
    (h : '\x00' ∉ part.toList ∧ (leadOf before).length + part.utf8ByteSize ≤ nameSize) :
    Copied.addPart before part = ⟨leadOf before ++ bytesOf part, true⟩ := by
  have hzero : 0 ∉ bytesOf part := fun hmem => h.1 (zero_mem_bytesOf_iff.mp hmem)
  have hlead : ¬ nameSize < (leadOf before).length := by omega
  rw [Copied.addPart, if_neg hlead, if_neg]
  rintro (hmem | hlong)
  · exact hzero hmem
  · rw [length_bytesOf] at hlong
    omega

theorem addPart_complete_iff : (Copied.addPart before part).complete ↔
    '\x00' ∉ part.toList ∧ (leadOf before).length + part.utf8ByteSize ≤ nameSize := by
  constructor
  · intro h
    unfold Copied.addPart at h
    split at h
    · cases h
    split at h
    · cases h
    rename_i hbody
    rw [not_or, zero_mem_bytesOf_iff, length_bytesOf] at hbody
    exact ⟨hbody.1, Nat.le_of_not_lt hbody.2⟩
  · intro h
    rw [addPart_eq before part h]

theorem bytesOf_ne_nil (h : part ≠ "") : bytesOf part ≠ [] := by
  intro hnil
  have hlength := congrArg List.length hnil
  rw [length_bytesOf, List.length_nil, String.utf8ByteSize_eq_zero_iff] at hlength
  exact h hlength

/-- A part that was copied is followed by a slash and the next parts. -/
theorem leadOf_append (hpart : part ≠ "") (hrest : rest ≠ []) :
    leadOf (leadOf before ++ bytesOf part) ++ bytesOf (Text.join "/" rest) =
      leadOf before ++ bytesOf (Text.join "/" (part :: rest)) := by
  have hlead : leadOf (leadOf before ++ bytesOf part) = leadOf before ++ bytesOf part ++ [slash] :=
    if_neg (by simp [bytesOf_ne_nil hpart])
  rw [hlead, Text.join_cons "/" part hrest, bytesOf_append, bytesOf_append, bytesOf_slash]
  simp

/-- The parts of a name are copied one by one. -/
theorem copyParts_cons_complete_iff : (copyParts isCut before (part :: rest)).complete ↔
    (part = ".." → isCut = true ∧ rest = []) ∧ (Copied.addPart before part).complete ∧
      (copyParts isCut (leadOf before ++ bytesOf part) rest).complete := by
  rw [copyParts]
  by_cases hup : part = ".." ∧ ¬ (isCut = true ∧ rest = [])
  · rw [if_pos hup]
    exact iff_of_false (by simp) fun h => hup.2 (h.1 hup.1)
  · have hup' : part = ".." → isCut = true ∧ rest = [] := by
      intro heq
      by_contra hrest
      exact hup ⟨heq, hrest⟩
    rw [if_neg hup, and_iff_right hup']
    dsimp only
    by_cases hpart : (Copied.addPart before part).complete = true
    · rw [if_pos hpart, addPart_eq before part (addPart_complete_iff.mp hpart)]
      simp
    · rw [if_neg hpart]
      exact iff_of_false hpart fun h => hpart h.1

/-- Parts are copied if they can be and the joined text of all of them fits. -/
theorem copyParts_complete_iff (hparts : ∀ p ∈ part :: rest, p ≠ "") :
    (copyParts isCut before (part :: rest)).complete ↔ IsCopyable isCut (part :: rest) ∧
      (leadOf before ++ bytesOf (Text.join "/" (part :: rest))).length ≤ nameSize := by
  obtain ⟨hpart, hrest⟩ := List.forall_mem_cons.mp hparts
  induction rest generalizing part before with
  | nil =>
    rw [copyParts_cons_complete_iff, addPart_complete_iff]
    simp [IsCopyable, copyParts, Text.join, and_assoc]
  | cons next rest ih =>
    obtain ⟨hnext, hothers⟩ := List.forall_mem_cons.mp hrest
    have hlead : leadOf (leadOf before ++ bytesOf part) ++ bytesOf (Text.join "/" (next :: rest)) =
        leadOf before ++ bytesOf (Text.join "/" (part :: next :: rest)) :=
      leadOf_append hpart (List.cons_ne_nil next rest)
    have hjoin : (leadOf before).length + part.utf8ByteSize ≤
        (leadOf before ++ bytesOf (Text.join "/" (part :: next :: rest))).length := by
      rw [Text.join_cons "/" part (List.cons_ne_nil _ _), List.length_append, bytesOf_append,
        bytesOf_append, List.length_append, List.length_append, length_bytesOf]
      omega
    rw [copyParts_cons_complete_iff, addPart_complete_iff, ih hrest hnext hothers, hlead,
      IsCopyable]
    constructor
    · rintro ⟨hup, ⟨hzero, -⟩, hcopyable, hfits⟩
      exact ⟨⟨hup, hzero, hcopyable⟩, hfits⟩
    · rintro ⟨⟨hup, hzero, hcopyable⟩, hfits⟩
      exact ⟨hup, ⟨hzero, Nat.le_trans hjoin hfits⟩, hcopyable, hfits⟩

/-- Parts that were copied have slashes between them. -/
theorem bytes_copyParts (hparts : ∀ p ∈ part :: rest, p ≠ "")
    (h : (copyParts isCut before (part :: rest)).complete) :
    (copyParts isCut before (part :: rest)).bytes =
      leadOf before ++ bytesOf (Text.join "/" (part :: rest)) := by
  obtain ⟨hpart, hrest⟩ := List.forall_mem_cons.mp hparts
  induction rest generalizing part before with
  | nil =>
    obtain ⟨hup, hadd, -⟩ := copyParts_cons_complete_iff.mp h
    rw [copyParts, if_neg fun hrefused => hrefused.2 (hup hrefused.1)]
    simp [addPart_eq before part (addPart_complete_iff.mp hadd), copyParts, Text.join]
  | cons next rest ih =>
    obtain ⟨hnext, hothers⟩ := List.forall_mem_cons.mp hrest
    obtain ⟨hup, hadd, hcomplete⟩ := copyParts_cons_complete_iff.mp h
    have hstep : copyParts isCut before (part :: next :: rest) =
        copyParts isCut (leadOf before ++ bytesOf part) (next :: rest) := by
      rw [copyParts, if_neg fun hrefused => hrefused.2 (hup hrefused.1)]
      simp [addPart_eq before part (addPart_complete_iff.mp hadd)]
    rw [hstep, ih hrest hcomplete hnext hothers, leadOf_append hpart (List.cons_ne_nil next rest)]

/-! ## Names of paths -/

/-- The name that is put together from the parts of a path. A slash at the end stays. -/
def storedName (path : String) : String :=
  Text.join "/" (nameParts path) ++ if Text.endsWith "/" path then "/" else ""

theorem ne_empty_of_mem_nameParts (h : part ∈ nameParts path) : part ≠ "" := by
  rintro rfl
  unfold nameParts at h
  dsimp only at h
  split at h
  · split at h
    · simp at h
    · exact List.not_mem_nil h
  · have hidle := (List.mem_filter.mp h).2
    simp [isIdlePart] at hidle

/-- A path can be copied as a name if it is relative, leads somewhere, has neither zeros nor parts
that lead upward, and the name fits. -/
structure IsStorable (isCut : Bool) (path : String) : Prop where
  relative : isAbsolute path = false
  leads : nameParts path ≠ []
  copyable : IsCopyable isCut (nameParts path)
  fits : (storedName path).utf8ByteSize ≤ nameSize

theorem copyName_of_parts (hrelative : isAbsolute path = false)
    (hparts : nameParts path = part :: rest) : copyName isCut path =
      let copied := copyParts isCut [] (part :: rest)
      if copied.complete ∧ Text.endsWith "/" path then
        if copied.bytes.length < nameSize then ⟨copied.bytes ++ [slash], true⟩
        else ⟨copied.bytes, false⟩
      else copied := by
  simp [copyName, hrelative, hparts]

/-- The name that is copied is the one that is put together from the parts of the path. -/
theorem copyName_of_isStorable (h : IsStorable isCut path) :
    copyName isCut path = ⟨bytesOf (storedName path), true⟩ := by
  obtain ⟨part, rest, hparts⟩ := List.exists_cons_of_ne_nil h.leads
  have hne (p : String) (hp : p ∈ part :: rest) : p ≠ "" := ne_empty_of_mem_nameParts (hparts ▸ hp)
  have hfits := h.fits
  rw [storedName, hparts, String.utf8ByteSize_append] at hfits
  have hcomplete : (copyParts isCut [] (part :: rest)).complete = true := by
    refine (copyParts_complete_iff hne).mpr ⟨hparts ▸ h.copyable, ?_⟩
    exact Nat.le_trans (Nat.le_add_right _ _) hfits
  have hbytes : (copyParts isCut [] (part :: rest)).bytes =
      bytesOf (Text.join "/" (part :: rest)) := bytes_copyParts hne hcomplete
  rw [copyName_of_parts h.relative hparts, storedName, hparts]
  dsimp only
  by_cases hend : Text.endsWith "/" path = true
  · rw [if_pos hend] at hfits ⊢
    rw [if_pos ⟨hcomplete, hend⟩, hbytes, if_pos, bytesOf_append, bytesOf_slash]
    rw [length_bytesOf]
    exact hfits
  · rw [if_neg hend, if_neg fun h => hend h.2, String.append_empty, ← hbytes, ← hcomplete]

/-- What cannot be stored is not copied as a whole. -/
theorem isStorable_of_complete (h : (copyName isCut path).complete) : IsStorable isCut path := by
  have hrelative : isAbsolute path = false := by
    by_contra habsolute
    rw [copyName, if_pos (by simpa using habsolute)] at h
    cases h
  cases hparts : nameParts path with
  | nil => simp [copyName, hparts] at h
  | cons part rest =>
    have hne (p : String) (hp : p ∈ part :: rest) : p ≠ "" :=
      ne_empty_of_mem_nameParts (hparts ▸ hp)
    rw [copyName_of_parts hrelative hparts] at h
    dsimp only at h
    have hcomplete : (copyParts isCut [] (part :: rest)).complete = true := by
      split at h
      · rename_i hcond
        exact hcond.1
      · exact h
    obtain ⟨hcopyable, hfits⟩ := (copyParts_complete_iff hne).mp hcomplete
    refine ⟨hrelative, by simp [hparts], hparts ▸ hcopyable, ?_⟩
    rw [storedName, hparts, String.utf8ByteSize_append]
    by_cases hend : Text.endsWith "/" path = true
    · rw [if_pos ⟨hcomplete, hend⟩, bytes_copyParts hne hcomplete] at h
      rw [if_pos hend]
      by_contra hlong
      rw [if_neg] at h
      · cases h
      · exact hlong
    · rw [if_neg hend]
      exact hfits

theorem copyName_complete_iff : (copyName isCut path).complete ↔ IsStorable isCut path :=
  ⟨isStorable_of_complete, fun h => by rw [copyName_of_isStorable h]⟩

end AppBundle.Archive
