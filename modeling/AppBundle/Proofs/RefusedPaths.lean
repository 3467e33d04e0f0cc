import AppBundle.Proofs.ImagePackages

/-!
# Paths that are refused

Dividing a module fails at a native library in a directory that names no architecture, if the
module is divided by architecture, and at a system image whose stem lists no architectures. This
file tells such entries by their paths alone, and proves that a module without them can be divided.
-/

namespace AppBundle

/-- The parts around the first separator are joined by it, and the first part holds no separator. -/
theorem Text.cut?_eq_some_iff {c : Char} {sep s left right : String} (hsep : sep.toList = [c]) :
    cut? c s = some (left, right) ↔ s = left ++ sep ++ right ∧ c ∉ left.toList := by
  have hjoined : s = left ++ sep ++ right ↔ s.toList = left.toList ++ c :: right.toList := by
    rw [← String.toList_inj, String.toList_append, String.toList_append, hsep,
      List.append_assoc, List.singleton_append]
  rw [hjoined, ← cutChars?_eq_some_iff, cut?, Option.map_eq_some_iff]
  constructor
  · rintro ⟨⟨l, r⟩, hcut, heq⟩
    obtain ⟨rfl, rfl⟩ := Prod.mk.inj heq
    rwa [String.toList_ofList, String.toList_ofList]
  · intro hcut
    exact ⟨_, hcut, by simp only [String.ofList_toList]⟩

/-- The name of an architecture is the name of a directory. -/
theorem Abi.not_mem_name (a : Abi) : '/' ∉ a.name.toList := by cases a <;> decide

namespace Entry

/-- A native library of an architecture. -/
def IsLibraryOf (e : Entry) (a : Abi) : Prop := ∃ file, e.path = "lib/" ++ a.name ++ "/" ++ file

/-- A file below `lib` in a directory that names no architecture. -/
def IsStrayLibrary (e : Entry) : Prop :=
  ∃ directory file, e.path = "lib/" ++ directory ++ "/" ++ file ∧ '/' ∉ directory.toList ∧
    ∀ a : Abi, directory ≠ a.name

variable {e : Entry}

/-- A path in a directory below `lib` goes on with the directory after the first part. -/
theorem path_eq_iff_after? {directory file : String} :
    e.path = "lib/" ++ directory ++ "/" ++ file ↔
      Text.after? "lib/" e.path = some (directory ++ "/" ++ file) := by
  rw [Text.after?_eq_some_iff, String.append_assoc, String.append_assoc, String.append_assoc]

/-- A path in a directory below `lib`, taken apart. -/
theorem libraryAbi_of_directory {directory file : String} {a? : Option Abi}
    (hpath : e.path = "lib/" ++ directory ++ "/" ++ file) (hdirectory : '/' ∉ directory.toList)
    (hname : Abi.ofName? directory = a?) :
    libraryAbi e.path = a?.elim (.error (.unknownAbiDirectory e.path)) (.ok ∘ some) := by
  have hcut : Text.cut? '/' (directory ++ "/" ++ file) = some (directory, file) :=
    (Text.cut?_eq_some_iff rfl).mpr ⟨rfl, hdirectory⟩
  simp only [libraryAbi, path_eq_iff_after?.mp hpath, hcut, hname]
  cases a? <;> rfl

/-- The architecture of a native library is told by its path. -/
theorem IsLibraryOf.libraryAbi_eq {a : Abi} (h : e.IsLibraryOf a) :
    libraryAbi e.path = .ok (some a) := by
  obtain ⟨file, hpath⟩ := h
  exact libraryAbi_of_directory hpath a.not_mem_name (Abi.ofName?_eq_some_iff.mpr rfl)

/-- A directory that names no architecture is refused. -/
theorem IsStrayLibrary.libraryAbi_eq (h : e.IsStrayLibrary) :
    libraryAbi e.path = .error (.unknownAbiDirectory e.path) := by
  obtain ⟨directory, file, hpath, hdirectory, hnone⟩ := h
  have hname : Abi.ofName? directory = none :=
    Option.eq_none_iff_forall_ne_some.mpr fun a ha => hnone a (Abi.ofName?_eq_some_iff.mp ha)
  exact libraryAbi_of_directory hpath hdirectory hname

/-- An entry that is no native library and in no stray directory has no architecture. -/
theorem libraryAbi_cases (e : Entry) :
    libraryAbi e.path = .ok none ∨ (∃ a, e.IsLibraryOf a) ∨ e.IsStrayLibrary := by
  cases hrest : Text.after? "lib/" e.path with
  | none => exact .inl (by simp only [libraryAbi, hrest])
  | some rest =>
    cases hcut : Text.cut? '/' rest with
    | none => exact .inl (by simp only [libraryAbi, hrest, hcut])
    | some parts =>
      obtain ⟨directory, file⟩ := parts
      have hslash : "/".toList = ['/'] := rfl
      obtain ⟨hparts, hdirectory⟩ := (Text.cut?_eq_some_iff hslash).mp hcut
      have hpath : e.path = "lib/" ++ directory ++ "/" ++ file :=
        path_eq_iff_after?.mpr (hparts ▸ hrest)
      right
      by_cases hname : ∃ a : Abi, directory = a.name
      · obtain ⟨a, rfl⟩ := hname
        exact .inl ⟨a, file, hpath⟩
      · exact .inr ⟨directory, file, hpath, hdirectory, fun a ha => hname ⟨a, ha⟩⟩

/-- The architecture of a path is refused if its directory names none. -/
theorem libraryAbi_eq_error_iff {cause : PathError} :
    libraryAbi e.path = .error cause ↔ e.IsStrayLibrary ∧ cause = .unknownAbiDirectory e.path := by
  constructor
  · intro h
    rcases e.libraryAbi_cases with hnone | ⟨a, hlibrary⟩ | hstray
    · rw [hnone] at h
      cases h
    · rw [hlibrary.libraryAbi_eq] at h
      cases h
    · rw [hstray.libraryAbi_eq] at h
      exact ⟨hstray, (Except.error.inj h).symm⟩
  · rintro ⟨hstray, rfl⟩
    exact hstray.libraryAbi_eq

/-- An entry has the architecture that it is a native library of. -/
theorem abi?_eq_some_iff {a : Abi} : e.abi? = some a ↔ e.IsLibraryOf a := by
  constructor
  · intro h
    rw [abi?] at h
    rcases e.libraryAbi_cases with hnone | ⟨b, hlibrary⟩ | hstray
    · rw [hnone] at h
      cases h
    · rw [hlibrary.libraryAbi_eq] at h
      exact Option.some.inj h ▸ hlibrary
    · rw [hstray.libraryAbi_eq] at h
      cases h
  · intro h
    rw [abi?, h.libraryAbi_eq, acceptedLabel]

/-- An entry is refused for a cause that names its path, when content is divided along some
dimensions. -/
inductive IsRefused (dimensions : OrderedSet Dimension) (e : Entry) : PathError → Prop
  | strayLibrary (hdim : .abi ∈ dimensions) (h : e.IsStrayLibrary) :
    IsRefused dimensions e (.unknownAbiDirectory e.path)
  | malformedImage (h : e.IsMalformedImage) :
    IsRefused dimensions e (.malformedApexImage e.path)

end Entry

/-- Labelling native libraries fails only at one in a directory that names no architecture. -/
theorem exists_of_labelLibraries_error {entries : List Entry} {cause : PathError}
    (h : labelLibraries entries = .error cause) :
    ∃ e ∈ entries, e.IsStrayLibrary ∧ cause = .unknownAbiDirectory e.path := by
  obtain ⟨e, he, h⟩ := exists_of_mapM_eq_error h
  rcases bind_eq_error_iff.mp h with h | ⟨_, _, h⟩
  · exact ⟨e, he, Entry.libraryAbi_eq_error_iff.mp h⟩
  · cases h

/-- Labelling native libraries fails at every one in a directory that names no architecture. -/
theorem not_isStrayLibrary_of_labelLibraries {entries : List Entry}
    {labelled : List (Entry × Option Abi)} (h : labelLibraries entries = .ok labelled) :
    ∀ e ∈ entries, ¬ e.IsStrayLibrary := by
  intro e he hstray
  obtain ⟨_, hlabel⟩ := exists_of_mem_of_mapM_eq_ok h he
  obtain ⟨_, hok, _⟩ := bind_eq_ok_iff.mp hlabel
  rw [Entry.libraryAbi_eq_error_iff.mpr ⟨hstray, rfl⟩] at hok
  cases hok

/-- A file in a directory below `lib` is a native library by its path. -/
theorem Entry.IsStrayLibrary.category {e : Entry} (h : e.IsStrayLibrary) :
    e.category = .nativeLibraries := by
  obtain ⟨directory, file, hpath, _⟩ := h
  exact Category.ofPath_of_lib (path_eq_iff_after?.mp hpath)

namespace AppModule

variable {m : AppModule} {dimensions : OrderedSet Dimension} {options : ShardingOptions}
variable {parts splits : List Split}

/-- The parts of a module cannot be made only if an entry is refused, and the failure is the cause
of that refusal. -/
theorem exists_isRefused_of_parts_error {cause : PathError}
    (h : m.parts dimensions options = .error cause) :
    ∃ e ∈ m.entries, e.IsRefused dimensions cause := by
  rcases exists_of_parts_error h with h | ⟨e, he, hmalformed, rfl⟩
  · rw [Pipeline.nativeLibraries] at h
    by_cases hdim : .abi ∈ dimensions
    · rw [if_pos hdim, Pipeline.split_singleton] at h
      rcases bind_eq_error_iff.mp h with h | ⟨_, _, h⟩
      · obtain ⟨e, he, hstray, rfl⟩ := exists_of_labelLibraries_error h
        exact ⟨e, (List.mem_filter.mp he).1, .strayLibrary hdim hstray⟩
      · cases h
    · rw [if_neg hdim] at h
      cases h
  · exact ⟨e, he, .malformedImage hmalformed⟩

/-- No entry of a module is refused if its parts can be made. -/
theorem not_isRefused_of_parts (h : m.parts dimensions options = .ok parts) :
    ∀ e ∈ m.entries, ∀ cause, ¬ e.IsRefused dimensions cause := by
  intro e he cause hrefused
  cases hrefused with
  | malformedImage hmalformed => exact not_isMalformedImage_of_parts h e he hmalformed
  | strayLibrary hdim hstray =>
    obtain ⟨_, hlibraries, _⟩ := bind_eq_ok_iff.mp h
    rw [Pipeline.nativeLibraries, if_pos hdim, Pipeline.split_singleton] at hlibraries
    obtain ⟨labelled, hlabelled, _⟩ := bind_eq_ok_iff.mp hlibraries
    have hmem : e ∈ m.entriesIn .nativeLibraries :=
      List.mem_filter.mpr ⟨he, decide_eq_true hstray.category⟩
    exact not_isStrayLibrary_of_labelLibraries hlabelled e hmem hstray

/-- A module without a path of two contents cannot be divided only if an entry is refused. -/
theorem exists_isRefused_of_splits_error {e : ShardError} (hpaths : PathsConsistent m.entries)
    (h : m.splits dimensions options = .error e) :
    ∃ f ∈ m.entries, ∃ cause, f.IsRefused dimensions cause ∧ e = .refusedPath cause := by
  cases hparts : m.parts dimensions options with
  | ok parts =>
    rw [splits_of_parts hpaths hparts] at h
    cases h
  | error cause =>
    obtain ⟨f, hf, hrefused⟩ := exists_isRefused_of_parts_error hparts
    rw [splits, hparts] at h
    exact ⟨f, hf, cause, hrefused, (Except.error.inj h).symm⟩

/-- No entry of a module is refused if the module can be divided. -/
theorem not_isRefused_of_splits (h : m.splits dimensions options = .ok splits) :
    ∀ e ∈ m.entries, ∀ cause, ¬ e.IsRefused dimensions cause := by
  obtain ⟨parts, hparts, _⟩ := exists_parts h
  exact not_isRefused_of_parts hparts

end AppModule

end AppBundle
