import AppBundle.Proofs.ArchiveNames

/-!
# Plain paths

A plain path consists of names with one slash between each two of them. An archive stores such a
path as it is, whatever its length. A path that does not fit into a header is cut for it, and the
cut path can always be copied, also if it ends within a name.
-/

namespace AppBundle.Text

section TakeBytes

/-- What is taken from a text fits into the limit. -/
theorem size_takeBytesChars (limit : Nat) (cs : List Char) :
    (String.ofList (takeBytesChars limit cs)).utf8ByteSize ≤ limit := by
  induction cs generalizing limit with
  | nil => exact Nat.zero_le limit
  | cons c cs ih =>
    rw [takeBytesChars]
    split
    · rw [String.ofList_cons, String.utf8ByteSize_append, String.utf8ByteSize_singleton]
      have := ih (limit - c.utf8Size)
      omega
    · exact Nat.zero_le limit

/-- From a text that is longer than the limit, no more than three bytes less are taken. -/
theorem lt_size_takeBytesChars {limit : Nat} {cs : List Char}
    (h : limit < (String.ofList cs).utf8ByteSize) :
    limit < (String.ofList (takeBytesChars limit cs)).utf8ByteSize + 4 := by
  induction cs generalizing limit with
  | nil => exact absurd h (Nat.not_lt_zero limit)
  | cons c cs ih =>
    rw [String.ofList_cons, String.utf8ByteSize_append, String.utf8ByteSize_singleton] at h
    rw [takeBytesChars]
    split
    · rw [String.ofList_cons, String.utf8ByteSize_append, String.utf8ByteSize_singleton]
      have hrest : limit - c.utf8Size < (String.ofList cs).utf8ByteSize := by omega
      have := ih hrest
      omega
    · have := c.utf8Size_le_four
      omega

/-- What is taken from a text is its beginning. -/
theorem takeBytesChars_prefix (limit : Nat) (cs : List Char) : takeBytesChars limit cs <+: cs := by
  induction cs generalizing limit with
  | nil => exact List.prefix_rfl
  | cons c cs ih =>
    rw [takeBytesChars]
    split
    · exact (List.prefix_cons_inj c).mpr (ih _)
    · exact List.nil_prefix

end TakeBytes

end AppBundle.Text

namespace AppBundle.Archive

open Files

/-- A path of names with one slash between each two of them, and at most one at the end. -/
def IsPlainPath (path : String) : Prop :=
  ∃ names, names ≠ [] ∧ (∀ name ∈ names, IsFileName name) ∧
    (Text.split '/' path = names ∨ Text.split '/' path = names ++ [""])

variable {isCut : Bool} {path name : String} {names : List String}

theorem slash_toList : "/".toList = ['/'] := rfl

/-- A path is plain if all its parts are names. -/
theorem isPlainPath_of_split (h : ∀ part ∈ Text.split '/' path, IsFileName part) :
    IsPlainPath path :=
  ⟨_, Text.split_ne_nil '/' path, h, .inl rfl⟩

theorem isPlainPath_join (hne : names ≠ []) (hnames : ∀ name ∈ names, IsFileName name) :
    IsPlainPath (Text.join "/" names) :=
  ⟨names, hne, hnames, .inl (Text.split_join slash_toList hne fun name h => (hnames name h).slash)⟩

/-- A name is a plain path. -/
theorem isPlainPath_of_isFileName (h : IsFileName name) : IsPlainPath name :=
  isPlainPath_join (List.cons_ne_nil name []) (by simpa using h)

/-- A name before a plain path makes a plain path. -/
theorem IsPlainPath.cons (h : IsPlainPath path) (hname : IsFileName name) :
    IsPlainPath (name ++ "/" ++ path) := by
  obtain ⟨names, hne, hnames, hsplit⟩ := h
  refine ⟨name :: names, List.cons_ne_nil _ _, List.forall_mem_cons.mpr ⟨hname, hnames⟩, ?_⟩
  rw [Text.split_append_of_not_mem slash_toList hname.slash]
  exact hsplit.imp (congrArg (name :: ·)) (congrArg (name :: ·))

/-- What follows a name in a plain path is a plain path, or nothing. -/
theorem IsPlainPath.of_cons (h : IsPlainPath (name ++ "/" ++ path)) (hname : '/' ∉ name.toList)
    (hne : path ≠ "") : IsPlainPath path := by
  obtain ⟨names, hnames_ne, hnames, hsplit⟩ := h
  obtain ⟨first, rest, rfl⟩ := List.exists_cons_of_ne_nil hnames_ne
  rw [Text.split_append_of_not_mem slash_toList hname, List.cons_append, List.cons.injEq,
    List.cons.injEq] at hsplit
  have hrest : rest ≠ [] := by
    rintro rfl
    rcases hsplit with ⟨-, hsplit⟩ | ⟨-, hsplit⟩
    · exact Text.split_ne_nil '/' path hsplit
    · refine hne ?_
      rw [← Text.join_split slash_toList path, hsplit]
      rfl
  exact ⟨rest, hrest, (List.forall_mem_cons.mp hnames).2, hsplit.imp And.right And.right⟩

theorem not_isFileName_empty : ¬ IsFileName "" := by decide

/-- The parts of a path that lead somewhere go into its name, if there are some. -/
theorem nameParts_of_filter {parts : List String} (hne : parts ≠ [])
    (hparts : (Text.split '/' path).filter (!isIdlePart ·) = parts) : nameParts path = parts := by
  unfold nameParts
  dsimp only
  rw [hparts]
  cases parts with
  | nil => exact absurd rfl hne
  | cons first rest => rfl

section Names

variable (hne : names ≠ []) (hnames : ∀ name ∈ names, IsFileName name)
include hne hnames

omit hne in
/-- All names lead somewhere. -/
theorem filter_names : names.filter (!isIdlePart ·) = names :=
  List.filter_eq_self.mpr fun name h => by simp [(hnames name h).idle]

/-- The names of a plain path are the parts of the name that is stored. -/
theorem nameParts_eq (hsplit : Text.split '/' path = names ∨ Text.split '/' path = names ++ [""]) :
    nameParts path = names := by
  refine nameParts_of_filter hne ?_
  rcases hsplit with h | h <;> rw [h]
  · exact filter_names hnames
  · rw [List.filter_append, filter_names hnames]
    exact List.append_nil names

omit hne in
/-- Names can be copied, and so can a cut name at their end. -/
theorem isCopyable_of_names : IsCopyable isCut names := by
  induction names with
  | nil => trivial
  | cons first rest ih =>
    obtain ⟨hfirst, hrest⟩ := List.forall_mem_cons.mp hnames
    exact ⟨fun h => absurd h hfirst.up, hfirst.zero, ih hrest⟩

omit hne in
theorem isCopyable_concat (hzero : '\x00' ∉ name.toList) : IsCopyable true (names ++ [name]) := by
  induction names with
  | nil => exact ⟨fun _ => ⟨rfl, rfl⟩, hzero, trivial⟩
  | cons first rest ih =>
    obtain ⟨hfirst, hrest⟩ := List.forall_mem_cons.mp hnames
    exact ⟨fun h => absurd h hfirst.up, hfirst.zero, ih hrest⟩

end Names

/-- A path that begins with a name is relative. -/
theorem isAbsolute_eq_false {rest : List String} (hname : IsFileName name)
    (hsplit : Text.split '/' path = name :: rest) : isAbsolute path = false := by
  by_contra habsolute
  obtain ⟨others, -, hstart⟩ := (Text.startsWith_iff slash_toList).mp
    ((Bool.not_eq_false _).mp habsolute)
  obtain rfl := (List.cons.inj (hsplit.symm.trans hstart)).1
  exact not_isFileName_empty hname

/-- A plain path is relative. -/
theorem IsPlainPath.relative (h : IsPlainPath path) : isAbsolute path = false := by
  obtain ⟨names, hne, hnames, hsplit⟩ := h
  obtain ⟨first, others, rfl⟩ := List.exists_cons_of_ne_nil hne
  have hfirst := hnames first List.mem_cons_self
  exact hsplit.elim (isAbsolute_eq_false hfirst) (isAbsolute_eq_false hfirst)

/-- A plain path has no zeros. -/
theorem IsPlainPath.zero (h : IsPlainPath path) : '\x00' ∉ path.toList := by
  obtain ⟨names, hne, hnames, hsplit⟩ := h
  intro hzero
  rw [← Text.join_split slash_toList path] at hzero
  rcases Text.mem_of_mem_join hzero with hzero | ⟨piece, hpiece, hzero⟩
  · exact absurd hzero (by decide)
  · rcases hsplit with hsplit | hsplit
    · exact (hnames piece (hsplit ▸ hpiece)).zero hzero
    · rw [hsplit, List.mem_append, List.mem_singleton] at hpiece
      rcases hpiece with hpiece | rfl
      · exact (hnames piece hpiece).zero hzero
      · exact List.not_mem_nil hzero

/-- The name that is put together from the parts of a plain path is the path itself. -/
theorem storedName_of_isPlainPath (h : IsPlainPath path) : storedName path = path := by
  obtain ⟨names, hne, hnames, hsplit⟩ := h
  rw [storedName, nameParts_eq hne hnames hsplit]
  rcases hsplit with hsplit | hsplit
  · have hend : ¬ Text.endsWith "/" path = true := by
      intro hend
      obtain ⟨rest, _, hrest⟩ := (Text.endsWith_iff slash_toList).mp hend
      refine not_isFileName_empty (hnames "" ?_)
      rw [← hsplit, hrest]
      simp
    rw [if_neg hend, String.append_empty, ← hsplit, Text.join_split slash_toList]
  · have hend : Text.endsWith "/" path = true :=
      (Text.endsWith_iff slash_toList).mpr ⟨names, hne, hsplit⟩
    rw [if_pos hend, ← String.append_empty (s := Text.join "/" names ++ "/"),
      ← Text.join_concat _ _ hne, ← hsplit, Text.join_split slash_toList]

/-- A plain path can be stored in a header if it fits. -/
theorem IsPlainPath.isStorable_iff (h : IsPlainPath path) :
    IsStorable isCut path ↔ path.utf8ByteSize ≤ nameSize := by
  have hstored := storedName_of_isPlainPath h
  obtain ⟨names, hne, hnames, hsplit⟩ := id h
  have hparts := nameParts_eq hne hnames hsplit
  constructor
  · intro hstorable
    exact hstored ▸ hstorable.fits
  · intro hfits
    exact ⟨h.relative, hparts ▸ hne, hparts ▸ isCopyable_of_names hnames, hstored.symm ▸ hfits⟩

section Points

variable (hne : names ≠ []) (hnames : ∀ name ∈ names, IsFileName name)
include hne hnames

omit hnames in
/-- A path whose last part is not empty does not end with a slash. -/
theorem storedName_concat {last : String} (hlast : last ≠ "")
    (hsplit : Text.split '/' path = names ++ [last]) :
    storedName path = Text.join "/" (nameParts path) ∧
      path = Text.join "/" names ++ "/" ++ last := by
  have hend : ¬ Text.endsWith "/" path = true := by
    intro hend
    obtain ⟨rest, -, hrest⟩ := (Text.endsWith_iff slash_toList).mp hend
    exact hlast (List.singleton_inj.mp (List.append_inj' (hsplit.symm.trans hrest) rfl).2)
  rw [storedName, if_neg hend, String.append_empty, ← Text.join_concat _ _ hne, ← hsplit,
    Text.join_split slash_toList]
  exact ⟨rfl, rfl⟩

theorem isAbsolute_concat {last : String} (hsplit : Text.split '/' path = names ++ [last]) :
    isAbsolute path = false := by
  obtain ⟨first, others, rfl⟩ := List.exists_cons_of_ne_nil hne
  exact isAbsolute_eq_false (hnames first List.mem_cons_self) hsplit

/-- One point after names is left out. -/
theorem isStorable_of_point (hsplit : Text.split '/' path = names ++ ["."])
    (hfits : path.utf8ByteSize ≤ nameSize) : IsStorable isCut path := by
  have hparts : nameParts path = names := by
    refine nameParts_of_filter hne ?_
    rw [hsplit, List.filter_append, filter_names hnames]
    exact List.append_nil names
  obtain ⟨hstored, hpath⟩ := storedName_concat hne (by decide) hsplit
  have hsize : (storedName path).utf8ByteSize ≤ nameSize := by
    rw [hpath, String.utf8ByteSize_append, String.utf8ByteSize_append] at hfits
    rw [hstored, hparts]
    omega
  exact ⟨isAbsolute_concat hne hnames hsplit, hparts ▸ hne,
    hparts ▸ isCopyable_of_names hnames, hsize⟩

/-- Two points after names stay in a path that was cut. -/
theorem isStorable_of_points (hsplit : Text.split '/' path = names ++ [".."])
    (hfits : path.utf8ByteSize ≤ nameSize) : IsStorable true path := by
  have hparts : nameParts path = names ++ [".."] := by
    refine nameParts_of_filter (by simp) ?_
    rw [hsplit, List.filter_append, filter_names hnames]
    rfl
  have hstored : storedName path = path := by
    rw [(storedName_concat hne (by decide) hsplit).1, hparts, ← hsplit,
      Text.join_split slash_toList]
  exact ⟨isAbsolute_concat hne hnames hsplit, by simp [hparts],
    hparts ▸ isCopyable_concat hnames (by decide), hstored.symm ▸ hfits⟩

end Points

section Cut

/-- The beginning of a long path that fits has some bytes. -/
theorem size_cutPath (h : nameSize < path.utf8ByteSize) :
    (cutPath path).utf8ByteSize ≤ nameSize ∧ nameSize < (cutPath path).utf8ByteSize + 4 := by
  refine ⟨Text.size_takeBytesChars _ _, Text.lt_size_takeBytesChars ?_⟩
  rwa [String.ofList_toList]

/-- A plain path that was cut consists of names, and of a last part that can be anything. -/
theorem IsPlainPath.exists_split_cutPath (h : IsPlainPath path) :
    ∃ names last, Text.split '/' (cutPath path) = names ++ [last] ∧
      (∀ name ∈ names, IsFileName name) ∧ '/' ∉ last.toList ∧ '\x00' ∉ last.toList := by
  have hbegins : (cutPath path).toList <+: path.toList := by
    rw [cutPath, Text.takeBytes, String.toList_ofList]
    exact Text.takeBytesChars_prefix _ _
  obtain ⟨pieces, last, rest, hcut, hrest, hall⟩ := Text.exists_split_of_prefix (c := '/') hbegins
  obtain ⟨hslash, hchars⟩ : '/' ∉ last.toList ∧ ∀ d ∈ last.toList, d ∈ (cutPath path).toList :=
    Text.mem_of_mem_split (hcut ▸ List.mem_append_right pieces (List.mem_singleton_self last))
  refine ⟨pieces, last, hcut, fun piece hpiece => ?_, hslash,
    fun hzero => h.zero (hbegins.subset (hchars _ hzero))⟩
  -- all parts but the last one are names, and the pieces are among them
  obtain ⟨names, hne, hnames, hsplit⟩ := h
  have hinit : piece ∈ (Text.split '/' path).dropLast := by
    rw [hall, List.dropLast_append_of_ne_nil hrest]
    exact List.mem_append_left _ hpiece
  rcases hsplit with hsplit | hsplit
  · exact hnames piece (List.dropLast_subset _ (hsplit ▸ hinit))
  · rw [hsplit, List.dropLast_concat] at hinit
    exact hnames piece hinit

/-- A plain path that was cut can be stored in a header. -/
theorem IsPlainPath.isStorable_cutPath (h : IsPlainPath path)
    (hsize : nameSize < path.utf8ByteSize) : IsStorable true (cutPath path) := by
  obtain ⟨names, last, hsplit, hnames, hslash, hzero⟩ := h.exists_split_cutPath
  obtain ⟨hfits, hlong⟩ := size_cutPath hsize
  have hne (hshort : last.utf8ByteSize ≤ 2) : names ≠ [] := by
    rintro rfl
    have hcut : cutPath path = last := by
      rw [← Text.join_split slash_toList (cutPath path), hsplit]
      rfl
    rw [hcut, nameSize] at hlong
    omega
  by_cases hname : IsFileName last
  · have hplain : IsPlainPath (cutPath path) :=
      ⟨names ++ [last], by simp, by simpa [or_imp, forall_and] using ⟨hnames, hname⟩, .inl hsplit⟩
    exact hplain.isStorable_iff.mpr hfits
  by_cases hempty : last = ""
  · rw [hempty] at hsplit hne
    have hplain : IsPlainPath (cutPath path) := ⟨names, hne (by decide), hnames, .inr hsplit⟩
    exact hplain.isStorable_iff.mpr hfits
  have hpoints : last = "." ∨ last = ".." := by
    by_contra hneither
    obtain ⟨hpoint, hup⟩ := not_or.mp hneither
    exact hname ⟨⟨by simp [isIdlePart, hempty, hpoint], hup⟩, hslash, hzero⟩
  rcases hpoints with rfl | rfl
  · exact isStorable_of_point (hne (by decide)) hnames hsplit hfits
  · exact isStorable_of_points (hne (by decide)) hnames hsplit hfits

end Cut

end AppBundle.Archive
