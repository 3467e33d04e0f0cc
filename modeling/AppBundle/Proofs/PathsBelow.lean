import AppBundle.Proofs.PathResolution

/-!
# Paths below a directory

A name that is joined to the path of a directory leads to what the directory lists under this
name. Only the length of the name and of the path can prevent that: links that lead to the
directory are not followed more often than before, and a name is looked up in the directory alone.
-/

namespace AppBundle.Files

section Joining

variable {directory name : String}

/-- A text that is not empty begins as it does with more text behind it. -/
theorem isAbsolute_append {left : String} (h : left ≠ "") (right : String) :
    isAbsolute (left ++ right) = isAbsolute left := by
  have hiff (s : String) : isAbsolute s = true ↔ ∃ rest, s.toList = '/' :: rest := by
    rw [isAbsolute, Text.startsWith, Option.isSome_iff_exists]
    simp only [Text.after?_eq_some_iff]
    constructor
    · rintro ⟨rest, rfl⟩
      exact ⟨rest.toList, String.toList_append⟩
    · rintro ⟨rest, hrest⟩
      exact ⟨.ofList rest, String.toList_inj.mp (by simp [hrest])⟩
  have hne : left.toList ≠ [] := fun hnil => h (String.toList_inj.mp hnil)
  rw [Bool.eq_iff_iff, hiff, hiff, String.toList_append]
  cases hleft : left.toList with
  | nil => exact absurd hleft hne
  | cons c cs => simp

/-- A name is joined to a path by one slash, which may be there already. -/
theorem exists_joinPath_eq (hdirectory : directory ≠ "") (hname : '/' ∉ name.toList) :
    ∃ start, joinPath directory name = start ++ "/" ++ name ∧
      (directory = start ∨ directory = start ++ "/") := by
  rw [joinPath, isAbsolute_eq_false_of_not_mem hname, Bool.false_or,
    if_neg (by simpa using hdirectory)]
  split
  · rename_i hend
    obtain ⟨start, hstart⟩ := Option.isSome_iff_exists.mp hend
    have hstart := Text.before?_eq_some_iff.mp hstart
    exact ⟨start, by rw [← hstart], .inr hstart⟩
  · exact ⟨directory, rfl, .inl rfl⟩

/-- A path gets longer by the name that is joined to it, and by a slash at most. -/
theorem size_le_joinPath (hdirectory : directory ≠ "") (hname : '/' ∉ name.toList) :
    directory.utf8ByteSize + name.utf8ByteSize ≤ (joinPath directory name).utf8ByteSize := by
  obtain ⟨start, hjoin, rfl | rfl⟩ := exists_joinPath_eq hdirectory hname
  · simp only [hjoin, String.utf8ByteSize_append]
    omega
  · simp only [hjoin, String.utf8ByteSize_append, Nat.le_refl]

theorem size_joinPath_le (hdirectory : directory ≠ "") (hname : '/' ∉ name.toList) :
    (joinPath directory name).utf8ByteSize ≤ directory.utf8ByteSize + 1 + name.utf8ByteSize := by
  have hslash : "/".utf8ByteSize = 1 := by decide
  obtain ⟨start, hjoin, rfl | rfl⟩ := exists_joinPath_eq hdirectory hname
  · simp only [hjoin, String.utf8ByteSize_append, hslash, Nat.le_refl]
  · simp only [hjoin, String.utf8ByteSize_append]
    omega

theorem lt_size_joinPath (hdirectory : directory ≠ "") (hname : IsFileName name) :
    directory.utf8ByteSize < (joinPath directory name).utf8ByteSize := by
  have hpos : name.utf8ByteSize ≠ 0 := fun hzero =>
    hname.ne_empty (String.utf8ByteSize_eq_zero_iff.mp hzero)
  have hsize := size_le_joinPath hdirectory hname.slash
  omega

theorem joinPath_ne_empty (hdirectory : directory ≠ "") (hname : '/' ∉ name.toList) :
    joinPath directory name ≠ "" := by
  intro hempty
  have hsize := size_le_joinPath hdirectory hname
  rw [hempty, String.utf8ByteSize_empty, Nat.le_zero, Nat.add_eq_zero_iff] at hsize
  exact hdirectory (String.utf8ByteSize_eq_zero_iff.mp hsize.1)

theorem isAbsolute_joinPath (hdirectory : directory ≠ "") (hname : '/' ∉ name.toList) :
    isAbsolute (joinPath directory name) = isAbsolute directory := by
  obtain ⟨start, hjoin, rfl | rfl⟩ := exists_joinPath_eq hdirectory hname
  · rw [hjoin, String.append_assoc, isAbsolute_append hdirectory]
  · rw [hjoin, isAbsolute_append hdirectory]

/-- The parts of a path stay, but for an empty one at the end, when a name is joined to it. -/
theorem exists_split_joinPath (hdirectory : directory ≠ "") (hname : '/' ∉ name.toList) :
    ∃ before, Text.split '/' (joinPath directory name) = before ++ [name] ∧
      (Text.split '/' directory = before ∨ Text.split '/' directory = before ++ [""]) := by
  obtain ⟨start, hjoin, hstart⟩ := exists_joinPath_eq hdirectory hname
  refine ⟨Text.split '/' start, ?_, hstart.imp (by rw [·]) fun h => ?_⟩
  · rw [hjoin, Text.split_append rfl, Text.split_of_not_mem hname]
  · have hend : Text.split '/' (start ++ "/" ++ "") = Text.split '/' start ++ Text.split '/' "" :=
      Text.split_append rfl start ""
    rwa [String.append_empty, ← h] at hend

theorem not_mem_joinPath {c : Char} (hc : c ≠ '/') (hdirectory : directory ≠ "")
    (hname : '/' ∉ name.toList) (hleft : c ∉ directory.toList) (hright : c ∉ name.toList) :
    c ∉ (joinPath directory name).toList := by
  obtain ⟨start, hjoin, rfl | rfl⟩ := exists_joinPath_eq hdirectory hname
  · simp [hjoin, hleft, hright, hc]
  · simp only [String.toList_append, List.mem_append, not_or] at hleft
    simp [hjoin, hleft.1, hright, hc]

end Joining

namespace Volume

variable {v : Volume} {links : Nat} {here there before : List String} {path name : String}
variable {children below : Listing} {node : Node} {content : ByteArray}

/-- A path that can be followed to a directory leads there. -/
theorem leads_of_follow (h : v.follow false links here before =
    .ok (.taken there (.directory children))) : v.Leads links here before there := by
  have hlist {below : Listing} {here : List String}
      (hbelow : nodeAt? here v.root = some (.directory below)) :
      v.shapeAt? here = some .directory := shapeAt?_eq_directory_iff.mpr ⟨below, hbelow⟩
  have hshape {below : Listing} {here : List String} {part : String} {node : Node}
      (hbelow : nodeAt? here v.root = some (.directory below))
      (hnode : below.lookup part = some node) :
      v.shapeAt? (here ++ [part]) = some node.shape := by
    rw [shapeAt?_concat hbelow, hnode, Option.map_some]
  fun_induction follow v false links here before with
  | case1 links here node hnode =>
    obtain ⟨rfl, rfl⟩ := Place.taken.inj (Except.ok.inj h)
    exact .done (hlist hnode)
  | case3 links here part rest below hbelow hidle ih => exact .stay (hlist hbelow) hidle (ih h)
  | case4 links here rest below hbelow hidle ih => exact .up (hlist hbelow) (ih h)
  | case10 here part rest below hbelow hidle hup hmaking hsize target htarget links ih =>
    exact .link (hlist hbelow) ⟨by simpa using hidle, hup⟩ (Nat.le_of_not_lt hsize)
      (hshape hbelow htarget) (ih h)
  | case11 links here part rest below hbelow hidle hup hmaking hsize children hchildren ih =>
    exact .down (hlist hbelow) ⟨by simpa using hidle, hup⟩ (Nat.le_of_not_lt hsize)
      (hshape hbelow hchildren) (ih h)
  | case12 links here part rest below hbelow hidle hup hmaking hsize content hcontent hempty =>
    cases h
  | case2 | case5 | case6 | case7 | case8 | case9 | case13 | case14 | case15 => cases h

/-- A part at the end that leads nowhere else can be left out. -/
theorem Leads.of_idle_end {part : String} (h : v.Leads links here (before ++ [part]) there)
    (hpart : isIdlePart part) : v.Leads links here before there := by
  generalize hparts : before ++ [part] = parts at h
  induction h generalizing before with
  | done hhere => simp at hparts
  | stay hhere hidle hrest ih =>
    rcases List.append_eq_cons_iff.mp hparts with ⟨rfl, hlast⟩ | ⟨before, rfl, hrest'⟩
    · obtain ⟨rfl, rfl⟩ := List.cons.inj hlast
      exact hrest
    · exact .stay hhere hidle (ih hrest'.symm)
  | up hhere hrest ih =>
    rcases List.append_eq_cons_iff.mp hparts with ⟨rfl, hlast⟩ | ⟨before, rfl, hrest'⟩
    · obtain ⟨rfl, rfl⟩ := List.cons.inj hlast
      exact absurd hpart (by decide)
    · exact .up hhere (ih hrest'.symm)
  | down hhere hname hsize hbelow hrest ih =>
    rcases List.append_eq_cons_iff.mp hparts with ⟨rfl, hlast⟩ | ⟨before, rfl, hrest'⟩
    · obtain ⟨rfl, rfl⟩ := List.cons.inj hlast
      exact absurd hpart (by simp [hname.idle])
    · exact .down hhere hname hsize hbelow (ih hrest'.symm)
  | link hhere hname hsize hlink hrest ih =>
    rcases List.append_eq_cons_iff.mp hparts with ⟨rfl, hlast⟩ | ⟨before, rfl, hrest'⟩
    · obtain ⟨rfl, rfl⟩ := List.cons.inj hlast
      exact absurd hpart (by simp [hname.idle])
    · exact .link hhere hname hsize hlink (ih (by rw [List.append_assoc, ← hrest']))

/-- A path and a name in its directory are short enough for the name to be looked up. -/
def FitsAt (path name : String) : Prop :=
  (joinPath path name).utf8ByteSize ≤ maxPathSize ∧ name.utf8ByteSize ≤ maxNameSize

instance (path name : String) : Decidable (FitsAt path name) := inferInstanceAs (Decidable (_ ∧ _))

/-- The parts of a path that leads to a directory still lead there when a name is joined to it. -/
theorem exists_leads_joinPath (hpath : v.find path = .ok (.directory children))
    (hname : IsFileName name) :
    ∃ there before, nodeAt? there v.root = some (.directory children) ∧
      v.Leads maxLinks (v.startOf (joinPath path name)) before there ∧
      partsOf (joinPath path name) =
        if (joinPath path name).utf8ByteSize ≤ maxPathSize then .ok (before ++ [name])
        else .error .nameTooLong := by
  obtain ⟨place, hlocate, hplace⟩ := bind_eq_ok_iff.mp hpath
  obtain ⟨parts, hparts, hfollow⟩ := bind_eq_ok_iff.mp hlocate
  obtain ⟨hzero, hne, -, rfl⟩ := partsOf_eq_ok_iff.mp hparts
  obtain ⟨there, rfl⟩ : ∃ there, place = .taken there (.directory children) := by
    cases place with
    | vacant directory name => cases hplace
    | taken there found => exact ⟨there, by rw [Except.ok.inj hplace]⟩
  have hstart : v.startOf (joinPath path name) = v.startOf path := by
    rw [startOf, startOf, isAbsolute_joinPath hne hname.slash]
  have hzero : '\x00' ∉ (joinPath path name).toList :=
    not_mem_joinPath (by decide) hne hname.slash hzero hname.zero
  obtain ⟨before, hjoined, hbefore⟩ := exists_split_joinPath hne hname.slash
  refine ⟨there, before, nodeAt?_of_follow hfollow, ?_, ?_⟩
  · have hleads := leads_of_follow hfollow
    rw [hstart]
    rcases hbefore with hbefore | hbefore
    · rwa [hbefore] at hleads
    · rw [hbefore] at hleads
      exact hleads.of_idle_end (by decide)
  · rw [partsOf, if_neg hzero, if_neg (joinPath_ne_empty hne hname.slash), hjoined]
    simp only [← Nat.not_le, ite_not]

/-- A path that leads to a directory leads to what the directory lists when a name is joined to
it, as long as the path and the name fit. -/
theorem find_joinPath (hpath : v.find path = .ok (.directory children)) (hname : IsFileName name)
    (hnode : children.lookup name = some node) (hlink : ∀ target, node ≠ .link target) :
    v.find (joinPath path name) = if FitsAt path name then .ok node else .error .nameTooLong := by
  obtain ⟨there, before, hthere, hleads, hparts⟩ := exists_leads_joinPath hpath hname
  have hnext : nodeAt? (there ++ [name]) v.root = some node := by
    rw [nodeAt?_concat hthere, hnode]
  have hlocate : v.locate false (joinPath path name) =
      if FitsAt path name then .ok (.taken (there ++ [name]) node) else .error .nameTooLong := by
    rw [locate, hparts]
    by_cases hsize : (joinPath path name).utf8ByteSize ≤ maxPathSize
    · rw [if_pos hsize]
      refine (hleads.follow_eq hname.toIsName hnext hlink).trans ?_
      simp only [FitsAt, hsize, true_and, ← Nat.not_le, ite_not]
    · rw [if_neg hsize, if_neg fun hfits => hsize hfits.1]
      rfl
  rw [find, hlocate]
  split <;> rfl

/-- A path that leads to a directory leads to a name there that is joined to it. -/
theorem exists_leadsTo_joinPath (hpath : v.find path = .ok (.directory children))
    (hname : IsFileName name) (hfits : FitsAt path name) :
    ∃ there, nodeAt? there v.root = some (.directory children) ∧
      v.LeadsTo (joinPath path name) there name := by
  obtain ⟨there, before, hthere, hleads, hparts⟩ := exists_leads_joinPath hpath hname
  rw [if_pos hfits.1] at hparts
  exact ⟨there, hthere, ⟨before, hparts, hleads⟩, hname.toIsName, hfits.2⟩

/-- A directory that can be listed is what its path leads to. -/
theorem readDirectory_eq_ok_iff :
    v.readDirectory path = .ok children ↔ v.find path = .ok (.directory children) := by
  constructor
  · intro h
    obtain ⟨node, hfind, hnode⟩ := bind_eq_ok_iff.mp h
    cases node with
    | directory below => rw [hfind, Except.ok.inj hnode]
    | file content => cases hnode
    | link target => cases hnode
  · exact fun hfind => bind_eq_ok_iff.mpr ⟨_, hfind, rfl⟩

section Listed

variable (hlist : v.readDirectory path = .ok children) (hname : IsFileName name)
include hlist hname

/-- A directory can be listed at the path of the directory above it with its name. -/
theorem readDirectory_joinPath (hnode : children.lookup name = some (.directory below)) :
    v.readDirectory (joinPath path name) =
      if FitsAt path name then .ok below else .error .nameTooLong := by
  have hfind := find_joinPath (readDirectory_eq_ok_iff.mp hlist) hname hnode (by simp)
  unfold readDirectory
  rw [hfind]
  split <;> rfl

/-- A file can be read at the path of the directory above it with its name. -/
theorem readFile_joinPath (hnode : children.lookup name = some (.file content)) :
    v.readFile (joinPath path name) =
      if FitsAt path name then .ok content else .error .nameTooLong := by
  have hfind := find_joinPath (readDirectory_eq_ok_iff.mp hlist) hname hnode (by simp)
  unfold readFile
  rw [hfind]
  split <;> rfl

end Listed

end Volume

end AppBundle.Files
