import AppBundle.Proofs.JoinedTexts
import AppBundle.Proofs.Outcomes
import AppBundle.Proofs.VolumeLocations

/-!
# Following paths

A path whose last part is the name of a file leads through directories and links to a directory,
and there to the name. Where it leads depends on the directories and links of a volume only, so
writing a file leaves the way to another one as it is.
-/

namespace AppBundle.Files

/-- A part of a path that is looked up in a directory. -/
structure IsName (part : String) : Prop where
  idle : isIdlePart part = false
  up : part ≠ ".."

/-- A name that something in a directory can have. -/
structure IsFileName (name : String) : Prop extends IsName name where
  slash : '/' ∉ name.toList
  zero : '\x00' ∉ name.toList

theorem IsName.ne_empty {name : String} (h : IsName name) : name ≠ "" := by
  intro hempty
  simpa [isIdlePart, hempty] using h.idle

/-- A text without slashes is no absolute path. -/
theorem isAbsolute_eq_false_of_not_mem {name : String} (h : '/' ∉ name.toList) :
    isAbsolute name = false := by
  refine Bool.eq_false_iff.mpr fun habsolute => ?_
  obtain ⟨rest, hrest⟩ := Option.isSome_iff_exists.mp habsolute
  rw [Text.after?_eq_some_iff.mp hrest, String.toList_append] at h
  exact h (List.mem_append_left _ (by decide))

instance (name : String) : Decidable (IsFileName name) :=
  decidable_of_iff
    ((isIdlePart name = false ∧ name ≠ "..") ∧ '/' ∉ name.toList ∧ '\x00' ∉ name.toList)
    ⟨fun h => ⟨⟨h.1.1, h.1.2⟩, h.2.1, h.2.2⟩, fun h => ⟨⟨h.idle, h.up⟩, h.slash, h.zero⟩⟩

namespace Volume

/-- Parts of a path lead from one directory to another one, through some links at most. -/
inductive Leads (v : Volume) : (links : Nat) → (here parts there : List String) → Prop
  | done {links : Nat} {here : List String} (hhere : v.shapeAt? here = some .directory) :
      Leads v links here [] here
  | stay {links : Nat} {here rest there : List String} {part : String}
      (hhere : v.shapeAt? here = some .directory) (hpart : isIdlePart part)
      (hrest : Leads v links here rest there) : Leads v links here (part :: rest) there
  | up {links : Nat} {here rest there : List String}
      (hhere : v.shapeAt? here = some .directory)
      (hrest : Leads v links here.dropLast rest there) : Leads v links here (".." :: rest) there
  | down {links : Nat} {here rest there : List String} {part : String}
      (hhere : v.shapeAt? here = some .directory) (hname : IsName part)
      (hsize : part.utf8ByteSize ≤ maxNameSize)
      (hbelow : v.shapeAt? (here ++ [part]) = some .directory)
      (hrest : Leads v links (here ++ [part]) rest there) : Leads v links here (part :: rest) there
  | link {links : Nat} {here rest there : List String} {part target : String}
      (hhere : v.shapeAt? here = some .directory) (hname : IsName part)
      (hsize : part.utf8ByteSize ≤ maxNameSize)
      (hlink : v.shapeAt? (here ++ [part]) = some (.link target))
      (hrest : Leads v links (if isAbsolute target then [] else here)
        (Text.split '/' target ++ rest) there) : Leads v (links + 1) here (part :: rest) there

/-- What leads somewhere in one volume leads there in another one. -/
structure KeepsWays (v w : Volume) : Prop where
  directory : ∀ location, v.shapeAt? location = some .directory →
    w.shapeAt? location = some .directory
  link : ∀ location target, v.shapeAt? location = some (.link target) →
    w.shapeAt? location = some (.link target)

/-- No link has some name. -/
def LacksLink (v : Volume) (name : String) : Prop :=
  ∀ location target, v.shapeAt? (location ++ [name]) ≠ some (.link target)

/-- A name in a directory leads to what is there, if there is anything. -/
inductive Ends (v : Volume) (there : List String) (name : String) : Place → Prop
  | vacant (h : v.shapeAt? (there ++ [name]) = none) : Ends v there name (.vacant there name)
  | taken {node : Node} (h : nodeAt? (there ++ [name]) v.root = some node) :
      Ends v there name (.taken (there ++ [name]) node)

variable {v w : Volume} {making : Bool} {links : Nat} {here there parts rest : List String}
variable {part name : String}

/-- Where parts lead depends on the directories and links only. -/
theorem Leads.of_keepsWays (hkeeps : v.KeepsWays w) (h : v.Leads links here parts there) :
    w.Leads links here parts there := by
  induction h with
  | done hhere => exact .done (hkeeps.directory _ hhere)
  | stay hhere hpart _ ih => exact .stay (hkeeps.directory _ hhere) hpart ih
  | up hhere _ ih => exact .up (hkeeps.directory _ hhere) ih
  | down hhere hname hsize hbelow _ ih =>
    exact .down (hkeeps.directory _ hhere) hname hsize (hkeeps.directory _ hbelow) ih
  | link hhere hname hsize hlink _ ih =>
    exact .link (hkeeps.directory _ hhere) hname hsize (hkeeps.link _ _ hlink) ih

/-- Parts of a path lead to a directory. -/
theorem Leads.directory (h : v.Leads links here parts there) :
    v.shapeAt? there = some .directory := by
  induction h with
  | done hhere => exact hhere
  | stay _ _ _ ih | up _ _ ih | down _ _ _ _ _ ih | link _ _ _ _ _ ih => exact ih

/-- A path that can be followed to a name, which is not that of a link, leads to a directory and
there to the name. -/
theorem exists_leads_of_follow {place : Place} (hname : IsName name) (hlacks : v.LacksLink name)
    (h : v.follow making links here parts = .ok place) {before : List String}
    (hparts : parts = before ++ [name]) :
    ∃ there, v.Leads links here before there ∧ v.Ends there name place ∧
      name.utf8ByteSize ≤ maxNameSize := by
  have hlist {below : Listing} {here : List String}
      (hbelow : nodeAt? here v.root = some (.directory below)) :
      v.shapeAt? here = some .directory := shapeAt?_eq_directory_iff.mpr ⟨below, hbelow⟩
  have hshape {below : Listing} {here : List String} {part : String} {node : Node}
      (hbelow : nodeAt? here v.root = some (.directory below))
      (hnode : below.lookup part = some node) :
      v.shapeAt? (here ++ [part]) = some node.shape := by
    rw [shapeAt?_concat hbelow, hnode, Option.map_some]
  -- one case for each branch of `follow`; the first part is the name only at the end of the path
  fun_induction follow v making links here parts generalizing before with
  | case1 links here node hnode => simp at hparts
  | case3 links here part rest below hbelow hidle ih =>
    rcases List.cons_eq_append_iff.mp hparts with ⟨rfl, hlast⟩ | ⟨before, rfl, hrest⟩
    · obtain ⟨rfl, rfl⟩ := List.cons.inj hlast
      exact absurd hidle (by simp [hname.idle])
    · obtain ⟨there, hleads, hends⟩ := ih h hrest
      exact ⟨there, .stay (hlist hbelow) hidle hleads, hends⟩
  | case4 links here rest below hbelow hidle ih =>
    rcases List.cons_eq_append_iff.mp hparts with ⟨rfl, hlast⟩ | ⟨before, rfl, hrest⟩
    · exact absurd (List.cons.inj hlast).1 hname.up
    · obtain ⟨there, hleads, hends⟩ := ih h hrest
      exact ⟨there, .up (hlist hbelow) hleads, hends⟩
  | case7 links here part rest below hbelow hidle hup hmaking hsize hnone hempty =>
    rw [List.isEmpty_iff.mp hempty] at hparts
    obtain ⟨rfl, rfl⟩ : before = [] ∧ name = part := by
      simpa [List.append_eq_singleton_iff] using hparts.symm
    have hvacant : v.shapeAt? (here ++ [name]) = none := by
      rw [shapeAt?_concat hbelow, hnone, Option.map_none]
    rw [← Except.ok.inj h]
    exact ⟨here, .done (hlist hbelow), .vacant hvacant, Nat.le_of_not_lt hsize⟩
  | case10 here part rest below hbelow hidle hup hmaking hsize target htarget links ih =>
    rcases List.cons_eq_append_iff.mp hparts with ⟨rfl, hlast⟩ | ⟨before, rfl, hrest⟩
    · obtain ⟨rfl, rfl⟩ := List.cons.inj hlast
      exact absurd (hshape hbelow htarget) (hlacks here target)
    · obtain ⟨there, hleads, hends⟩ := ih h (by rw [hrest, List.append_assoc])
      exact ⟨there, .link (hlist hbelow) ⟨by simpa using hidle, hup⟩ (Nat.le_of_not_lt hsize)
        (hshape hbelow htarget) hleads, hends⟩
  | case11 links here part rest below hbelow hidle hup hmaking hsize children hchildren ih =>
    rcases List.cons_eq_append_iff.mp hparts with ⟨rfl, hlast⟩ | ⟨before, rfl, hrest⟩
    · obtain ⟨rfl, rfl⟩ := List.cons.inj hlast
      have hnode : nodeAt? (here ++ [name]) v.root = some (.directory children) := by
        rw [nodeAt?_concat hbelow, hchildren]
      rw [follow, hnode] at h
      rw [← Except.ok.inj h]
      exact ⟨here, .done (hlist hbelow), .taken hnode, Nat.le_of_not_lt hsize⟩
    · obtain ⟨there, hleads, hends⟩ := ih h hrest
      exact ⟨there, .down (hlist hbelow) ⟨by simpa using hidle, hup⟩ (Nat.le_of_not_lt hsize)
        (hshape hbelow hchildren) hleads, hends⟩
  | case12 links here part rest below hbelow hidle hup hmaking hsize content hcontent hempty =>
    rw [List.isEmpty_iff.mp hempty] at hparts
    obtain ⟨rfl, rfl⟩ : before = [] ∧ name = part := by
      simpa [List.append_eq_singleton_iff] using hparts.symm
    rw [← Except.ok.inj h]
    exact ⟨here, .done (hlist hbelow), .taken (by rw [nodeAt?_concat hbelow, hcontent]),
      Nat.le_of_not_lt hsize⟩
  | case2 | case5 | case6 | case8 | case9 | case13 | case14 | case15 => cases h

/-- What a path leads to stands at its place. -/
theorem nodeAt?_of_follow {location : List String} {node : Node}
    (h : v.follow making links here parts = .ok (.taken location node)) :
    nodeAt? location v.root = some node := by
  fun_induction follow v making links here parts with
  | case1 links here found hfound =>
    cases h
    exact hfound
  | case3 links here part rest below hbelow hidle ih => exact ih h
  | case4 links here rest below hbelow hidle ih => exact ih h
  | case10 here part rest below hbelow hidle hup hmaking hsize target htarget links ih => exact ih h
  | case11 links here part rest below hbelow hidle hup hmaking hsize children hchildren ih =>
    exact ih h
  | case12 links here part rest below hbelow hidle hup hmaking hsize content hcontent hempty =>
    cases h
    rw [nodeAt?_concat hbelow, hcontent]
  | case2 | case5 | case6 | case7 | case8 | case9 | case13 | case14 | case15 => cases h

/-- A name in a directory is followed to what the directory lists, if that is no link. -/
theorem follow_name {children : Listing} {node : Node}
    (hthere : nodeAt? there v.root = some (.directory children)) (hname : IsName name)
    (hnode : children.lookup name = some node) (hlink : ∀ target, node ≠ .link target) :
    v.follow making links there [name] =
      if maxNameSize < name.utf8ByteSize then .error .nameTooLong
      else .ok (.taken (there ++ [name]) node) := by
  have hnext : nodeAt? (there ++ [name]) v.root = some node := by rw [nodeAt?_concat hthere, hnode]
  rw [follow, hthere]
  cases node with
  | file content => simp [hname.idle, hname.up, hnode]
  | directory below => simp [hname.idle, hname.up, hnode, follow, hnext]
  | link target => exact absurd rfl (hlink target)

/-- A name that a directory does not list is followed to a vacant place. -/
theorem follow_vacant {children : Listing}
    (hthere : nodeAt? there v.root = some (.directory children)) (hname : IsName name)
    (hsize : name.utf8ByteSize ≤ maxNameSize) (hvacant : children.lookup name = none) :
    v.follow making links there [name] = .ok (.vacant there name) := by
  rw [follow, hthere]
  simp [hname.idle, hname.up, Nat.not_lt.mpr hsize, hvacant]

/-- Parts that come after those that lead to a directory are followed from there on. Slashes alone
do not count as such parts, since a file can not be made behind them. -/
theorem Leads.exists_follow_eq {before after : List String} (h : v.Leads links here before there)
    (hafter : after.all (· = "") = false) :
    ∃ more, v.follow making links here (before ++ after) = v.follow making more there after := by
  have hnot (before : List String) : (before ++ after).all (· = "") = false := by
    rw [List.all_append, hafter, Bool.and_false]
  induction h with
  | @done links here hhere => exact ⟨links, rfl⟩
  | @stay links here rest there part hhere hpart _ ih =>
    obtain ⟨below, hbelow⟩ := shapeAt?_eq_directory_iff.mp hhere
    rw [List.cons_append, follow, hbelow]
    simpa [hpart] using ih
  | @up links here rest there hhere _ ih =>
    obtain ⟨below, hbelow⟩ := shapeAt?_eq_directory_iff.mp hhere
    have hpart : isIdlePart ".." = false := by decide
    rw [List.cons_append, follow, hbelow]
    simpa [hpart] using ih
  | @down links here rest there part hhere hpart hpartsize hnext _ ih =>
    obtain ⟨below, hbelow⟩ := shapeAt?_eq_directory_iff.mp hhere
    obtain ⟨children, hchildren⟩ := shapeAt?_eq_directory_iff.mp hnext
    rw [nodeAt?_concat hbelow] at hchildren
    rw [List.cons_append, follow, hbelow]
    simpa [hpart.idle, hpart.up, hnot, Nat.not_lt.mpr hpartsize, hchildren] using ih
  | @link links here rest there part target hhere hpart hpartsize hlink _ ih =>
    obtain ⟨below, hbelow⟩ := shapeAt?_eq_directory_iff.mp hhere
    have htarget : below.lookup part = some (.link target) := by
      rw [← nodeAt?_concat hbelow]
      exact shapeAt?_eq_link_iff.mp hlink
    rw [List.append_assoc] at ih
    rw [List.cons_append, follow, hbelow]
    simpa [hpart.idle, hpart.up, hnot, Nat.not_lt.mpr hpartsize, htarget] using ih

/-- A path that leads to a directory can be followed to what is there, if that is no link. -/
theorem Leads.follow_eq {before : List String} {node : Node} (h : v.Leads links here before there)
    (hname : IsName name) (hnode : nodeAt? (there ++ [name]) v.root = some node)
    (hlink : ∀ target, node ≠ .link target) :
    v.follow making links here (before ++ [name]) =
      if maxNameSize < name.utf8ByteSize then .error .nameTooLong
      else .ok (.taken (there ++ [name]) node) := by
  obtain ⟨below, hbelow⟩ := shapeAt?_eq_directory_iff.mp h.directory
  have hafter : [name].all (· = "") = false := by simp [hname.ne_empty]
  obtain ⟨more, hmore⟩ := h.exists_follow_eq hafter
  rw [hmore, follow_name hbelow hname (by rw [← nodeAt?_concat hbelow, hnode]) hlink]

end Volume

/-- The last part of a path is some name. -/
def LastPart (path name : String) : Prop := ∃ before, Text.split '/' path = before ++ [name]

/-- A name that is joined to a path becomes its last part. -/
theorem lastPart_joinPath {name : String} (h : '/' ∉ name.toList) (directory : String) :
    LastPart (joinPath directory name) name := by
  have happend (start : String) : LastPart (start ++ "/" ++ name) name :=
    ⟨Text.split '/' start, by rw [Text.split_append rfl, Text.split_of_not_mem h]⟩
  unfold joinPath
  split
  · exact ⟨[], Text.split_of_not_mem h⟩
  · split
    · rename_i hend
      obtain ⟨start, hstart⟩ := Option.isSome_iff_exists.mp hend
      rw [Text.before?_eq_some_iff.mp hstart]
      exact happend start
    · exact happend directory

namespace Volume

variable {v w : Volume} {path name : String} {there : List String} {content : ByteArray}

/-- A path that can be looked up has no zero in it, and it is neither empty nor too long. -/
theorem partsOf_eq_ok_iff {parts : List String} : partsOf path = .ok parts ↔
    '\x00' ∉ path.toList ∧ path ≠ "" ∧ path.utf8ByteSize ≤ maxPathSize ∧
      Text.split '/' path = parts := by
  unfold partsOf
  split
  · simp [*]
  split
  · simp [*]
  split
  · simp [Nat.not_le.mpr ‹_›]
  · simp_all

/-- A path leads to a name in a directory. -/
structure LeadsTo (v : Volume) (path : String) (there : List String) (name : String) : Prop where
  leads : ∃ before, partsOf path = .ok (before ++ [name]) ∧
    v.Leads maxLinks (v.startOf path) before there
  isName : IsName name
  size : name.utf8ByteSize ≤ maxNameSize

theorem LeadsTo.directory (h : v.LeadsTo path there name) : v.shapeAt? there = some .directory := by
  obtain ⟨_, _, hleads⟩ := h.leads
  exact hleads.directory

/-- Where a path leads depends on the directories and links only. -/
theorem LeadsTo.of_keepsWays (hkeeps : v.KeepsWays w)
    (hworking : w.workingDirectory = v.workingDirectory) (h : v.LeadsTo path there name) :
    w.LeadsTo path there name := by
  obtain ⟨before, hparts, hleads⟩ := h.leads
  refine ⟨⟨before, hparts, ?_⟩, h.isName, h.size⟩
  rw [startOf, hworking]
  exact hleads.of_keepsWays hkeeps

/-- A path that leads to a file can be read. -/
theorem LeadsTo.readFile_eq (h : v.LeadsTo path there name)
    (hfile : v.shapeAt? (there ++ [name]) = some (.file content)) :
    v.readFile path = .ok content := by
  obtain ⟨before, hparts, hleads⟩ := h.leads
  have hlocate : v.locate false path = .ok (.taken (there ++ [name]) (.file content)) := by
    refine bind_eq_ok_iff.mpr ⟨_, hparts, ?_⟩
    rw [hleads.follow_eq h.isName (shapeAt?_eq_file_iff.mp hfile) (by simp),
      if_neg (Nat.not_lt.mpr h.size)]
  have hfind : v.find path = .ok (.file content) := bind_eq_ok_iff.mpr ⟨_, hlocate, rfl⟩
  exact bind_eq_ok_iff.mpr ⟨_, hfind, rfl⟩

/-- A path that leads to a name can be written, unless the name is that of a directory or link. -/
theorem LeadsTo.writeFile_eq (h : v.LeadsTo path there name)
    (hdirectory : v.shapeAt? (there ++ [name]) ≠ some .directory) (hlacks : v.LacksLink name)
    (content : ByteArray) :
    v.writeFile path content = .ok (v.put (there ++ [name]) (.file content)) := by
  obtain ⟨before, hparts, hleads⟩ := h.leads
  have hlocate {place : Place}
      (hfollow : v.follow true maxLinks (v.startOf path) (before ++ [name]) = .ok place) :
      v.locate true path = .ok place := bind_eq_ok_iff.mpr ⟨_, hparts, hfollow⟩
  cases hnode : nodeAt? (there ++ [name]) v.root with
  | none =>
    obtain ⟨below, hbelow⟩ := shapeAt?_eq_directory_iff.mp h.directory
    have hafter : [name].all (· = "") = false := by simp [h.isName.ne_empty]
    obtain ⟨more, hmore⟩ : ∃ more, v.follow true maxLinks (v.startOf path) (before ++ [name]) =
        v.follow true more there [name] := hleads.exists_follow_eq hafter
    have hvacant : below.lookup name = none := by rw [← nodeAt?_concat hbelow, hnode]
    rw [follow_vacant hbelow h.isName h.size hvacant] at hmore
    exact bind_eq_ok_iff.mpr ⟨_, hlocate hmore, rfl⟩
  | some node =>
    cases node with
    | directory children => exact absurd (shapeAt?_eq_directory_iff.mpr ⟨_, hnode⟩) hdirectory
    | link target => exact absurd (shapeAt?_eq_link_iff.mpr hnode) (hlacks there target)
    | file old =>
      refine bind_eq_ok_iff.mpr ⟨.taken (there ++ [name]) (.file old), hlocate ?_, rfl⟩
      rw [hleads.follow_eq h.isName hnode (by simp), if_neg (Nat.not_lt.mpr h.size)]

section Names

variable (hname : IsFileName name)
include hname

theorem partsOf_of_isFileName (hsize : name.utf8ByteSize ≤ maxNameSize) :
    partsOf name = .ok [name] :=
  partsOf_eq_ok_iff.mpr ⟨hname.zero, hname.ne_empty, Nat.le_trans hsize (by decide),
    Text.split_of_not_mem hname.slash⟩

theorem startOf_of_isFileName : v.startOf name = v.workingDirectory := by
  rw [startOf, isAbsolute_eq_false_of_not_mem hname.slash, if_neg Bool.false_ne_true]

end Names

section Lookup

variable {children : Listing} {node : Node}
variable (hhere : nodeAt? v.workingDirectory v.root = some (.directory children))
variable (hname : IsFileName name) (hsize : name.utf8ByteSize ≤ maxNameSize)
include hhere hname hsize

/-- A name in the working directory is found, if it is not that of a link. -/
theorem find_of_lookup (hnode : children.lookup name = some node)
    (hlink : ∀ target, node ≠ .link target) : v.find name = .ok node := by
  have hfollow : v.follow false maxLinks v.workingDirectory [name] =
      .ok (.taken (v.workingDirectory ++ [name]) node) := by
    rw [follow_name hhere hname.toIsName hnode hlink, if_neg (Nat.not_lt.mpr hsize)]
  have hlocate : v.locate false name = .ok (.taken (v.workingDirectory ++ [name]) node) :=
    bind_eq_ok_iff.mpr
      ⟨_, partsOf_of_isFileName hname hsize, by rw [startOf_of_isFileName hname, hfollow]⟩
  exact bind_eq_ok_iff.mpr ⟨_, hlocate, rfl⟩

/-- A file in the working directory can be read. -/
theorem readFile_of_lookup (hnode : children.lookup name = some (.file content)) :
    v.readFile name = .ok content :=
  bind_eq_ok_iff.mpr ⟨_, find_of_lookup hhere hname hsize hnode (fun _ h => by cases h), rfl⟩

/-- A directory in the working directory can be listed. -/
theorem readDirectory_of_lookup {below : Listing}
    (hnode : children.lookup name = some (.directory below)) :
    v.isDirectory name ∧ v.readDirectory name = .ok below := by
  have hfind := find_of_lookup hhere hname hsize hnode (fun _ h => by cases h)
  exact ⟨by rw [isDirectory, hfind], bind_eq_ok_iff.mpr ⟨_, hfind, rfl⟩⟩

end Lookup

/-- A path that can be located leads to its last part, if that is not the name of a link. -/
theorem exists_leadsTo_of_locate {making : Bool} {place : Place} (hlast : LastPart path name)
    (hname : IsName name) (hlacks : v.LacksLink name) (h : v.locate making path = .ok place) :
    ∃ there, v.LeadsTo path there name ∧ v.Ends there name place := by
  obtain ⟨parts, hparts, hfollow⟩ := bind_eq_ok_iff.mp h
  obtain ⟨before, hbefore⟩ := hlast
  have hsplit : parts = before ++ [name] := (partsOf_eq_ok_iff.mp hparts).2.2.2.symm.trans hbefore
  obtain ⟨there, hleads, hends, hsize⟩ := exists_leads_of_follow hname hlacks hfollow hsplit
  exact ⟨there, ⟨⟨before, hsplit ▸ hparts, hleads⟩, hname, hsize⟩, hends⟩

/-- A file that can be read at a path stands in the directory that the path leads to. -/
theorem exists_leadsTo_of_readFile (hlast : LastPart path name) (hname : IsName name)
    (hlacks : v.LacksLink name) (h : v.readFile path = .ok content) :
    ∃ there, v.LeadsTo path there name ∧
      v.shapeAt? (there ++ [name]) = some (.file content) := by
  obtain ⟨node, hfind, h⟩ := bind_eq_ok_iff.mp h
  obtain ⟨place, hlocate, hplace⟩ := bind_eq_ok_iff.mp hfind
  obtain ⟨there, hleads, hends⟩ := exists_leadsTo_of_locate hlast hname hlacks hlocate
  refine ⟨there, hleads, ?_⟩
  cases hends with
  | vacant => cases hplace
  | @taken found hfound =>
    obtain rfl : found = node := Except.ok.inj hplace
    cases found with
    | file content' =>
      obtain rfl : content' = content := Except.ok.inj h
      exact shapeAt?_eq_file_iff.mpr hfound
    | directory children => cases h
    | link target => cases h

/-- Writing a file puts it into the directory that its path leads to, in the place of nothing or
of a file. -/
theorem exists_put_of_writeFile (hlast : LastPart path name) (hname : IsName name)
    (hlacks : v.LacksLink name) (h : v.writeFile path content = .ok w) :
    ∃ there, v.LeadsTo path there name ∧ v.shapeAt? (there ++ [name]) ≠ some .directory ∧
      w = v.put (there ++ [name]) (.file content) := by
  obtain ⟨place, hlocate, h⟩ := bind_eq_ok_iff.mp h
  obtain ⟨there, hleads, hends⟩ := exists_leadsTo_of_locate hlast hname hlacks hlocate
  refine ⟨there, hleads, ?_⟩
  cases hends with
  | vacant hvacant =>
    rw [hvacant]
    exact ⟨nofun, (Except.ok.inj h).symm⟩
  | @taken node hnode =>
    cases node with
    | directory children => cases h
    | file old =>
      rw [shapeAt?_eq_file_iff.mpr hnode]
      exact ⟨nofun, (Except.ok.inj h).symm⟩
    | link target => exact absurd (shapeAt?_eq_link_iff.mpr hnode) (hlacks there target)

/-- A file leaves all ways as they are if it is put in the place of nothing or of a file. -/
theorem keepsWays_put (hthere : v.shapeAt? there = some .directory)
    (hdirectory : v.shapeAt? (there ++ [name]) ≠ some .directory) (hlacks : v.LacksLink name)
    (content : ByteArray) : v.KeepsWays (v.put (there ++ [name]) (.file content)) := by
  have hput := shapeAt?_put hthere hdirectory (Node.isBare_file content)
  constructor
  · intro location hlocation
    rw [hput, if_neg, hlocation]
    rintro rfl
    exact hdirectory hlocation
  · intro location target hlocation
    rw [hput, if_neg, hlocation]
    rintro rfl
    exact hlacks there target hlocation

section Writing

variable (hlast : LastPart path name) (hname : IsName name) (hlacks : v.LacksLink name)
variable (h : v.writeFile path content = .ok w)
include hlast hname hlacks h

/-- A file that was written can be read. -/
theorem readFile_of_writeFile : w.readFile path = .ok content := by
  obtain ⟨there, hleads, hdirectory, rfl⟩ := exists_put_of_writeFile hlast hname hlacks h
  have hput := shapeAt?_put hleads.directory hdirectory (Node.isBare_file content)
  refine (hleads.of_keepsWays (keepsWays_put hleads.directory hdirectory hlacks content)
    rfl).readFile_eq ?_
  rw [hput, if_pos rfl]
  rfl

/-- Writing a file leaves files of other names as they are. -/
theorem readFile_of_writeFile_of_ne {other otherName : String} {kept : ByteArray}
    (hother : LastPart other otherName) (hotherName : IsName otherName)
    (hotherLacks : v.LacksLink otherName) (hne : otherName ≠ name)
    (hread : v.readFile other = .ok kept) : w.readFile other = .ok kept := by
  obtain ⟨there, hleads, hdirectory, rfl⟩ := exists_put_of_writeFile hlast hname hlacks h
  obtain ⟨place, hto, hfile⟩ := exists_leadsTo_of_readFile hother hotherName hotherLacks hread
  have hput := shapeAt?_put hleads.directory hdirectory (Node.isBare_file content)
  refine (hto.of_keepsWays (keepsWays_put hleads.directory hdirectory hlacks content)
    rfl).readFile_eq ?_
  rw [hput, if_neg, hfile]
  intro heq
  exact hne (List.singleton_inj.mp (List.append_inj' heq rfl).2)

/-- Writing a file makes no links. -/
theorem lacksLink_of_writeFile {other : String} (hother : v.LacksLink other) :
    w.LacksLink other := by
  obtain ⟨there, hleads, hdirectory, rfl⟩ := exists_put_of_writeFile hlast hname hlacks h
  intro location target
  rw [shapeAt?_put hleads.directory hdirectory (Node.isBare_file content)]
  split
  · nofun
  · exact hother location target

end Writing

end Volume

end AppBundle.Files
