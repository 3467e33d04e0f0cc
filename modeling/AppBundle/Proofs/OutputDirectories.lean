import AppBundle.Proofs.PathsBelow
import AppBundle.Proofs.WrittenPackages

/-!
# Output directories

Packages can be written to a directory in which no other directory has the name of one of their
files. Writing one package leaves the room for the others, so all of them are written one after the
other. A directory that is made for the packages is empty, and has room for any of them.
-/

namespace AppBundle

open Files

namespace Files

namespace Volume

section NewDirectory

variable {v w : Volume} {name : String} {children : Listing}
variable (hhere : nodeAt? v.workingDirectory v.root = some (.directory children))
variable (hname : IsFileName name) (hsize : name.utf8ByteSize ≤ maxNameSize)
variable (hvacant : children.lookup name = none)
include hhere hname hsize hvacant

/-- Something can be put under a name that the working directory does not list. -/
theorem create_of_lookup (node : Node) :
    v.create name node = .ok (v.put (v.workingDirectory ++ [name]) node) := by
  have hfollow : v.follow false maxLinks (v.startOf name) [] =
      .ok (.taken v.workingDirectory (.directory children)) := by
    rw [startOf_of_isFileName hname, follow, hhere]
  have hpoint : name ≠ "." := by
    rintro rfl
    exact absurd hname.idle (by decide)
  have hlast : [name].reverse.dropWhile (· = "") = [name] := by simp [hname.ne_empty]
  refine bind_eq_ok_iff.mpr ⟨_, partsOf_of_isFileName hname hsize, ?_⟩
  rw [hlast]
  refine bind_eq_ok_iff.mpr ⟨_, hfollow, ?_⟩
  simp only [hpoint, hname.up, Nat.not_lt.mpr hsize, hvacant, decide_false, Bool.or_false,
    Bool.false_eq_true, Option.isSome_none, if_false]
  rfl

/-- A directory that was made in the working directory is empty. -/
theorem readDirectory_of_create (hcreate : v.create name (.directory []) = .ok w) :
    ∃ below, w.readDirectory name = .ok below ∧ ∀ other, below.lookup other = none := by
  have hw : v.put (v.workingDirectory ++ [name]) (.directory []) = w :=
    Except.ok.inj ((create_of_lookup hhere hname hsize hvacant _).symm.trans hcreate)
  have hwas := shapeAt?_eq_directory_iff.mpr ⟨children, hhere⟩
  have hshape (location : List String) : w.shapeAt? location =
      if location = v.workingDirectory ++ [name] then some .directory
      else v.shapeAt? location := by
    rw [← hw, shapeAt?_put hwas _ Node.isBare_directory]
    · rfl
    · rw [shapeAt?_concat hhere, hvacant]
      exact (Option.some_ne_none _).symm
  have hworking : w.workingDirectory = v.workingDirectory := by rw [← hw]; rfl
  obtain ⟨now, hnow⟩ : ∃ now, nodeAt? w.workingDirectory w.root = some (.directory now) :=
    shapeAt?_eq_directory_iff.mp (by simp [hworking, hshape, hwas])
  obtain ⟨below, hbelow⟩ : ∃ below, nodeAt? (w.workingDirectory ++ [name]) w.root =
      some (.directory below) := shapeAt?_eq_directory_iff.mp (by simp [hworking, hshape])
  have hlookup : now.lookup name = some (.directory below) := by
    rw [← nodeAt?_concat hnow, hbelow]
  refine ⟨below, (readDirectory_of_lookup hnow hname hsize hlookup).2, fun other => ?_⟩
  have hnone : v.shapeAt? (v.workingDirectory ++ [name] ++ [other]) = none := by
    rw [shapeAt?, List.append_assoc, nodeAt?_append hhere, List.singleton_append, nodeAt?, hvacant]
    rfl
  have hempty := shapeAt?_concat hbelow other
  rw [hworking, hshape, hnone] at hempty
  simpa using hempty.symm

end NewDirectory

end Volume

variable {v w : Volume} {path : String}

/-- A path comes first among those of the directories above it. -/
theorem exists_ancestors_eq (path : String) : ∃ above, ancestors path = path :: above := by
  unfold ancestors
  cases path.length with
  | zero => exact ⟨[], rfl⟩
  | succ steps =>
    rw [pathsUpward]
    split
    · exact ⟨[], rfl⟩
    · exact ⟨_, rfl⟩

/-- A directory that can be made is made without those above it. -/
theorem run_createDirectories (hne : path ≠ "") (h : v.create path (.directory []) = .ok w) :
    (createDirectories path : ExceptT FileError (StateM Volume) Unit).run.run v = (.ok (), w) := by
  obtain ⟨above, habove⟩ := exists_ancestors_eq path
  have hcreate : (createDirectory path : ExceptT FileError (StateM Volume) Unit).run.run v =
      (.ok (), w) := by
    have hcommit := run_commit (·.create path (.directory [])) v
    rwa [h] at hcommit
  rw [createDirectories, habove, ensureBelow, if_neg hne, ExceptT.run_tryCatch, StateT.run_bind,
    hcreate]
  rfl

end Files

namespace CommandLine

open Volume

variable {directory : String} {p : Package} {packages : List Package} {archive : ByteArray}
variable {start : List Warning × Volume}

/-- There is room for the file of a package in a directory. -/
structure HasRoom (v : Volume) (directory : String) (p : Package) : Prop extends Writable v p where
  leads : ∃ there, v.LeadsTo (p.path directory) there p.fileName ∧
    v.shapeAt? (there ++ [p.fileName]) ≠ some .directory

/-- A directory has room for a package if no other directory in it has the name of the file. -/
theorem hasRoom_of_readDirectory {v : Volume} {children : Listing}
    (hlist : v.readDirectory directory = .ok children) (hp : Writable v p)
    (hname : IsFileName p.fileName) (hfits : FitsAt directory p.fileName)
    (hfree : ∀ below, children.lookup p.fileName ≠ some (.directory below)) :
    HasRoom v directory p := by
  obtain ⟨there, hthere, hleads⟩ :=
    exists_leadsTo_joinPath (readDirectory_eq_ok_iff.mp hlist) hname hfits
  refine ⟨hp, there, hleads, fun hshape => ?_⟩
  obtain ⟨below, hbelow⟩ := shapeAt?_eq_directory_iff.mp hshape
  rw [nodeAt?_concat hthere] at hbelow
  exact hfree below hbelow

/-- A package is written where there is room for it. The room for other packages stays. -/
theorem exists_runs_writePackage (hroom : HasRoom start.2 directory p)
    (harchive : Archive.write p.entries = .ok archive) :
    ∃ finish, Runs (writePackage directory p) start (p.path directory) finish ∧
      ∀ q, HasRoom start.2 directory q → HasRoom finish.2 directory q := by
  obtain ⟨there, hleads, hdirectory⟩ := hroom.leads
  have hruns : Runs (writePackage directory p) start (p.path directory)
      (start.1, start.2.put (there ++ [p.fileName]) (.file archive)) :=
    runs_writePackage_iff.mpr
      ⟨archive, harchive, hleads.writeFile_eq hdirectory hroom.lacks archive, rfl, rfl⟩
  refine ⟨_, hruns, fun q hq => ⟨hroom.toWritable.of_runs hruns hq.toWritable, ?_⟩⟩
  obtain ⟨place, hto, hfree⟩ := hq.leads
  have hways := keepsWays_put hleads.directory hdirectory hroom.lacks archive
  refine ⟨place, hto.of_keepsWays hways rfl, ?_⟩
  rw [shapeAt?_put hleads.directory hdirectory (Node.isBare_file archive)]
  split
  · exact fun h => by cases h
  · exact hfree

/-- Packages are written if there is room for all of them and each of them can be archived. -/
theorem exists_runs_mapM (h : ∀ p ∈ packages, HasRoom start.2 directory p ∧
      ∃ archive, Archive.write p.entries = .ok archive) :
    ∃ written finish, Runs (packages.mapM (writePackage directory)) start written finish := by
  induction packages generalizing start with
  | nil => exact ⟨[], start, runs_pure_iff.mpr ⟨rfl, rfl⟩⟩
  | cons p rest ih =>
    obtain ⟨⟨hroom, archive, harchive⟩, hrest⟩ := List.forall_mem_cons.mp h
    obtain ⟨middle, hfirst, hkept⟩ := exists_runs_writePackage hroom harchive
    obtain ⟨written, finish, hruns⟩ := ih fun q hq => (hrest q hq).imp_left (hkept q)
    rw [List.mapM_cons]
    exact ⟨_, finish, runs_bind_iff.mpr ⟨_, middle, hfirst,
      runs_bind_iff.mpr ⟨written, finish, hruns, runs_pure_iff.mpr ⟨rfl, rfl⟩⟩⟩⟩

/-- Packages are written to a directory that is made for them in the working directory. -/
theorem exists_runs_writePackages {v : Volume} {children : Listing}
    (hhere : nodeAt? v.workingDirectory v.root = some (.directory children))
    (hdirectory : IsFileName directory) (hsize : directory.utf8ByteSize ≤ maxNameSize)
    (hvacant : children.lookup directory = none)
    (hpackages : ∀ p ∈ packages, Writable v p ∧ IsFileName p.fileName ∧
      p.fileName.utf8ByteSize ≤ maxNameSize ∧ ∃ archive, Archive.write p.entries = .ok archive)
    (warnings : List Warning) :
    ∃ written finish,
      Runs (writePackages (some directory) packages) (warnings, v) written finish := by
  obtain ⟨w, hcreate⟩ : ∃ w, v.create directory (.directory []) = .ok w :=
    ⟨_, create_of_lookup hhere hdirectory hsize hvacant _⟩
  have hmade := run_createDirectories hdirectory.ne_empty hcreate
  obtain ⟨below, hlist, hempty⟩ :=
    readDirectory_of_create hhere hdirectory hsize hvacant hcreate
  have hready (p : Package) (hp : p ∈ packages) : HasRoom w directory p ∧
      ∃ archive, Archive.write p.entries = .ok archive := by
    obtain ⟨hwritable, hname, hnamesize, harchive⟩ := hpackages p hp
    have hjoined := size_joinPath_le hdirectory.ne_empty hname.slash
    have hfits : FitsAt directory p.fileName := by
      refine ⟨?_, hnamesize⟩
      unfold maxNameSize at hsize hnamesize
      unfold maxPathSize
      omega
    refine ⟨hasRoom_of_readDirectory hlist ⟨hwritable.plain, hwritable.lacks.of_create hcreate⟩
      hname hfits fun below hbelow => ?_, harchive⟩
    rw [hempty] at hbelow
    cases hbelow
  obtain ⟨written, finish, hruns⟩ : ∃ written finish,
      Runs (packages.mapM (writePackage directory)) (warnings, w) written finish :=
    exists_runs_mapM hready
  exact ⟨written, finish, runs_bind_iff.mpr
    ⟨(), (warnings, w), runs_attempt_iff.mpr ⟨hmade, rfl⟩, hruns⟩⟩

end CommandLine

end AppBundle
