import AppBundle.CommandLine.Run
import AppBundle.Proofs.FirstOccurrences
import AppBundle.Proofs.PathResolution

/-!
# Written packages

Packages with different identifiers are written to different files, and in the end each of these
files holds the archive of its package. No name of such a file may be that of a link, since
writing would follow it.
-/

namespace AppBundle

open Files

namespace Files

section Creating

variable {v w : Volume} {path name : String}

/-- Making a directory makes no links. -/
theorem Volume.LacksLink.of_create (h : v.create path (.directory []) = .ok w)
    (hlacks : v.LacksLink name) : w.LacksLink name := by
  obtain ⟨parts, _, h⟩ := bind_eq_ok_iff.mp h
  split at h
  · cases h
  rename_i last above _
  obtain ⟨place, hfollow, h⟩ := bind_eq_ok_iff.mp h
  split at h
  · rename_i location children
    split at h
    · cases h
    split at h
    · cases h
    split at h
    · cases h
    rename_i hnone
    have hplace := nodeAt?_of_follow hfollow
    have hvacant : v.shapeAt? (location ++ [last]) ≠ some .directory := by
      rw [shapeAt?_concat hplace, Option.not_isSome_iff_eq_none.mp hnone]
      exact (Option.some_ne_none _).symm
    obtain rfl : v.put (location ++ [last]) (.directory []) = w := Except.ok.inj h
    intro other target
    rw [shapeAt?_put (shapeAt?_eq_directory_iff.mpr ⟨children, hplace⟩) hvacant
      Node.isBare_directory]
    split
    · simp
    · exact hlacks other target
  · cases h
  · cases h

/-- A computation on files keeps a property of the volume, whether it fails or not. -/
def Keeps {α : Type} (P : Volume → Prop) (work : ExceptT FileError (StateM Volume) α) : Prop :=
  ∀ v, P v → P (work.run.run v).2

variable {P : Volume → Prop} {α β : Type}

/-! The rules for what a computation keeps follow the way computations are put together. -/

theorem keeps_pure (a : α) : Keeps P (pure a) := fun _ hv => hv

theorem keeps_throw (cause : FileError) : Keeps P (throw cause : ExceptT _ _ α) := fun _ hv => hv

theorem Keeps.bind {work : ExceptT FileError (StateM Volume) α}
    {next : α → ExceptT FileError (StateM Volume) β} (hwork : Keeps P work)
    (hnext : ∀ a, Keeps P (next a)) : Keeps P (work >>= next) := by
  intro v hv
  have hfirst := hwork v hv
  rcases hrun : work.run.run v with ⟨result, w⟩
  rw [hrun] at hfirst
  cases result with
  | ok a =>
    have hbind : (work >>= next).run.run v = (next a).run.run w := by
      rw [ExceptT.run_bind, StateT.run_bind, hrun]
      rfl
    rw [hbind]
    exact hnext a w hfirst
  | error cause =>
    have hbind : (work >>= next).run.run v = (.error cause, w) := by
      rw [ExceptT.run_bind, StateT.run_bind, hrun]
      rfl
    rwa [hbind]

theorem Keeps.tryCatch {work : ExceptT FileError (StateM Volume) α}
    {handle : FileError → ExceptT FileError (StateM Volume) α} (hwork : Keeps P work)
    (hhandle : ∀ cause, Keeps P (handle cause)) : Keeps P (tryCatch work handle) := by
  intro v hv
  have hfirst := hwork v hv
  rcases hrun : work.run.run v with ⟨result, w⟩
  rw [hrun] at hfirst
  cases result with
  | ok a =>
    have hcatch : (MonadExcept.tryCatch work handle).run.run v = (.ok a, w) := by
      rw [ExceptT.run_tryCatch, StateT.run_bind, hrun]
      rfl
    rwa [hcatch]
  | error cause =>
    have hcatch : (MonadExcept.tryCatch work handle).run.run v = (handle cause).run.run w := by
      rw [ExceptT.run_tryCatch, StateT.run_bind, hrun]
      rfl
    rw [hcatch]
    exact hhandle cause w hfirst

theorem keeps_isDirectory (path : String) :
    Keeps P (isDirectory path : StateM Volume Bool) := fun _ hv => hv

/-- A change of the volume takes place unless it fails. -/
theorem run_commit (change : Volume → Except FileError Volume) (v : Volume) :
    (Volume.commit change).run.run v =
      match change v with
      | .ok changed => (.ok (), changed)
      | .error cause => (.error cause, v) := rfl

theorem run_writeFile_eq_ok_iff {content : ByteArray} {a : Unit} :
    (writeFile path content : ExceptT FileError (StateM Volume) Unit).run.run v = (.ok a, w) ↔
      v.writeFile path content = .ok w := by
  have hrun : (writeFile path content : ExceptT FileError (StateM Volume) Unit).run.run v =
      (Volume.commit (·.writeFile path content)).run.run v := rfl
  rw [hrun, run_commit]
  cases v.writeFile path content with
  | ok changed =>
    rw [Except.ok.injEq]
    exact ⟨fun h => congrArg Prod.snd h, fun h => by rw [h]⟩
  | error cause => exact ⟨nofun, nofun⟩

theorem keeps_commit {change : Volume → Except FileError Volume}
    (hchange : ∀ v w, change v = .ok w → P v → P w) : Keeps P (Volume.commit change) := by
  intro v hv
  rw [run_commit]
  cases hresult : change v with
  | ok w => exact hchange v w hresult hv
  | error cause => exact hv

theorem keeps_createDirectory (path : String) :
    Keeps (·.LacksLink name) (createDirectory path : ExceptT FileError (StateM Volume) Unit) :=
  keeps_commit fun _ _ h hlacks => hlacks.of_create h

theorem keeps_ensureDirectory (path : String) :
    Keeps (·.LacksLink name) (ensureDirectory path : ExceptT FileError (StateM Volume) Unit) := by
  refine (keeps_createDirectory path).tryCatch fun cause => ?_
  refine (keeps_isDirectory path).bind fun found => ?_
  split
  · exact keeps_pure _
  · exact keeps_throw _

/-- Making a directory and those above it makes no links. -/
theorem keeps_ensureBelow (paths : List String) :
    Keeps (·.LacksLink name) (ensureBelow paths : ExceptT FileError (StateM Volume) Unit) := by
  induction paths with
  | nil => exact keeps_throw _
  | cons path above ih =>
    rw [ensureBelow]
    split
    · exact keeps_pure _
    · refine (keeps_createDirectory path).tryCatch fun cause => ?_
      split
      · exact ih.bind fun _ => keeps_ensureDirectory path
      · refine (keeps_isDirectory path).bind fun found => ?_
        split
        · exact keeps_pure _
        · exact keeps_throw _

end Creating

end Files

namespace CommandLine

/-- An action succeeds on a volume; the state before it and the state after it also have the
warnings so far. -/
def Runs {α : Type} (action : Action (StateM Volume) α) (start : List Warning × Volume) (a : α)
    (finish : List Warning × Volume) : Prop :=
  (action.run.run start.1).run start.2 = ((.ok a, finish.1), finish.2)

section Runs

variable {α β : Type} {start finish : List Warning × Volume}

theorem runs_pure_iff {a b : α} :
    Runs (pure a) start b finish ↔ a = b ∧ start = finish := by
  constructor
  · intro h
    obtain ⟨hresult, hvolume⟩ := Prod.mk.inj h
    obtain ⟨ha, hwarnings⟩ := Prod.mk.inj hresult
    exact ⟨Except.ok.inj ha, Prod.ext hwarnings hvolume⟩
  · rintro ⟨rfl, rfl⟩
    rfl

/-- An action succeeds if its first step does, and the rest does where that ended. -/
theorem runs_bind_iff {action : Action (StateM Volume) α} {next : α → Action (StateM Volume) β}
    {b : β} :
    Runs (action >>= next) start b finish ↔
      ∃ a middle, Runs action start a middle ∧ Runs (next a) middle b finish := by
  rcases hrun : (action.run.run start.1).run start.2 with ⟨⟨result, warnings⟩, v⟩
  cases result with
  | ok a =>
    have hbind : Runs (action >>= next) start b finish ↔ Runs (next a) (warnings, v) b finish := by
      rw [Runs, ExceptT.run_bind, StateT.run_bind, StateT.run_bind, hrun]
      rfl
    rw [hbind]
    constructor
    · exact fun h => ⟨a, (warnings, v), hrun, h⟩
    · rintro ⟨a', middle, h, hnext⟩
      rw [Runs, hrun] at h
      cases h
      exact hnext
  | error failure =>
    have hbind : ((action >>= next).run.run start.1).run start.2 =
        ((.error failure, warnings), v) := by
      rw [ExceptT.run_bind, StateT.run_bind, StateT.run_bind, hrun]
      rfl
    constructor
    · intro h
      rw [Runs, hbind] at h
      cases h
    · rintro ⟨a, middle, h, _⟩
      rw [Runs, hrun] at h
      cases h

theorem runs_check_iff {ε : Type} {failure : ε → Failure} {result : Except ε α} {a : α} :
    Runs (check failure result) start a finish ↔ result = .ok a ∧ start = finish := by
  cases result with
  | ok b =>
    rw [Except.ok.injEq]
    exact runs_pure_iff
  | error e =>
    constructor
    · nofun
    · rintro ⟨h, _⟩
      cases h

theorem runs_attempt_iff {ε : Type} {failure : ε → Failure}
    {work : ExceptT ε (StateM Volume) α} {a : α} :
    Runs (attempt failure work) start a finish ↔
      work.run.run start.2 = (.ok a, finish.2) ∧ start.1 = finish.1 := by
  rcases hrun : work.run.run start.2 with ⟨result, v⟩
  have hattempt : ((attempt failure work).run.run start.1).run start.2 =
      ((result.mapError failure, start.1), v) := by
    have hlift : ((attempt failure work).run.run start.1).run start.2 =
        (((work.run.run start.2).1.mapError failure, start.1), (work.run.run start.2).2) := rfl
    rw [hlift, hrun]
  obtain ⟨warnings, w⟩ := finish
  rw [Runs, hattempt]
  cases result with
  | ok b =>
    constructor
    · intro h
      cases h
      exact ⟨rfl, rfl⟩
    · rintro ⟨h, hwarnings⟩
      cases h
      rw [hwarnings]
      rfl
  | error e =>
    constructor
    · intro h
      cases h
    · rintro ⟨h, _⟩
      cases h

end Runs

end CommandLine

/-- The name of the file that a package is written to. -/
def Package.fileName (p : Package) : String := p.id ++ ".tar"

/-- The path of the file of a package in a directory. -/
def Package.path (directory : String) (p : Package) : String := joinPath directory p.fileName

namespace Package

variable {p q : Package}

/-- The name of the file of a package is looked up in a directory. -/
theorem isName_fileName (p : Package) : IsName p.fileName := by
  have hne {part : String} (hpart : part.toList.length < 4) : p.fileName ≠ part := by
    rintro rfl
    rw [fileName, String.toList_append, List.length_append] at hpart
    exact absurd hpart (Nat.not_lt.mpr (Nat.le_add_left 4 _))
  constructor
  · rw [isIdlePart, Bool.or_eq_false_iff]
    exact ⟨decide_eq_false (hne (by decide)), decide_eq_false (hne (by decide))⟩
  · exact hne (by decide)

theorem isFileName_fileName (hslash : '/' ∉ p.id.toList) (hzero : '\x00' ∉ p.id.toList) :
    IsFileName p.fileName := by
  have hchar {c : Char} (hc : c ∉ p.id.toList) (hend : c ∉ ".tar".toList) :
      c ∉ p.fileName.toList := by
    rw [fileName, String.toList_append, List.mem_append]
    exact not_or.mpr ⟨hc, hend⟩
  exact ⟨p.isName_fileName, hchar hslash (by decide), hchar hzero (by decide)⟩

/-- The path of the file of a package ends with its name. -/
theorem lastPart_path (h : '/' ∉ p.id.toList) (directory : String) :
    LastPart (p.path directory) p.fileName := by
  refine lastPart_joinPath ?_ directory
  rw [fileName, String.toList_append, List.mem_append]
  rintro (hmem | hmem)
  · exact h hmem
  · exact absurd hmem (by decide)

theorem fileName_eq_iff : p.fileName = q.fileName ↔ p.id = q.id := String.append_left_inj _

/-- Packages with the same identifier have the same path. -/
theorem path_eq_of_id {directory : String} (h : p.id = q.id) :
    p.path directory = q.path directory := by
  rw [path, path, fileName, fileName, h]

end Package

namespace CommandLine

variable {directory : String} {packages : List Package} {written : List String}
variable {start finish : List Warning × Volume}

/-- A package is written by making its archive and storing it at its path. -/
theorem runs_writePackage_iff {p : Package} {path : String} :
    Runs (writePackage directory p) start path finish ↔
      ∃ archive, Archive.write p.entries = .ok archive ∧
        start.2.writeFile (p.path directory) archive = .ok finish.2 ∧ start.1 = finish.1 ∧
        path = p.path directory := by
  unfold writePackage
  simp only [runs_bind_iff, runs_check_iff, runs_attempt_iff, run_writeFile_eq_ok_iff,
    runs_pure_iff]
  constructor
  · rintro ⟨archive, _, ⟨harchive, rfl⟩, _, middle, ⟨hwrite, hwarnings⟩, rfl, rfl⟩
    exact ⟨archive, harchive, hwrite, hwarnings, rfl⟩
  · rintro ⟨archive, harchive, hwrite, hwarnings, rfl⟩
    exact ⟨archive, _, ⟨harchive, rfl⟩, (), _, ⟨hwrite, hwarnings⟩, rfl, rfl⟩

/-- A package can be written to a file of its own: its identifier holds no slash, and no link has
the name of its file. -/
structure Writable (v : Volume) (p : Package) : Prop where
  plain : '/' ∉ p.id.toList
  lacks : v.LacksLink p.fileName

/-- Writing a package leaves other packages as writable as they were. -/
theorem Writable.of_runs {p q : Package} {path : String}
    (hp : Writable start.2 p) (h : Runs (writePackage directory p) start path finish)
    (hq : Writable start.2 q) : Writable finish.2 q := by
  obtain ⟨archive, _, hwrite, _⟩ := runs_writePackage_iff.mp h
  exact ⟨hq.plain, Volume.lacksLink_of_writeFile (p.lastPart_path hp.plain directory)
    p.isName_fileName hp.lacks hwrite hq.lacks⟩

/-- Writing packages leaves a file as it is if no package with another archive has its name. -/
theorem readFile_of_runs_mapM (hpackages : ∀ p ∈ packages, Writable start.2 p)
    (h : Runs (packages.mapM (writePackage directory)) start written finish) {q : Package}
    (hq : Writable start.2 q) {content : ByteArray}
    (hsame : ∀ p ∈ packages, q.id = p.id → Archive.write p.entries = .ok content)
    (hread : start.2.readFile (q.path directory) = .ok content) :
    finish.2.readFile (q.path directory) = .ok content := by
  induction packages generalizing start written with
  | nil =>
    obtain ⟨_, rfl⟩ := runs_pure_iff.mp h
    exact hread
  | cons p rest ih =>
    rw [List.mapM_cons, runs_bind_iff] at h
    obtain ⟨path, middle, hfirst, h⟩ := h
    obtain ⟨paths, last, hrest, hpure⟩ := runs_bind_iff.mp h
    obtain ⟨_, rfl⟩ := runs_pure_iff.mp hpure
    have hp := hpackages p List.mem_cons_self
    obtain ⟨archive, harchive, hwrite, _⟩ := runs_writePackage_iff.mp hfirst
    refine ih (fun r hr => ?_) hrest (hp.of_runs hfirst hq)
      (fun r hr => hsame r (List.mem_cons_of_mem _ hr)) ?_
    · exact hp.of_runs hfirst (hpackages r (List.mem_cons_of_mem _ hr))
    · by_cases hid : q.id = p.id
      · rw [Except.ok.inj (harchive.symm.trans (hsame p List.mem_cons_self hid))] at hwrite
        rw [Package.path_eq_of_id hid]
        exact Volume.readFile_of_writeFile (p.lastPart_path hp.plain directory) p.isName_fileName
          hp.lacks hwrite
      · exact Volume.readFile_of_writeFile_of_ne (p.lastPart_path hp.plain directory)
          p.isName_fileName hp.lacks hwrite (q.lastPart_path hq.plain directory) q.isName_fileName
          hq.lacks (fun heq => hid (Package.fileName_eq_iff.mp heq)) hread

/-- Packages are written to their paths. -/
theorem written_of_runs_mapM
    (h : Runs (packages.mapM (writePackage directory)) start written finish) :
    written = packages.map (Package.path directory) := by
  induction packages generalizing start written with
  | nil =>
    obtain ⟨rfl, _⟩ := runs_pure_iff.mp h
    rfl
  | cons p rest ih =>
    rw [List.mapM_cons, runs_bind_iff] at h
    obtain ⟨path, middle, hfirst, h⟩ := h
    obtain ⟨paths, last, hrest, hpure⟩ := runs_bind_iff.mp h
    obtain ⟨rfl, rfl⟩ := runs_pure_iff.mp hpure
    obtain ⟨_, _, _, _, rfl⟩ := runs_writePackage_iff.mp hfirst
    rw [List.map_cons, ih hrest]

/-- Packages are all stored if those with the same identifier have the same entries: at the end the
file of each of them holds its archive. -/
theorem exists_archive_of_runs_mapM (hpackages : ∀ p ∈ packages, Writable start.2 p)
    (hids : ∀ p ∈ packages, ∀ q ∈ packages, p.id = q.id → p.entries = q.entries)
    (h : Runs (packages.mapM (writePackage directory)) start written finish) :
    ∀ p ∈ packages, ∃ archive, Archive.write p.entries = .ok archive ∧
      finish.2.readFile (p.path directory) = .ok archive := by
  induction packages generalizing start written with
  | nil => exact fun p hp => absurd hp List.not_mem_nil
  | cons p rest ih =>
    rw [List.mapM_cons, runs_bind_iff] at h
    obtain ⟨path, middle, hfirst, h⟩ := h
    obtain ⟨paths, last, hrest, hpure⟩ := runs_bind_iff.mp h
    obtain ⟨_, rfl⟩ := runs_pure_iff.mp hpure
    have hp := hpackages p List.mem_cons_self
    obtain ⟨archive, harchive, hwrite, _⟩ := runs_writePackage_iff.mp hfirst
    have hmiddle : ∀ r ∈ rest, Writable middle.2 r := fun r hr =>
      hp.of_runs hfirst (hpackages r (List.mem_cons_of_mem _ hr))
    have hrestIds : ∀ r ∈ rest, ∀ r' ∈ rest, r.id = r'.id → r.entries = r'.entries :=
      fun r hr r' hr' => hids r (List.mem_cons_of_mem _ hr) r' (List.mem_cons_of_mem _ hr')
    refine List.forall_mem_cons.mpr ⟨⟨archive, harchive, ?_⟩, ih hmiddle hrestIds hrest⟩
    refine readFile_of_runs_mapM hmiddle hrest (hp.of_runs hfirst hp) (fun r hr heq => ?_) ?_
    · rw [← hids p List.mem_cons_self r (List.mem_cons_of_mem _ hr) heq]
      exact harchive
    · exact Volume.readFile_of_writeFile (p.lastPart_path hp.plain directory) p.isName_fileName
        hp.lacks hwrite

/-- Making the output directory makes no links; then the packages are written. -/
theorem exists_of_runs_writePackages
    (h : Runs (writePackages (some directory) packages) start written finish) :
    ∃ middle, (∀ name, start.2.LacksLink name → middle.2.LacksLink name) ∧
      Runs (packages.mapM (writePackage directory)) middle written finish := by
  obtain ⟨_, middle, hcreate, h⟩ := runs_bind_iff.mp h
  refine ⟨middle, fun name hlacks => ?_, h⟩
  have hkeeps := keeps_ensureBelow (ancestors directory) start.2 hlacks
  rwa [← createDirectories, (runs_attempt_iff.mp hcreate).1] at hkeeps

/-- Packages are stored apart: writing them gives one path for each package, and all paths are
different. If no link has the name of one of the files, each file holds the archive of its package
in the end. -/
structure StoredApart (packages : List Package) (directory : String)
    (start : List Warning × Volume) (written : List String) (finish : List Warning × Volume) :
    Prop where
  paths : written = packages.map (Package.path directory)
  nodup : written.Nodup
  archives : (∀ p ∈ packages, start.2.LacksLink p.fileName) → ∀ p ∈ packages, ∃ archive,
    Archive.write p.entries = .ok archive ∧ finish.2.readFile (p.path directory) = .ok archive

/-- The paths of two packages are the same if their identifiers are, as long as these hold no
slash. -/
theorem path_eq_iff {p q : Package} (hp : '/' ∉ p.id.toList) (hq : '/' ∉ q.id.toList) :
    p.path directory = q.path directory ↔ p.id = q.id := by
  refine ⟨fun heq => ?_, Package.path_eq_of_id⟩
  obtain ⟨before, hbefore⟩ := p.lastPart_path hp directory
  obtain ⟨before', hbefore'⟩ := q.lastPart_path hq directory
  rw [heq, hbefore'] at hbefore
  exact (Package.fileName_eq_iff.mp (List.singleton_inj.mp
    (List.append_inj' hbefore rfl).2)).symm

/-- Packages with different identifiers are stored apart, as long as no identifier holds a
slash. -/
theorem storedApart_of_runs (hids : (packages.map Package.id).Nodup)
    (hplain : ∀ p ∈ packages, '/' ∉ p.id.toList)
    (h : Runs (writePackages (some directory) packages) start written finish) :
    StoredApart packages directory start written finish := by
  obtain ⟨middle, hkept, hruns⟩ := exists_of_runs_writePackages h
  have hpaths := written_of_runs_mapM hruns
  refine ⟨hpaths, ?_, fun hlacks => exists_archive_of_runs_mapM (fun p hp => ?_) ?_ hruns⟩
  · rw [hpaths]
    exact nodup_map_of_imp hids fun p hp q hq heq =>
      (path_eq_iff (hplain p hp) (hplain q hq)).mp heq
  · exact ⟨hplain p hp, hkept _ (hlacks p hp)⟩
  · intro p hp q hq heq
    rw [List.inj_on_of_nodup_map hids hp hq heq]

end CommandLine

end AppBundle
