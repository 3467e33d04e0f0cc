import AppBundle.Bundle
import AppBundle.Proofs.Outcomes
import AppBundle.Proofs.PathResolution

/-!
# Loaded bundles

Loading a bundle only reads files, so what is loaded is determined by the volume and nothing on it
changes. This file says what a bundle consists of that was loaded: a checked manifest, a module
for each declared directory, and the metadata files collected by their paths.
-/

namespace AppBundle

open Files

section Reading

variable {ε δ α β : Type}

/-- A computation reads files: its outcome is determined by the volume, which stays as it is. -/
def ReadsAs (work : ExceptT ε (StateM Volume) α) (outcome : Volume → Except ε α) : Prop :=
  ∀ v, work.run.run v = (outcome v, v)

variable {work : ExceptT ε (StateM Volume) α} {outcome : Volume → Except ε α}

/-! The rules for reading follow the way computations are put together. -/

theorem readsAs_pure (a : α) : ReadsAs (pure a : ExceptT ε (StateM Volume) α) fun _ => .ok a :=
  fun _ => rfl

theorem readsAs_throw (e : ε) : ReadsAs (throw e : ExceptT ε (StateM Volume) α) fun _ => .error e :=
  fun _ => rfl

theorem readsAs_lift (x : Except ε α) :
    ReadsAs (liftM x : ExceptT ε (StateM Volume) α) fun _ => x := fun _ => rfl

theorem ReadsAs.bind {next : α → ExceptT ε (StateM Volume) β} {rest : α → Volume → Except ε β}
    (hwork : ReadsAs work outcome) (hnext : ∀ a, ReadsAs (next a) (rest a)) :
    ReadsAs (work >>= next) fun v => outcome v >>= fun a => rest a v := by
  intro v
  rw [ExceptT.run_bind, StateT.run_bind, hwork v]
  dsimp only
  cases outcome v with
  | ok a => exact hnext a v
  | error e => rfl

theorem ReadsAs.ite {other : ExceptT ε (StateM Volume) α} {otherOutcome : Volume → Except ε α}
    (condition : Bool) (hwork : ReadsAs work outcome) (hother : ReadsAs other otherOutcome) :
    ReadsAs (if condition then work else other) fun v =>
      if condition then outcome v else otherOutcome v := by
  cases condition with
  | true => exact hwork
  | false => exact hother

theorem ReadsAs.adapt (hwork : ReadsAs work outcome) (f : ε → δ) :
    ReadsAs (work.adapt f) fun v => (outcome v).mapError f := by
  intro v
  have hrun : (work.adapt f).run.run v =
      ((work.run.run v).1.mapError f, (work.run.run v).2) := rfl
  rw [hrun, hwork v]

theorem ReadsAs.mapM {next : α → ExceptT ε (StateM Volume) β} {rest : α → Volume → Except ε β}
    (hnext : ∀ a, ReadsAs (next a) (rest a)) (as : List α) :
    ReadsAs (as.mapM next) fun v => as.mapM (rest · v) := by
  induction as with
  | nil => exact readsAs_pure []
  | cons a as ih =>
    simp only [List.mapM_cons]
    exact (hnext a).bind fun b => ih.bind fun bs => readsAs_pure (b :: bs)

theorem readsAs_readFile (path : String) :
    ReadsAs (readFile path : ExceptT FileError (StateM Volume) ByteArray) (·.readFile path) :=
  fun _ => rfl

theorem readsAs_listNames (path : String) :
    ReadsAs (listNames path : ExceptT FileError (StateM Volume) (List (String × NodeKind)))
      (·.listNames path) := fun _ => rfl

theorem readsAs_isDirectory (path : String) :
    ReadsAs (liftM (isDirectory path : StateM Volume Bool) : ExceptT ε (StateM Volume) Bool)
      fun v => .ok (v.isDirectory path) := fun _ => rfl

end Reading

namespace Files.Volume

/-- What loading reads from a volume: the checked manifest in a file. -/
def readSpec (v : Volume) (path : String) : Except ManifestError BundleSpec := do
  let text ← (v.readFile path >>= decodeText).mapError .file
  let manifest ← Manifest.parse text
  manifest.normalize

/-- The files that are found below a directory. -/
def collectFiles (v : Volume) : (levels : Nat) → (names : List String) → (path : String) →
    Except FileError (List FoundFile)
  | 0, _, _ => .error .nameTooLong
  | levels + 1, names, path => do
    let found ← (← v.listNames path).mapM (foundAt (v.collectFiles levels) names path)
    return found.flatten

/-- A file that was found, with its content. -/
def readFound (v : Volume) (file : FoundFile) : Except FileError Entry := do
  return { path := file.relative, content := ← v.readFile file.path }

/-- The files below a directory. -/
def readEntries (v : Volume) (path : String) : Except FileError (List Entry) := do
  let found ← v.collectFiles (maxPathSize + 1) [] path
  (found.mergeSort FoundFile.before).mapM v.readFound

/-- The module in a directory. -/
def readModule (v : Volume) (start : String) (source : ModuleSource) :
    Except ManifestError AppModule :=
  let path := joinPath start source.path
  if v.isDirectory path then do
    let entries ← (v.readEntries path).mapError .file
    return { name := source.name, entries, fused := source.fused }
  else .error (.missingDirectory path)

/-- A metadata file. -/
def readMetadata (v : Volume) (start : String) (file : MetadataSource) :
    Except ManifestError (String × ByteArray) := do
  let content ← (v.readFile (joinPath start file.source)).mapError .file
  return (file.path, content)

/-- The bundle of a manifest. -/
def readBundle (v : Volume) (path : String) : Except ManifestError Bundle := do
  let spec ← v.readSpec path
  let modules ← spec.modules.mapM (v.readModule (manifestDirectory path))
  let metadata ← spec.metadata.mapM (v.readMetadata (manifestDirectory path))
  return { spec, modules, metadata := .ofList metadata }

end Files.Volume

theorem readsAs_readSpec (path : String) :
    ReadsAs (readSpec path : ExceptT ManifestError (StateM Volume) BundleSpec) (·.readSpec path) :=
  (((readsAs_readFile path).bind fun content => readsAs_lift (decodeText content)).adapt _).bind
    fun text => (readsAs_lift (Manifest.parse text)).bind fun manifest =>
      readsAs_lift manifest.normalize

theorem readsAs_foundAt
    {below : List String → String → ExceptT FileError (StateM Volume) (List FoundFile)}
    {belowOutcome : Volume → List String → String → Except FileError (List FoundFile)}
    (hbelow : ∀ names path, ReadsAs (below names path) (belowOutcome · names path))
    (names : List String) (path : String) (child : String × NodeKind) :
    ReadsAs (foundAt below names path child) fun v =>
      foundAt (belowOutcome v) names path child := by
  obtain ⟨name, kind⟩ := child
  cases kind with
  | directory => exact hbelow (names ++ [name]) (joinPath path name)
  | file => exact readsAs_pure _
  | other => exact readsAs_pure _

theorem readsAs_collectFiles (levels : Nat) (names : List String) (path : String) :
    ReadsAs (collectFiles levels names path : ExceptT FileError (StateM Volume) (List FoundFile))
      (·.collectFiles levels names path) := by
  induction levels generalizing names path with
  | zero => exact readsAs_throw _
  | succ levels ih =>
    exact (readsAs_listNames path).bind fun children =>
      (ReadsAs.mapM (readsAs_foundAt ih names path) children).bind fun found =>
        readsAs_pure found.flatten

theorem readsAs_readFound (file : FoundFile) :
    ReadsAs (readFound file : ExceptT FileError (StateM Volume) Entry) (·.readFound file) :=
  (readsAs_readFile file.path).bind fun content => readsAs_pure (Entry.mk file.relative content)

/-- The files below a directory are found and then read, and nothing changes. -/
theorem readsAs_readEntries (path : String) :
    ReadsAs (readEntries path : ExceptT FileError (StateM Volume) (List Entry))
      (·.readEntries path) :=
  (readsAs_collectFiles _ [] path).bind fun found =>
    ReadsAs.mapM readsAs_readFound (found.mergeSort FoundFile.before)

theorem readsAs_loadModule (start : String) (source : ModuleSource) :
    ReadsAs (loadModule start source : ExceptT ManifestError (StateM Volume) AppModule)
      (·.readModule start source) :=
  (readsAs_isDirectory (joinPath start source.path)).bind fun found =>
    .ite found
      (((readsAs_readEntries _).adapt _).bind fun entries =>
        readsAs_pure (AppModule.mk source.name entries source.fused))
      (readsAs_throw _)

theorem readsAs_loadMetadata (start : String) (file : MetadataSource) :
    ReadsAs (loadMetadata start file : ExceptT ManifestError (StateM Volume) (String × ByteArray))
      (·.readMetadata start file) :=
  ((readsAs_readFile _).adapt _).bind fun content => readsAs_pure (file.path, content)

/-- Loading a bundle only reads files. -/
theorem readsAs_loadBundle (path : String) :
    ReadsAs (loadBundle path : ExceptT ManifestError (StateM Volume) Bundle) (·.readBundle path) :=
  (readsAs_readSpec path).bind fun spec =>
    (ReadsAs.mapM (readsAs_loadModule _) spec.modules).bind fun modules =>
      (ReadsAs.mapM (readsAs_loadMetadata _) spec.metadata).bind fun metadata =>
        readsAs_pure (Bundle.mk spec modules (.ofList metadata))

/-- A bundle is loaded from its manifest in a volume. -/
def Loads (v : Volume) (path : String) (b : Bundle) : Prop :=
  ∃ w, (loadBundle path : ExceptT ManifestError (StateM Volume) Bundle).run.run v = (.ok b, w)

/-- What a loaded bundle consists of. -/
structure Loaded (v : Volume) (path : String) (manifest : Manifest)
    (files : List (String × ByteArray)) (b : Bundle) : Prop where
  /-- The manifest is read from its file. -/
  parsed : ∃ content text, v.readFile path = .ok content ∧ decodeText content = .ok text ∧
    Manifest.parse text = .ok manifest
  /-- It is checked. -/
  checked : manifest.normalize = .ok b.spec
  /-- Each module has the files below its directory. -/
  modules : List.Forall₂
    (fun source m => v.isDirectory (joinPath (manifestDirectory path) source.path) ∧
      ∃ entries, v.readEntries (joinPath (manifestDirectory path) source.path) = .ok entries ∧
        m = ⟨source.name, entries, source.fused⟩)
    b.spec.modules b.modules
  /-- Each metadata file is read. -/
  sources : List.Forall₂
    (fun source file => file.1 = source.path ∧
      v.readFile (joinPath (manifestDirectory path) source.source) = .ok file.2)
    b.spec.metadata files
  /-- The metadata files are collected by their paths. -/
  collected : b.metadata = .ofList files

variable {v : Volume} {start path : String}

theorem readModule_eq_ok_iff {source : ModuleSource} {m : AppModule} :
    v.readModule start source = .ok m ↔ v.isDirectory (joinPath start source.path) ∧
      ∃ entries, v.readEntries (joinPath start source.path) = .ok entries ∧
        m = ⟨source.name, entries, source.fused⟩ := by
  unfold Volume.readModule
  dsimp only
  by_cases hdirectory : v.isDirectory (joinPath start source.path)
  · rw [if_pos hdirectory, and_iff_right hdirectory]
    simp only [bind_eq_ok_iff, mapError_eq_ok_iff]
    constructor
    · rintro ⟨entries, hentries, hm⟩
      exact ⟨entries, hentries, (Except.ok.inj hm).symm⟩
    · rintro ⟨entries, hentries, rfl⟩
      exact ⟨entries, hentries, rfl⟩
  · rw [if_neg hdirectory]
    exact iff_of_false (fun h => by cases h) fun h => hdirectory h.1

theorem readMetadata_eq_ok_iff {source : MetadataSource} {file : String × ByteArray} :
    v.readMetadata start source = .ok file ↔
      file.1 = source.path ∧ v.readFile (joinPath start source.source) = .ok file.2 := by
  unfold Volume.readMetadata
  simp only [bind_eq_ok_iff, mapError_eq_ok_iff]
  constructor
  · rintro ⟨content, hcontent, h⟩
    obtain rfl := Except.ok.inj h
    exact ⟨rfl, hcontent⟩
  · rintro ⟨hpath, hcontent⟩
    exact ⟨_, hcontent, congrArg _ (Prod.ext hpath.symm rfl)⟩

/-- A bundle is loaded if all that it consists of can be read. -/
theorem loads_iff {b : Bundle} :
    Loads v path b ↔ ∃ manifest files, Loaded v path manifest files b := by
  have hreads : Loads v path b ↔ v.readBundle path = .ok b := by
    rw [Loads, readsAs_loadBundle path v]
    constructor
    · rintro ⟨w, h⟩
      exact congrArg Prod.fst h
    · intro h
      exact ⟨v, congrArg (·, v) h⟩
  rw [hreads]
  unfold Volume.readBundle Volume.readSpec
  simp only [bind_eq_ok_iff, mapError_eq_ok_iff, mapM_eq_ok_iff, readModule_eq_ok_iff,
    readMetadata_eq_ok_iff]
  constructor
  · rintro ⟨spec, ⟨text, ⟨content, hcontent, htext⟩, manifest, hparse, hspec⟩, modules, hmodules,
      files, hfiles, h⟩
    obtain rfl := Except.ok.inj h
    exact ⟨manifest, files, ⟨content, text, hcontent, htext, hparse⟩, hspec, hmodules, hfiles, rfl⟩
  · rintro ⟨manifest, files, ⟨content, text, hcontent, htext, hparse⟩, hspec, hmodules, hfiles,
      hmetadata⟩
    refine ⟨b.spec, ⟨text, ⟨content, hcontent, htext⟩, manifest, hparse, hspec⟩, b.modules,
      hmodules, files, hfiles, ?_⟩
    rw [← hmetadata]
    rfl

end AppBundle
