import AppBundle.Proofs.ArchivedEntries
import AppBundle.Proofs.ImagePackages
import AppBundle.Proofs.OutputDirectories
import AppBundle.Proofs.ShortDigests

/-!
# Packages are told apart

No two standalone packages of a bundle, and no two packages of a module of system images, show
the same targeting. Since their identifiers are digests of texts that begin with the targeting,
the identifiers are different too, unless two of these texts collide, and each package is written
to a file of its own. Packages with short files and plain paths are indeed written, and whether
their texts collide can be computed.
-/

namespace AppBundle

open Archive CommandLine Files

/-- No two of the texts that identify some packages collide. -/
def NoCollision (packages : List Package) : Prop :=
  ∀ p ∈ packages, ∀ q ∈ packages,
    ¬ Blake3.IsCollision p.identityText.toUTF8 q.identityText.toUTF8

/-- Packages are told apart by their labels, by their identifiers and by their files. -/
structure ToldApart (packages : List Package) : Prop where
  /-- No two targetings are shown alike. -/
  labels : (packages.map (·.targeting.label)).Nodup
  /-- No two packages have the same text. -/
  texts : (packages.map Package.identityText).Nodup
  /-- The identifiers are the digests of these texts. -/
  digests : ∀ p ∈ packages, p.id = Blake3.hex p.identityText.toUTF8
  /-- No two identifiers are the same, unless digests collide. -/
  ids : NoCollision packages → (packages.map Package.id).Nodup
  /-- Each package is written to a file of its own, unless digests collide. -/
  stored : NoCollision packages → ∀ directory start written finish,
    Runs (writePackages (some directory) packages) start written finish →
      StoredApart packages directory start written finish

/-- Packages with different labels are told apart. -/
theorem toldApart_of_labels {packages : List Package}
    (hcodes : ∀ p ∈ packages, p.targeting.HasCodes)
    (hdigests : ∀ p ∈ packages, p.id = Blake3.hex p.identityText.toUTF8)
    (hlabels : (packages.map (·.targeting.label)).Nodup) : ToldApart packages := by
  have htexts : (packages.map Package.identityText).Nodup :=
    nodup_map_of_imp hlabels fun p hp q hq heq =>
      (eq_of_identity_eq (hcodes p hp) (hcodes q hq) heq).1
  have hids (hnone : NoCollision packages) : (packages.map Package.id).Nodup := by
    refine nodup_map_of_imp htexts fun p hp q hq heq => ?_
    rw [hdigests p hp, hdigests q hq] at heq
    exact String.toByteArray_inj.mp
      ((Blake3.eq_or_isCollision heq).resolve_right (hnone p hp q hq))
  refine ⟨hlabels, htexts, hdigests, hids, fun hnone directory start written finish h => ?_⟩
  refine storedApart_of_runs (hids hnone) (fun p hp => ?_) h
  rw [hdigests p hp]
  exact Blake3.not_mem_hex (by decide) _

section Bundle

variable {modules : List AppModule} {dimensions : OrderedSet Dimension}
variable {options : ShardingOptions} {metadata : Metadata} {splits : List Split}
variable {packages : List Package}

/-- A shard serves together what one of its splits serves. -/
theorem mem_values_combine_iff {α : Type} [Ord α] [Std.TransOrd α] [Std.LawfulEqOrd α]
    [DecidableEq α] (select : Targeting → Selection α) (shard : Shard) {a : α} :
    a ∈ (Selection.combine ((shard.map Split.targeting).map select)).values ↔
      ∃ s ∈ shard, a ∈ (select s.targeting).values := by
  rw [Selection.mem_values_combine]
  simp

/-- A shard tells its point of the grid by the values that it serves. -/
theorem point_eq_of_sameValues {point point' : Option Abi × Option Density} {shard shard' : Shard}
    (h : IsAt point shard) (h' : IsAt point' shard')
    (hsame : (Targeting.combine (shard.map Split.targeting)).SameValues
      (Targeting.combine (shard'.map Split.targeting))) : point = point' := by
  have habi := hsame.abi
  have hdensity := hsame.density
  rw [Targeting.combine_eq, Targeting.combine_eq] at habi hdensity
  refine Prod.ext (Option.ext fun a => ?_) (Option.ext fun d => ?_)
  · rw [← h.abi a, ← h'.abi a, ← mem_values_combine_iff Targeting.abi,
      ← mem_values_combine_iff Targeting.abi, habi]
  · rw [← h.density d, ← h'.density d, ← mem_values_combine_iff Targeting.density,
      ← mem_values_combine_iff Targeting.density, hdensity]

/-- The standalone packages of a bundle are told apart. -/
theorem toldApart_of_shardBundle
    (h : shardBundle modules dimensions options metadata = .ok packages) : ToldApart packages := by
  obtain ⟨splits, hsplits, hagree, hpackages⟩ := shardBundle_eq_ok_iff.mp h
  have hpoints := (List.forall₂_and_left _ _).mpr ⟨fun _ hpoint => hpoint, hpackages⟩
  have hcodes {point : Option Abi × Option Density} {p : Package}
      (hp : Package.fuse (shardAt splits point) metadata = .ok p) : p.targeting.HasCodes :=
    Package.hasCodes_of_fuse hp fun s hs =>
      hasCodes_of_mem_bundleSplits hsplits (mem_of_mem_shardAt hs)
  refine toldApart_of_labels (fun p hp => ?_) (fun p hp => ?_) ?_
  · obtain ⟨point, _, hfuse⟩ := exists_of_mem_of_forall₂ hpackages hp
    exact hcodes hfuse
  · obtain ⟨point, _, hfuse⟩ := exists_of_mem_of_forall₂ hpackages hp
    exact Package.id_of_fuse hfuse
  · refine nodup_map_of_forall₂ hpoints (nodup_gridPoints _ _ _) ?_
    intro point point' p q hp hq hlabel
    have hsame := ((Targeting.label_eq_iff (hcodes hp.2) (hcodes hq.2)).mp hlabel).1
    rw [Package.targeting_of_fuse hp.2, Package.targeting_of_fuse hq.2] at hsame
    exact point_eq_of_sameValues (isAt_shardAt hsplits hagree hp.1)
      (isAt_shardAt hsplits hagree hq.1) hsame

end Bundle

section Images

variable {m : AppModule} {options : ShardingOptions} {packages : List Package}

/-- The packages of a module of system images are fused from shards, and have the targetings of
its sets of architectures. -/
theorem targetings_of_shardApex (h : shardApex m options = .ok packages) :
    (∀ p ∈ packages, ∃ shard, Package.fuse shard ∅ = .ok p) ∧
      packages.map Package.targeting = targetsOf .forAbiSet m.imageSets := by
  obtain ⟨splits, hsplits, _⟩ := bind_eq_ok_iff.mp h
  obtain ⟨master, hmaster, huntargeted⟩ := exists_apexMaster hsplits
  have htargetings := AppModule.targetings_forAbiSet hsplits
  rw [AppModule.shardApex_eq hsplits hmaster huntargeted, mapM_eq_ok_iff,
    List.forall₂_map_left_iff] at h
  have hmem := (List.forall₂_and_left _ _).mpr ⟨fun _ hs => hs, h⟩
  constructor
  · intro p hp
    obtain ⟨s, _, hfuse⟩ := exists_of_mem_of_forall₂ h hp
    exact ⟨_, hfuse⟩
  · rw [← htargetings, eq_comm, ← List.forall₂_eq_eq_eq, List.forall₂_map_left_iff,
      List.forall₂_map_right_iff]
    refine hmem.imp fun s p ⟨hs, hfuse⟩ => ?_
    have ht : s.targeting ∈ targetsOf .forAbiSet m.imageSets :=
      htargetings ▸ List.mem_map_of_mem hs
    obtain ⟨set, _, ht⟩ := List.mem_map.mp ht
    rw [Package.targeting_of_fuse hfuse, List.map_cons, List.map_singleton, ← ht,
      of_decide_eq_true huntargeted, Targeting.combine_untargeted_forAbiSet]

/-- The packages of a module of system images are told apart. -/
theorem toldApart_of_shardApex (h : shardApex m options = .ok packages) : ToldApart packages := by
  obtain ⟨hfused, htargetings⟩ := targetings_of_shardApex h
  have hcodes (s others) : (Targeting.forAbiSet s others).HasCodes :=
    Targeting.hasCodes_of_hasLanguage_eq_false rfl
  refine toldApart_of_labels (fun p hp => ?_) (fun p hp => ?_) ?_
  · obtain ⟨s, _, ht⟩ := List.mem_map.mp (htargetings ▸ List.mem_map_of_mem hp)
    exact ht ▸ hcodes _ _
  · obtain ⟨shard, hfuse⟩ := hfused p hp
    exact Package.id_of_fuse hfuse
  · have hlabels : packages.map (·.targeting.label) =
        (targetsOf .forAbiSet m.imageSets).map Targeting.label := by
      rw [← htargetings, List.map_map]
      rfl
    rw [hlabels, targetsOf, List.map_map]
    refine m.imageSets.nodup_toList.map fun s s' hlabel => ?_
    have hsame := ((Targeting.label_eq_iff (hcodes _ _) (hcodes _ _)).mp hlabel).1.multiAbi
    have hmem : s ∈ (Targeting.forAbiSet s' (m.imageSets.filter (· ≠ s'))).multiAbi.values := by
      rw [← hsame]
      exact OrderedSet.mem_singleton.mpr rfl
    exact OrderedSet.mem_singleton.mp hmem

end Images

/-- The standalone packages of a bundle are told apart, and so are the packages of a module of
system images. -/
theorem toldApart_of_packages (modules : List AppModule) (dimensions : OrderedSet Dimension)
    (metadata : Metadata) (m : AppModule) (options : ShardingOptions) {packages : List Package}
    (h : shardBundle modules dimensions options metadata = .ok packages ∨
      shardApex m options = .ok packages) : ToldApart packages := by
  rcases h with h | h
  · exact toldApart_of_shardBundle h
  · exact toldApart_of_shardApex h

/-! ## Packages that can be written -/

/-- The texts of packages with different identifiers do not collide. -/
theorem noCollision_of_nodup {packages : List Package}
    (hdigests : ∀ p ∈ packages, p.id = Blake3.hex p.identityText.toUTF8)
    (hids : (packages.map Package.id).Nodup) : NoCollision packages := by
  rintro p hp q hq ⟨hne, hhex⟩
  rw [← hdigests p hp, ← hdigests q hq] at hhex
  obtain rfl := List.inj_on_of_nodup_map hids hp hq hhex
  exact hne rfl

/-- Packages with short files have different identifiers if these are computed to be different. -/
theorem nodup_ids_of_isShort {packages : List Package}
    (hdigests : ∀ p ∈ packages, p.id = Blake3.hex p.identityText.toUTF8)
    (hshort : ∀ p ∈ packages, p.IsShort) (hnodup : (packages.map Package.idBytes).Nodup) :
    (packages.map Package.id).Nodup := by
  have hbytes : packages.map Package.idBytes = (packages.map Package.id).map bytesOf := by
    rw [List.map_map]
    exact List.map_congr_left fun p hp => (Package.bytesOf_id (hdigests p hp) (hshort p hp)).symm
  rw [hbytes] at hnodup
  exact .of_map _ hnodup

/-- Packages with plain paths are written to a new directory, if their identifiers are digests and
no link has the name of one of their files. -/
theorem exists_runs_of_isPlainPath {v : Volume} {directory : String} {children : Listing}
    {packages : List Package}
    (hhere : nodeAt? v.workingDirectory v.root = some (.directory children))
    (hdirectory : IsFileName directory) (hsize : directory.utf8ByteSize ≤ Volume.maxNameSize)
    (hvacant : children.lookup directory = none)
    (hdigests : ∀ p ∈ packages, p.id = Blake3.hex p.identityText.toUTF8)
    (hlacks : ∀ p ∈ packages, v.LacksLink p.fileName)
    (hplain : ∀ p ∈ packages, ∀ e ∈ p.entries, IsPlainPath e.path) (warnings : List Warning) :
    ∃ written finish,
      Runs (writePackages (some directory) packages) (warnings, v) written finish := by
  refine exists_runs_writePackages hhere hdirectory hsize hvacant (fun p hp => ?_) warnings
  have hslash : '/' ∉ p.id.toList := hdigests p hp ▸ Blake3.not_mem_hex (by decide) _
  have hzero : '\x00' ∉ p.id.toList := hdigests p hp ▸ Blake3.not_mem_hex (by decide) _
  have hname : p.fileName.utf8ByteSize ≤ Volume.maxNameSize := by
    rw [Package.fileName, String.utf8ByteSize_append, hdigests p hp, Blake3.size_hex]
    decide
  exact ⟨⟨hslash, hlacks p hp⟩, Package.isFileName_fileName hslash hzero, hname,
    exists_write_of_isPlainPath (hplain p hp)⟩

/-- A volume with nothing in it. -/
def emptyVolume : Volume where
  root := []
  workingDirectory := []

/-- Packages have different identifiers, and each of them is written to a file of its own in a
directory of the empty volume. -/
structure AreWritten (packages : List Package) : Prop where
  noCollision : NoCollision packages
  ids : (packages.map Package.id).Nodup
  runs : ∃ written finish,
    Runs (writePackages (some "out") packages) ([], emptyVolume) written finish ∧
      StoredApart packages "out" ([], emptyVolume) written finish

/-- A check of some packages: their files are short and have plain paths, and their identifiers are
computed to be different. -/
def PassCheck (packages : List Package) : Prop :=
  (∀ p ∈ packages, p.IsShort ∧ ∀ e ∈ p.entries, ∀ part ∈ Text.split '/' e.path, IsFileName part) ∧
    (packages.map Package.idBytes).Nodup

instance : DecidablePred PassCheck := fun _ => inferInstanceAs (Decidable (_ ∧ _))

/-- Packages that are told apart and pass the check are written. -/
theorem ToldApart.areWritten {packages : List Package} (h : ToldApart packages)
    (hcheck : PassCheck packages) : AreWritten packages := by
  obtain ⟨hall, hnodup⟩ := hcheck
  have hids := nodup_ids_of_isShort h.digests (fun p hp => (hall p hp).1) hnodup
  have hnone := noCollision_of_nodup h.digests hids
  have hlacks (name : String) : emptyVolume.LacksLink name := by
    intro location target hlink
    cases location <;> cases hlink
  obtain ⟨written, finish, hruns⟩ : ∃ written finish,
      Runs (writePackages (some "out") packages) ([], emptyVolume) written finish :=
    exists_runs_of_isPlainPath rfl (by decide) (by decide) rfl h.digests
      (fun p _ => hlacks p.fileName) (fun p hp e he => isPlainPath_of_split ((hall p hp).2 e he)) []
  exact ⟨hnone, hids, written, finish, hruns, h.stored hnone _ _ _ _ hruns⟩

/-- The packages of the sample bundle and those of the sample module of system images are told
apart, and they can be written. -/
theorem toldApart_samples :
    (∃ packages, shardBundle sampleModules (.ofList Dimension.all) {} ∅ = .ok packages ∧
        ToldApart packages ∧ AreWritten packages) ∧
      ∃ packages, shardApex AppModule.sampleImages {} = .ok packages ∧
        ToldApart packages ∧ AreWritten packages := by
  obtain ⟨packages, h, hcheck⟩ := exists_of_any_toOption (P := PassCheck)
    (x := shardBundle sampleModules (.ofList Dimension.all) {} ∅) (by decide +kernel)
  obtain ⟨images, himages, hcheck'⟩ := exists_of_any_toOption (P := PassCheck)
    (x := shardApex AppModule.sampleImages {}) (by decide +kernel)
  have htold := toldApart_of_packages _ _ _ AppModule.sampleImages _ (.inl h)
  have htold' := toldApart_of_packages sampleModules ∅ ∅ _ _ (.inr himages)
  exact ⟨⟨packages, h, htold, htold.areWritten hcheck⟩,
    images, himages, htold', htold'.areWritten hcheck'⟩

end AppBundle
