import AppBundle.Proofs.DistinctPackages
import AppBundle.Proofs.PlannedShards

/-!
# The packages for one device

The packages for one device are the system image and one package for each module and targeting
beside it. The identifier of a package is made from its targeting and its entries, but not from
its modules, so packages of different modules can have the same identifier, and then they share a
file. This file proves that packages of one module never do, that packages share a file exactly if
they show the same targeting and hold the same entries, and that every file holds the archive of
each package that it belongs to.
-/

namespace AppBundle

open CommandLine Files

section Packages

variable {modules : List AppModule} {dimensions : OrderedSet Dimension}
variable {options : ShardingOptions} {shard : Shard} {fused : OrderedSet String}
variable {metadata : Metadata} {device : Device} {packages : SystemPackages}

/-- Packing for one device fuses the system image, and beside it one package for each module and
targeting of the other splits. -/
theorem SystemPackages.ofShard_eq_ok_iff :
    ofShard shard fused metadata device = .ok packages ↔
      Package.fuse (shard.filter (·.isFused fused device)) metadata = .ok packages.image ∧
      List.Forall₂
        (fun key p => Package.fuse (splitsApart (splitsOutside shard fused device) key) ∅ = .ok p)
        ((splitsOutside shard fused device).map Split.apartKey).eraseDups packages.additional := by
  have houtside : shard.filter (not ∘ fun s => s.isFused fused device) =
      splitsOutside shard fused device := rfl
  unfold ofShard
  rw [List.partition_eq_filter_filter]
  simp only [houtside, apartClasses_eq, bind_eq_ok_iff, mapM_eq_ok_iff,
    List.forall₂_map_left_iff]
  constructor
  · rintro ⟨image, himage, additional, hadditional, h⟩
    obtain rfl := Except.ok.inj h
    exact ⟨himage, hadditional⟩
  · rintro ⟨himage, hadditional⟩
    exact ⟨_, himage, _, hadditional, rfl⟩

section OfShard

variable (hshard : OfOneClass modules dimensions options shard)
variable (h : SystemPackages.ofShard shard fused metadata device = .ok packages)
include h

/-- Every package for one device is fused from splits of the shard. -/
theorem exists_fuse_of_mem_all {p : Package} (hp : p ∈ packages.all) :
    ∃ part files, (∀ s ∈ part, s ∈ shard) ∧ Package.fuse part files = .ok p := by
  obtain ⟨himage, hadditional⟩ := SystemPackages.ofShard_eq_ok_iff.mp h
  rcases List.mem_cons.mp hp with rfl | hp
  · exact ⟨_, _, fun s hs => (List.mem_filter.mp hs).1, himage⟩
  · obtain ⟨key, _, hfuse⟩ := exists_of_mem_of_forall₂ hadditional hp
    exact ⟨_, _, fun s hs => (List.mem_filter.mp (List.mem_filter.mp hs).1).1, hfuse⟩

/-- The packages beside the system image belong each to the module and the targeting of a split
that is kept out of it. -/
theorem forall₂_isApart :
    List.Forall₂
      (fun key p => (∃ t ∈ shard, t.isFused fused device = false ∧ t.apartKey = key) ∧
        IsApart (splitsOutside shard fused device) key p)
      ((splitsOutside shard fused device).map Split.apartKey).eraseDups packages.additional := by
  obtain ⟨_, hadditional⟩ := SystemPackages.ofShard_eq_ok_iff.mp h
  have hkeys := (List.forall₂_and_left _ _).mpr ⟨fun _ hkey => hkey, hadditional⟩
  refine hkeys.imp fun key p hp => ?_
  have hkey := List.mem_eraseDups.mp hp.1
  refine ⟨?_, isApart_of_fuse hkey hp.2⟩
  obtain ⟨t, ht, hkey⟩ := List.mem_map.mp hkey
  obtain ⟨ht, hout⟩ := List.mem_filter.mp ht
  exact ⟨t, ht, by simpa using hout, hkey⟩

include hshard

/-- The system image serves no language that keeps a split of a fused module out of it. -/
theorem not_sameValues_image {t : Split} (ht : t ∈ shard) (hfused : t.moduleName ∈ fused)
    (hout : t.isFused fused device = false) :
    ¬ packages.image.targeting.SameValues t.targeting := by
  intro hsame
  obtain ⟨himage, _⟩ := SystemPackages.ofShard_eq_ok_iff.mp h
  obtain ⟨m, _, hpart⟩ := hshard.isPart t ht
  have hserves : t.targeting.servesLanguage device = false := by
    rw [Split.isFused, decide_eq_true hfused, Bool.true_and] at hout
    exact hout
  have hlanguage : t.targeting.hasLanguage := by
    rw [Targeting.servesLanguage, Bool.or_eq_false_iff, Bool.not_eq_false'] at hserves
    exact hserves.1
  obtain ⟨l, hl⟩ := hpart.targeting.exists_forLanguage hlanguage
  have hmem : l ∈ packages.image.targeting.language.values := by
    rw [hsame.language, hl]
    exact OrderedSet.mem_singleton.mpr rfl
  rw [Package.targeting_of_fuse himage, Targeting.combine_eq,
    mem_values_combine_iff Targeting.language] at hmem
  obtain ⟨s, hs, hvalue⟩ := hmem
  obtain ⟨hs, hinside⟩ := List.mem_filter.mp hs
  obtain ⟨n, _, hspart⟩ := hshard.isPart s hs
  have hslanguage : s.targeting.hasLanguage := by
    rw [hspart.targeting.dimensions_eq.2.2, Bool.not_eq_true', ← Bool.not_eq_true,
      OrderedSet.isEmpty_iff]
    intro hnone
    rw [hnone] at hvalue
    exact absurd hvalue (OrderedSet.not_mem_empty l)
  obtain ⟨l', hl'⟩ := hspart.targeting.exists_forLanguage hslanguage
  rw [hl'] at hvalue
  obtain rfl := OrderedSet.mem_singleton.mp hvalue
  have hsserves := (Bool.and_eq_true_iff.mp hinside).2
  rw [hl', ← hl, hserves] at hsserves
  cases hsserves

/-- Two packages for one device that have a module in common serve different values. -/
theorem pairwise_not_sameValues :
    packages.all.Pairwise fun p q =>
      (∃ name ∈ p.modules, name ∈ q.modules) → ¬ p.targeting.SameValues q.targeting := by
  have hadditional := forall₂_isApart h
  rw [SystemPackages.all, List.pairwise_cons]
  constructor
  · intro q hq
    obtain ⟨_, _, ⟨t, ht, hout, rfl⟩, hapart⟩ := exists_of_mem_of_forall₂ hadditional hq
    rintro ⟨name, himage, hname⟩ hsame
    rw [hapart.modules, List.mem_singleton] at hname
    obtain ⟨files, _, hfiles⟩ :=
      Package.fuse_eq_ok_iff.mp (SystemPackages.ofShard_eq_ok_iff.mp h).1
    rw [hfiles, Package.modules_ofFiles, shardModules, List.mem_eraseDups] at himage
    obtain ⟨s, hs, hsname⟩ := List.mem_map.mp himage
    have hfused := (Split.isFused_iff.mp (List.mem_filter.mp hs).2).1
    rw [hsname, hname] at hfused
    exact not_sameValues_image hshard h ht hfused hout (hsame.trans hapart.targeting)
  · refine pairwise_of_forall₂ hadditional (nodup_eraseDups _) ?_
    rintro _ _ p q ⟨⟨t, ht, _, rfl⟩, hp⟩ ⟨⟨t', ht', _, rfl⟩, hq⟩ hne ⟨name, hname, hname'⟩ hsame
    rw [hp.modules, List.mem_singleton] at hname
    rw [hq.modules, List.mem_singleton] at hname'
    have htargeting := hshard.targeting_eq_of_sameValues ht ht'
      (hp.targeting.symm.trans (hsame.trans hq.targeting))
    exact hne (Prod.ext (hname.symm.trans hname') htargeting)

end OfShard

end Packages

section Content

/-- No two contents of some packages collide. -/
def NoContentCollision (packages : List Package) : Prop :=
  ∀ p ∈ packages, ∀ q ∈ packages, ∀ e ∈ p.entries, ∀ f ∈ q.entries,
    ¬ Blake3.IsCollision e.content f.content

/-- No path of some packages holds a line break. -/
def OneLinePaths (packages : List Package) : Prop :=
  ∀ p ∈ packages, ∀ e ∈ p.entries, '\n' ∉ e.path.toList

/-- Packages are stored by their contents: two of them have one path exactly if they show the same
targeting and hold the same entries, and if no link has the name of one of the files, the file of
each package holds its archive in the end. -/
structure StoredByContent (packages : List Package) (directory : String)
    (start : List Warning × Volume) (written : List String) (finish : List Warning × Volume) :
    Prop where
  paths : written = packages.map (Package.path directory)
  shared : ∀ p ∈ packages, ∀ q ∈ packages, p.path directory = q.path directory ↔
    p.targeting.label = q.targeting.label ∧ p.entries = q.entries
  count : written.eraseDups.length =
    (packages.map fun p => (p.targeting.label, p.entries)).eraseDups.length
  archives : (∀ p ∈ packages, start.2.LacksLink p.fileName) → ∀ p ∈ packages, ∃ archive,
    Archive.write p.entries = .ok archive ∧ finish.2.readFile (p.path directory) = .ok archive

/-- Packages are told apart by their contents, and those of one module by their targetings. -/
structure ToldByContent (packages : List Package) : Prop where
  /-- The identifiers are the digests of the texts that identify the packages. -/
  digests : ∀ p ∈ packages, p.id = Blake3.hex p.identityText.toUTF8
  /-- Two packages with a module in common show different targetings. -/
  labels : packages.Pairwise fun p q =>
    (∃ name ∈ p.modules, name ∈ q.modules) → p.targeting.label ≠ q.targeting.label
  /-- Two packages with a module in common have different identifiers, unless digests collide. -/
  ids : NoCollision packages → packages.Pairwise fun p q =>
    (∃ name ∈ p.modules, name ∈ q.modules) → p.id ≠ q.id
  /-- Two packages have the same identifier exactly if they show the same targeting and hold the
  same entries, unless digests collide or a path holds a line break. -/
  shared : NoCollision packages → NoContentCollision packages → OneLinePaths packages →
    ∀ p ∈ packages, ∀ q ∈ packages, p.id = q.id ↔
      p.targeting.label = q.targeting.label ∧ p.entries = q.entries
  /-- Under the same conditions they are stored by their contents. -/
  stored : NoCollision packages → NoContentCollision packages → OneLinePaths packages →
    ∀ directory start written finish,
      Runs (writePackages (some directory) packages) start written finish →
        StoredByContent packages directory start written finish

variable {packages : List Package} {directory : String} {written : List String}
variable {start finish : List Warning × Volume}

/-- Packages are stored by their contents if their identifiers tell these. -/
theorem storedByContent_of_runs (hplain : ∀ p ∈ packages, '/' ∉ p.id.toList)
    (hids : ∀ p ∈ packages, ∀ q ∈ packages, p.id = q.id ↔
      p.targeting.label = q.targeting.label ∧ p.entries = q.entries)
    (h : Runs (writePackages (some directory) packages) start written finish) :
    StoredByContent packages directory start written finish := by
  obtain ⟨middle, hkept, hruns⟩ := exists_of_runs_writePackages h
  have hpaths := written_of_runs_mapM hruns
  have hshared : ∀ p ∈ packages, ∀ q ∈ packages, p.path directory = q.path directory ↔
      p.targeting.label = q.targeting.label ∧ p.entries = q.entries := fun p hp q hq =>
    (path_eq_iff (hplain p hp) (hplain q hq)).trans (hids p hp q hq)
  refine ⟨hpaths, hshared, ?_, fun hlacks => exists_archive_of_runs_mapM (fun p hp => ?_) ?_ hruns⟩
  · rw [hpaths]
    refine length_eraseDups_map_eq fun p hp q hq => ?_
    rw [hshared p hp q hq, Prod.mk.injEq]
  · exact ⟨hplain p hp, hkept _ (hlacks p hp)⟩
  · exact fun p hp q hq heq => ((hids p hp q hq).mp heq).2

/-- Packages are told apart by their contents if those with a module in common show different
targetings. -/
theorem toldByContent_of_labels (hcodes : ∀ p ∈ packages, p.targeting.HasCodes)
    (hdigests : ∀ p ∈ packages, p.id = Blake3.hex p.identityText.toUTF8)
    (hlabels : packages.Pairwise fun p q =>
      (∃ name ∈ p.modules, name ∈ q.modules) → p.targeting.label ≠ q.targeting.label) :
    ToldByContent packages := by
  have htext (hnone : NoCollision packages) {p q : Package} (hp : p ∈ packages) (hq : q ∈ packages)
      (hid : p.id = q.id) : p.identityText = q.identityText := by
    rw [hdigests p hp, hdigests q hq] at hid
    exact String.toByteArray_inj.mp
      ((Blake3.eq_or_isCollision hid).resolve_right (hnone p hp q hq))
  have hshared (hnone : NoCollision packages) (hcontents : NoContentCollision packages)
      (hpaths : OneLinePaths packages) : ∀ p ∈ packages, ∀ q ∈ packages, p.id = q.id ↔
        p.targeting.label = q.targeting.label ∧ p.entries = q.entries := by
    intro p hp q hq
    constructor
    · intro hid
      obtain ⟨hlabel, hlines⟩ :=
        eq_of_identity_eq (hcodes p hp) (hcodes q hq) (htext hnone hp hq hid)
      refine ⟨hlabel, ?_⟩
      have hwords := words_eq_of_lines (hpaths p hp) (hpaths q hq) hlines
      refine (eq_or_isCollision_of_words hwords).resolve_right ?_
      rintro ⟨e, he, f, hf, hcollision⟩
      exact hcontents p hp q hq e he f hf hcollision
    · rintro ⟨hlabel, hentries⟩
      rw [hdigests p hp, hdigests q hq, Package.identityText, Package.identityText, identity,
        identity, hlabel, hentries]
  refine ⟨hdigests, hlabels, fun hnone => ?_, hshared,
    fun hnone hcontents hpaths directory start written finish h => ?_⟩
  · refine hlabels.imp_of_mem fun {p q} hp hq hpq hmodules hid => hpq hmodules ?_
    exact (eq_of_identity_eq (hcodes p hp) (hcodes q hq) (htext hnone hp hq hid)).1
  · refine storedByContent_of_runs (fun p hp => ?_) (hshared hnone hcontents hpaths) h
    rw [hdigests p hp]
    exact Blake3.not_mem_hex (by decide) _

end Content

/-- The packages for one device are made from the one shard of its plan. -/
theorem exists_shard_of_shardForDevice {modules : List AppModule}
    {dimensions : OrderedSet Dimension} {options : ShardingOptions} {metadata : Metadata}
    {filter : DeviceFilter} {packages : SystemPackages}
    (h : shardForDevice modules dimensions options metadata filter = .ok packages) :
    ∃ shard, planShards modules dimensions options (some filter) = .ok [shard] ∧
      SystemPackages.ofShard shard (fusedModules modules) metadata filter.device =
        .ok packages := by
  obtain ⟨shards, hshards, h⟩ := bind_eq_ok_iff.mp h
  split at h
  · exact ⟨_, hshards, h⟩
  · cases h

/-- The packages for one device are told apart by their contents, and those of one module by their
targetings. -/
theorem toldByContent_of_shardForDevice {modules : List AppModule}
    (dimensions : OrderedSet Dimension) (options : ShardingOptions) (metadata : Metadata)
    (filter : DeviceFilter) {packages : SystemPackages}
    (h : shardForDevice modules dimensions options metadata filter = .ok packages) :
    ToldByContent packages.all := by
  obtain ⟨shard, hplan, h⟩ := exists_shard_of_shardForDevice h
  have hshard := ofOneClass_of_mem_planShards hplan (List.mem_singleton_self shard)
  have hcodes : ∀ p ∈ packages.all, p.targeting.HasCodes := by
    intro p hp
    obtain ⟨part, files, hpart, hfuse⟩ := exists_fuse_of_mem_all h hp
    exact Package.hasCodes_of_fuse hfuse fun s hs => hshard.hasCodes s (hpart s hs)
  refine toldByContent_of_labels hcodes (fun p hp => ?_) ?_
  · obtain ⟨_, _, _, hfuse⟩ := exists_fuse_of_mem_all h hp
    exact Package.id_of_fuse hfuse
  · refine (pairwise_not_sameValues hshard h).imp_of_mem ?_
    intro p q hp hq hne hmodules hlabel
    exact hne hmodules ((Targeting.label_eq_iff (hcodes p hp) (hcodes q hq)).mp hlabel).1

/-- The packages of the sample for a device are told apart by their contents. -/
theorem toldByContent_sampleModules :
    ∃ packages, shardForDevice sampleModules (.ofList Dimension.all) {} ∅
        (servingFilter { supportedAbis := [.x86_64], screenDensity := 300 }) = .ok packages ∧
      ToldByContent packages.all := by
  obtain ⟨packages, h⟩ := exists_of_isSome_toOption
    (x := shardForDevice sampleModules (.ofList Dimension.all) {} ∅
      (servingFilter { supportedAbis := [.x86_64], screenDensity := 300 })) (by decide +kernel)
  exact ⟨packages, h, toldByContent_of_shardForDevice _ _ _ _ h⟩

/-- Two modules with the same file that stay out of the system image. -/
def twinModules : List AppModule :=
  [{ name := "alpha", entries := [⟨"root/a.txt", ⟨#[1]⟩⟩], fused := false },
    { name := "beta", entries := [⟨"root/a.txt", ⟨#[1]⟩⟩], fused := false }]

/-- The packages of the two modules have the same identifier, as they have the same text. -/
theorem exists_same_id_twinModules :
    ∃ packages p q, shardForDevice twinModules ∅ {} ∅
        (servingFilter { supportedAbis := [.x86], screenDensity := 320 }) = .ok packages ∧
      packages.additional = [p, q] ∧ p.modules = ["alpha"] ∧ q.modules = ["beta"] ∧
      p.identityText = q.identityText ∧ p.id = q.id ∧ ¬ (packages.all.map Package.id).Nodup := by
  let shown (p : Package) := (p.modules, p.targeting, p.entries)
  have hshown : (shardForDevice twinModules ∅ {} ∅
      (servingFilter { supportedAbis := [.x86], screenDensity := 320 })).map
        (fun packages => packages.additional.map shown) =
      .ok [(["alpha"], .untargeted, [⟨"root/a.txt", ⟨#[1]⟩⟩]),
        (["beta"], .untargeted, [⟨"root/a.txt", ⟨#[1]⟩⟩])] := by decide +kernel
  obtain ⟨packages, h, hpackages⟩ := map_eq_ok_iff.mp hshown
  obtain ⟨p, rest, hadditional, hp, hrest⟩ := List.map_eq_cons_iff.mp hpackages
  obtain ⟨q, rest', rfl, hq, hrest'⟩ := List.map_eq_cons_iff.mp hrest
  obtain rfl := List.map_eq_nil_iff.mp hrest'
  obtain ⟨hpmodules, hp⟩ := Prod.mk.inj hp
  obtain ⟨hqmodules, hq⟩ := Prod.mk.inj hq
  have htext : p.identityText = q.identityText := by
    rw [Package.identityText, Package.identityText, (Prod.mk.inj hp).1, (Prod.mk.inj hp).2,
      (Prod.mk.inj hq).1, (Prod.mk.inj hq).2]
  have hid : p.id = q.id := by
    obtain ⟨shard, _, h⟩ := exists_shard_of_shardForDevice h
    have hmem {r : Package} (hr : r ∈ [p, q]) : r.id = Blake3.hex r.identityText.toUTF8 := by
      obtain ⟨_, _, _, hfuse⟩ :=
        exists_fuse_of_mem_all h (List.mem_cons_of_mem _ (hadditional ▸ hr))
      exact Package.id_of_fuse hfuse
    rw [hmem (by simp), hmem (by simp), htext]
  refine ⟨packages, p, q, h, hadditional, hpmodules, hqmodules, htext, hid, ?_⟩
  rw [SystemPackages.all, hadditional]
  simp [hid]

end AppBundle
