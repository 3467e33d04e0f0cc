import AppBundle.Proofs.CombinedTargeting
import AppBundle.Proofs.UndividedEntries

/-!
# The order of the modules

The modules of a bundle are listed in some order, and two things follow it: dex files are
numbered module by module, and of several manifests the first one is kept. In both the base
module comes first wherever it is listed. This file proves that nothing else depends on the
order: if the other modules with dex files or a manifest keep theirs, the packages stay the same
but for the order in which they list their modules.
-/

namespace AppBundle

/-- Whether the place of a module among the others matters. -/
def AppModule.keepsPlace (m : AppModule) : Bool := !m.isBase && (m.hasDex || m.hasManifest)

/-- Two packages are the same, but may list their modules in different orders. -/
structure Package.SameButModules (p q : Package) : Prop where
  /-- They have the same identifier. -/
  id : p.id = q.id
  /-- They serve the same devices. -/
  targeting : p.targeting = q.targeting
  /-- They have the same entries in the same order. -/
  entries : p.entries = q.entries
  /-- They have the same modules. -/
  modules : p.modules.Perm q.modules

variable {modules others : List AppModule} {dimensions : OrderedSet Dimension}
variable {options : ShardingOptions} {metadata : Metadata} {splits splits' : List Split}
variable {point : Option Abi × Option Density}

section Perm

variable (hperm : modules.Perm others)
include hperm

/-- The architectures of a bundle do not depend on the order of the modules. -/
theorem bundleAbis_of_perm :
    bundleAbis modules dimensions options = bundleAbis others dimensions options := by
  refine OrderedSet.ext fun a => ?_
  simp only [mem_bundleAbis, hperm.mem_iff]

/-- The density classes of a bundle do not depend on the order of the modules. -/
theorem bundleDensities_of_perm :
    bundleDensities modules dimensions = bundleDensities others dimensions := by
  refine OrderedSet.ext fun d => ?_
  simp only [mem_bundleDensities, hperm.mem_iff]

/-- The grid of packages does not depend on the order of the modules. -/
theorem gridPoints_of_perm :
    gridPoints modules dimensions options = gridPoints others dimensions options := by
  rw [gridPoints, gridPoints, bundleAbis_of_perm hperm, bundleDensities_of_perm hperm]

/-- Modules agree on their architectures in every order. -/
theorem abisAgree_of_perm (hagree : AbisAgree modules dimensions options) :
    AbisAgree others dimensions options := by
  intro m hm
  rw [← bundleAbis_of_perm hperm]
  exact hagree m (hperm.mem_iff.mpr hm)

/-- Modules in another order have the same splits in another order. -/
theorem exists_bundleSplits_of_perm (h : bundleSplits modules dimensions options = .ok splits) :
    ∃ splits', bundleSplits others dimensions options = .ok splits' ∧ splits.Perm splits' := by
  obtain ⟨hne, splitsOf, hall, rfl⟩ := exists_of_bundleSplits h
  have hothers : others ≠ [] := fun hnil => hne (hnil ▸ hperm).eq_nil
  refine ⟨_, bundleSplits_of_forall hothers fun m hm => hall m (hperm.mem_iff.mpr hm), ?_⟩
  exact hperm.flatMap_right _

end Perm

/-- The splits at a point are the same in every order of the splits. -/
theorem shardAt_perm (hsplits : splits.Perm splits') (point : Option Abi × Option Density) :
    (shardAt splits point).Perm (shardAt splits' point) := by
  have hcommon := (hsplits.filter Split.isMaster).append
    (hsplits.filter fun s => s.targeting.hasLanguage)
  have habi : (classAt Targeting.abi splits point.1).Perm (classAt Targeting.abi splits' point.1) :=
    hsplits.filter _
  have hdensity : (classAt Targeting.density splits point.2).Perm
      (classAt Targeting.density splits' point.2) := hsplits.filter _
  exact (hcommon.append habi).append hdensity

section DistinctNames

variable (hperm : modules.Perm others) (hnames : (modules.map AppModule.name).Nodup)
include hperm hnames

/-- There is one base module, so that it is the same in every order. -/
theorem filter_isBase_of_perm : modules.filter (·.isBase) = others.filter (·.isBase) := by
  have hbase := hperm.filter (·.isBase)
  by_cases hexists : ∃ m ∈ modules, m.isBase
  · obtain ⟨m, hm, hname⟩ := hexists
    have hone : modules.filter (·.isBase) = [m] := by
      rw [← filter_eq_singleton hnames hm, of_decide_eq_true hname]
      rfl
    rw [hone] at hbase ⊢
    exact (List.perm_singleton.mp hbase.symm).symm
  · have hnone : modules.filter (·.isBase) = [] :=
      List.filter_eq_nil_iff.mpr fun m hm hname => hexists ⟨m, hm, hname⟩
    rw [hnone] at hbase ⊢
    exact (List.nil_perm.mp hbase).symm

variable (horder : modules.filter AppModule.keepsPlace = others.filter AppModule.keepsPlace)
include horder

/-- Modules with dex files or a manifest come in the same order after the base module is put
first. -/
theorem filter_baseFirst_of_perm {q : AppModule → Bool}
    (hq : ∀ m, q m → m.hasDex || m.hasManifest) :
    (baseFirst modules).filter q = (baseFirst others).filter q := by
  have hrest (ms : List AppModule) :
      (ms.filter (!·.isBase)).filter q = (ms.filter AppModule.keepsPlace).filter q := by
    rw [List.filter_filter, List.filter_filter]
    refine List.filter_congr fun m _ => ?_
    rw [AppModule.keepsPlace]
    by_cases hm : q m
    · rw [hq m hm, Bool.and_true]
    · rw [Bool.not_eq_true] at hm
      rw [hm, Bool.false_and, Bool.false_and]
  rw [baseFirst, baseFirst, List.filter_append, List.filter_append, hrest, hrest, horder,
    filter_isBase_of_perm hperm hnames]

/-- A shard gets the same dex files, with the same numbers. -/
theorem packageDex_of_perm (h : bundleSplits modules dimensions options = .ok splits)
    (h' : bundleSplits others dimensions options = .ok splits')
    (hnames' : (others.map AppModule.name).Nodup) :
    packageDex (shardAt splits point) = packageDex (shardAt splits' point) := by
  have hdex : dexByModule (shardAt splits point) = dexByModule (shardAt splits' point) := by
    rw [dexByModule_of_nodup hnames h, dexByModule_of_nodup hnames' h',
      filter_baseFirst_of_perm hperm hnames horder fun m hm => by rw [hm, Bool.true_or]]
  rw [packageDex, packageDex, hdex]

/-- A shard keeps the same manifest. -/
theorem manifestOwner_of_perm (h : bundleSplits modules dimensions options = .ok splits)
    (h' : bundleSplits others dimensions options = .ok splits')
    (hnames' : (others.map AppModule.name).Nodup) :
    manifestOwner (shardAt splits point) = manifestOwner (shardAt splits' point) := by
  rw [manifestOwner_of_nodup hnames h, manifestOwner_of_nodup hnames' h', ← List.head?_filter,
    ← List.head?_filter,
    filter_baseFirst_of_perm hperm hnames horder fun m hm => by rw [hm, Bool.or_true]]

/-- A package is filled with the same entries. -/
theorem mem_fusedEntries_of_perm (h : bundleSplits modules dimensions options = .ok splits)
    (h' : bundleSplits others dimensions options = .ok splits') (hsplits : splits.Perm splits')
    (e : Entry) :
    e ∈ fusedEntries (shardAt splits point) metadata ↔
      e ∈ fusedEntries (shardAt splits' point) metadata := by
  have hnames' : (others.map AppModule.name).Nodup := (hperm.map _).nodup_iff.mp hnames
  refine mem_fusedEntries_congr (packageDex_of_perm hperm hnames horder h h' hnames')
    (manifestOwner_of_perm hperm hnames horder h h' hnames') (fun name e => ?_) e
  simp only [(shardAt_perm hsplits point).mem_iff]

/-- The shards at a point are fused to the same package, but for the order of its modules. -/
theorem exists_fuse_of_perm (h : bundleSplits modules dimensions options = .ok splits)
    (h' : bundleSplits others dimensions options = .ok splits') (hsplits : splits.Perm splits')
    {p : Package} (hfuse : Package.fuse (shardAt splits point) metadata = .ok p) :
    ∃ q, Package.fuse (shardAt splits' point) metadata = .ok q ∧ p.SameButModules q := by
  have hshard := shardAt_perm hsplits point
  have htargeting : Targeting.combine ((shardAt splits point).map Split.targeting) =
      Targeting.combine ((shardAt splits' point).map Split.targeting) :=
    Targeting.combine_of_mem_iff fun t => (hshard.map Split.targeting).mem_iff
  have hmodules :
      (shardModules (shardAt splits point)).Perm (shardModules (shardAt splits' point)) := by
    have hnames' : (others.map AppModule.name).Nodup := (hperm.map _).nodup_iff.mp hnames
    rw [shardModules_shardAt h, shardModules_shardAt h', eraseDups_of_nodup hnames,
      eraseDups_of_nodup hnames']
    exact hperm.map _
  have hother := Package.exists_fuse_of_mem_iff hfuse
    fun e => mem_fusedEntries_of_perm hperm hnames horder h h' hsplits e
  obtain ⟨files, _, rfl⟩ := Package.fuse_eq_ok_iff.mp hfuse
  refine ⟨_, hother, ?_⟩
  rw [← htargeting]
  constructor
  · rfl
  · rfl
  · rfl
  · exact hmodules

/-- A bundle that can be packed can be packed in another order of its modules, to the same
packages. -/
theorem exists_shardBundle_of_perm {packages : List Package}
    (h : shardBundle modules dimensions options metadata = .ok packages) :
    ∃ packages', shardBundle others dimensions options metadata = .ok packages' ∧
      List.Forall₂ Package.SameButModules packages packages' := by
  refine exists_shardBundle_of_fuse (gridPoints_of_perm hperm) (abisAgree_of_perm hperm)
    (fun splits hsplits => ?_) h
  obtain ⟨splits', hsplits', hsame⟩ := exists_bundleSplits_of_perm hperm hsplits
  refine ⟨splits', hsplits', fun point p hp => ?_⟩
  exact exists_fuse_of_perm hperm hnames horder hsplits hsplits' hsame hp

end DistinctNames

/-- Packing a bundle of different modules in two orders fails in both or gives the same packages
in both, if the modules other than the base module that have dex files or a manifest keep their
order. -/
theorem alike_shardBundle_of_perm (dimensions : OrderedSet Dimension) (options : ShardingOptions)
    (metadata : Metadata) (hperm : modules.Perm others)
    (hnames : (modules.map AppModule.name).Nodup)
    (horder : modules.filter AppModule.keepsPlace = others.filter AppModule.keepsPlace) :
    Alike (List.Forall₂ Package.SameButModules)
      (shardBundle modules dimensions options metadata)
      (shardBundle others dimensions options metadata) := by
  apply alike_of_forall
  · intro packages h
    exact exists_shardBundle_of_perm hperm hnames horder h
  · intro packages h
    have hnames' : (others.map AppModule.name).Nodup := (hperm.map _).nodup_iff.mp hnames
    obtain ⟨packages', h', _⟩ := exists_shardBundle_of_perm hperm.symm hnames' horder.symm h
    exact ⟨packages', h'⟩

/-- A base module between two modules with dex files and manifests, and a module with neither. -/
def orderedModules : List AppModule :=
  [{ name := "feature"
     entries := [⟨"dex/classes.dex", ⟨#[1]⟩⟩, ⟨"manifest/AndroidManifest.xml", ⟨#[2]⟩⟩] },
    { name := baseName, entries := [⟨"dex/classes.dex", ⟨#[3]⟩⟩, ⟨"lib/x86/libmain.so", ⟨#[4]⟩⟩] },
    { name := "texts", entries := [⟨"assets/terms", ⟨#[5]⟩⟩] },
    { name := "extra"
      entries := [⟨"dex/classes.dex", ⟨#[6]⟩⟩, ⟨"manifest/AndroidManifest.xml", ⟨#[7]⟩⟩] }]

/-- The same modules, the base module last and the module with neither first. -/
def movedModules : List AppModule :=
  [orderedModules[2], orderedModules[0], orderedModules[3], orderedModules[1]]

/-- The modules have the same packages in both orders. -/
theorem alike_shardBundle_orderedModules :
    ∃ packages packages',
      shardBundle orderedModules (.ofList Dimension.all) {} ∅ = .ok packages ∧
      shardBundle movedModules (.ofList Dimension.all) {} ∅ = .ok packages' ∧
      List.Forall₂ Package.SameButModules packages packages' := by
  have hperm : orderedModules.Perm movedModules := by decide
  have hnames : (orderedModules.map AppModule.name).Nodup := by decide
  have horder : orderedModules.filter AppModule.keepsPlace =
      movedModules.filter AppModule.keepsPlace := by decide
  have halike := alike_shardBundle_of_perm (.ofList Dimension.all) {} ∅ hperm hnames horder
  obtain ⟨packages, h⟩ := exists_of_isSome_toOption
    (x := shardBundle orderedModules (.ofList Dimension.all) {} ∅) (by decide +kernel)
  cases h' : shardBundle movedModules (.ofList Dimension.all) {} ∅ with
  | ok packages' =>
    rw [h, h'] at halike
    exact ⟨packages, packages', h, rfl, halike⟩
  | error e =>
    rw [h, h'] at halike
    exact halike.elim

end AppBundle
