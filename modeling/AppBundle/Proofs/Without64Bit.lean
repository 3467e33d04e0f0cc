import AppBundle.Proofs.DevicePackages
import AppBundle.Proofs.RefusedPaths

/-!
# Bundles without 64-bit libraries

Whether there are packages for 64-bit architectures is decided in the middle of one splitter, where
libraries are told from stray files. This file proves that deciding against them is the same as not
having the libraries: the modules without them are divided, planned and packed with the same
results and the same failures, and nothing that comes out is for a 64-bit architecture.
-/

namespace AppBundle

/-- A native library for a 64-bit architecture. -/
def Entry.Is64BitLibrary (e : Entry) : Prop := ∃ a : Abi, a.is64Bit ∧ e.IsLibraryOf a

section Libraries

variable {e : Entry}

/-- A library for a 64-bit architecture has such an architecture. -/
theorem Entry.is64BitLibrary_iff : e.Is64BitLibrary ↔ e.abi?.any Abi.is64Bit := by
  simp only [Is64BitLibrary, ← abi?_eq_some_iff, Option.any_eq_true, and_comm]

instance : DecidablePred Entry.Is64BitLibrary := fun _ =>
  decidable_of_iff _ Entry.is64BitLibrary_iff.symm

/-- Libraries for 64-bit architectures are native libraries. -/
theorem Entry.Is64BitLibrary.category (h : e.Is64BitLibrary) : e.category = .nativeLibraries := by
  obtain ⟨a, _, hlibrary⟩ := h
  exact Entry.category_of_abi? (Entry.abi?_eq_some_iff.mpr hlibrary)

/-- Only what is kept needs to be labelled: a library that is left out is never refused. -/
theorem labelLibraries_filter (entries : List Entry) :
    labelLibraries (entries.filter (¬ ·.Is64BitLibrary)) =
      (labelLibraries entries).map (·.filter fun l => !l.2.any Abi.is64Bit) := by
  refine mapM_filter (fun e l h => ?_) (fun e h => ?_) entries
  · obtain ⟨abi?, habi, h⟩ := bind_eq_ok_iff.mp h
    obtain rfl := Except.ok.inj h
    have hlabel : e.abi? = abi? := by rw [Entry.abi?, habi, acceptedLabel]
    simp [Entry.is64BitLibrary_iff, hlabel]
  · obtain ⟨a, _, hlibrary⟩ : e.Is64BitLibrary := by simpa using h
    exact ⟨_, bind_eq_ok_iff.mpr ⟨_, hlibrary.libraryAbi_eq, rfl⟩⟩

/-- Dividing without the 64-bit architectures is dividing what has none of their libraries. -/
theorem Split.byLibraryAbi_false (s : Split) :
    s.byLibraryAbi false =
      { s with entries := s.entries.filter (¬ ·.Is64BitLibrary) }.byLibraryAbi true := by
  rw [byLibraryAbi, byLibraryAbi, labelLibraries_filter]
  cases labelLibraries s.entries with
  | error cause => rfl
  | ok labelled =>
    -- with all architectures the splitter drops nothing any more
    have hall (l : Entry × Option Abi) (_ : l ∈ labelled.filter fun l => !l.2.any Abi.is64Bit) :
        (true || !l.2.any Abi.is64Bit) = true := rfl
    refine congrArg Except.ok ?_
    change s.divide _ _ = s.divide (List.filter (fun l => true || !l.2.any Abi.is64Bit) _) _
    rw [List.filter_eq_self.mpr hall]
    rfl

end Libraries

namespace AppModule

variable (m : AppModule) {dimensions : OrderedSet Dimension}

/-- The module without the libraries for 64-bit architectures. -/
def without64Bit : AppModule := { m with entries := m.entries.filter (¬ ·.Is64BitLibrary) }

/-- Of every kind of content the module lacks the libraries for 64-bit architectures. -/
theorem entriesIn_without64Bit (c : Category) :
    m.without64Bit.entriesIn c = (m.entriesIn c).filter (¬ ·.Is64BitLibrary) :=
  List.filter_comm ..

/-- The native libraries of the module are those that are left. -/
theorem split_without64Bit_nativeLibraries :
    m.without64Bit.split .nativeLibraries =
      { m.split .nativeLibraries with
        entries := (m.split .nativeLibraries).entries.filter (¬ ·.Is64BitLibrary) } :=
  congrArg (fun entries => { m.split .nativeLibraries with entries })
    (m.entriesIn_without64Bit .nativeLibraries)

/-- Nothing else is missing. -/
theorem split_without64Bit (c : Category) (hc : c ≠ .nativeLibraries) :
    m.without64Bit.split c = m.split c := by
  have hentries : m.without64Bit.entriesIn c = m.entriesIn c := by
    rw [entriesIn_without64Bit, List.filter_eq_self]
    intro e he
    have hcategory : e.category = c := by simpa using (List.mem_filter.mp he).2
    exact decide_eq_true fun h => hc (hcategory.symm.trans h.category)
  rw [split, hentries]
  rfl

variable (options : ShardingOptions)

/-- The native libraries that are left are divided in the same way. -/
theorem nativeLibraries_split_without64Bit (h : .abi ∈ dimensions) :
    (Pipeline.nativeLibraries dimensions { options with generate64Bit := false }).split
        (m.split .nativeLibraries) =
      (Pipeline.nativeLibraries dimensions { options with generate64Bit := true }).split
        (m.without64Bit.split .nativeLibraries) := by
  rw [Pipeline.nativeLibraries, Pipeline.nativeLibraries, if_pos h, if_pos h,
    Pipeline.split_singleton, Pipeline.split_singleton, split_without64Bit_nativeLibraries]
  exact Split.byLibraryAbi_false _

/-- The module without 64-bit libraries has the parts that are made without 64-bit
architectures. -/
theorem parts_without64Bit (h : .abi ∈ dimensions) :
    m.parts dimensions { options with generate64Bit := false } =
      m.without64Bit.parts dimensions { options with generate64Bit := true } := by
  rw [parts, parts, m.nativeLibraries_split_without64Bit options h,
    m.split_without64Bit .resources (by decide), m.split_without64Bit .apexImages (by decide),
    m.split_without64Bit .assets (by decide), m.split_without64Bit .dex (by decide),
    m.split_without64Bit .root (by decide)]
  rfl

/-- The module without 64-bit libraries has the splits that are made without 64-bit
architectures, and fails to have them for the same cause. -/
theorem splits_without64Bit (h : .abi ∈ dimensions) :
    m.splits dimensions { options with generate64Bit := false } =
      m.without64Bit.splits dimensions { options with generate64Bit := true } := by
  rw [splits, splits, m.parts_without64Bit options h]
  rfl

end AppModule

section Bundles

variable {dimensions : OrderedSet Dimension} (modules : List AppModule) (options : ShardingOptions)

/-- The splits of a bundle without 64-bit architectures are those of its modules without 64-bit
libraries. -/
theorem bundleSplits_without64Bit (h : .abi ∈ dimensions) :
    bundleSplits modules dimensions { options with generate64Bit := false } =
      bundleSplits (modules.map AppModule.without64Bit) dimensions
        { options with generate64Bit := true } := by
  rw [bundleSplits, bundleSplits, List.isEmpty_map, List.mapM_map]
  simp only [AppModule.splits_without64Bit _ options h]
  rfl

/-- The same shards are planned, whatever device the plan is restricted to. -/
theorem planShards_without64Bit (h : .abi ∈ dimensions) (filter : Option DeviceFilter) :
    planShards modules dimensions { options with generate64Bit := false } filter =
      planShards (modules.map AppModule.without64Bit) dimensions
        { options with generate64Bit := true } filter := by
  rw [planShards, planShards, bundleSplits_without64Bit modules options h]

/-- The same modules go into a system image. -/
theorem fusedModules_without64Bit :
    fusedModules (modules.map AppModule.without64Bit) = fusedModules modules := by
  rw [fusedModules, fusedModules, List.filter_map, List.map_map]
  rfl

/-- Two bundles, each with its own options, have the same outcomes in all ways of sharding. -/
structure SameOutcomes (modules others : List AppModule) (dimensions : OrderedSet Dimension)
    (options options' : ShardingOptions) (metadata : Metadata) : Prop where
  /-- The same shards are planned, or planning fails for the same cause. -/
  plan : ∀ filter, planShards modules dimensions options filter =
    planShards others dimensions options' filter
  /-- The same standalone packages are made, or making them fails for the same cause. -/
  bundle : shardBundle modules dimensions options metadata =
    shardBundle others dimensions options' metadata
  /-- The same packages are made for every device, or making them fails for the same cause. -/
  device : ∀ filter, shardForDevice modules dimensions options metadata filter =
    shardForDevice others dimensions options' metadata filter

/-- Sharding without 64-bit architectures has the outcomes of sharding the modules without 64-bit
libraries. -/
theorem sameOutcomes_without64Bit (h : .abi ∈ dimensions) (metadata : Metadata) :
    SameOutcomes modules (modules.map AppModule.without64Bit) dimensions
      { options with generate64Bit := false } { options with generate64Bit := true } metadata where
  plan := planShards_without64Bit modules options h
  bundle := by rw [shardBundle, shardBundle, planShards_without64Bit modules options h]
  device filter := by
    rw [shardForDevice, shardForDevice, planShards_without64Bit modules options h,
      fusedModules_without64Bit]

end Bundles

/-- Nothing for a 64-bit architecture: neither a library, nor a targeting. -/
structure Lacks64Bit (entries : List Entry) (targeting : Targeting) : Prop where
  /-- No entry is a library for a 64-bit architecture. -/
  libraries : ∀ e ∈ entries, ¬ e.Is64BitLibrary
  /-- No 64-bit architecture is served. -/
  values : ∀ a ∈ targeting.abi.values, a.is64Bit = false
  /-- No 64-bit architecture is served by a sibling. -/
  alternatives : ∀ a ∈ targeting.abi.alternatives, a.is64Bit = false
  /-- No sets of architectures are targeted. -/
  multiAbi : targeting.hasMultiAbi = false

section Contents

variable {modules : List AppModule} {m : AppModule} {dimensions : OrderedSet Dimension}
variable {options : ShardingOptions} {shard : Shard} {metadata : Metadata} {p : Package}

/-- A module without 64-bit libraries is not divided by 64-bit architectures. -/
theorem is64Bit_eq_false_of_mem_abis {a : Abi} (ha : a ∈ m.without64Bit.abis dimensions options) :
    a.is64Bit = false := by
  obtain ⟨_, _, e, he, hlibrary⟩ := AppModule.mem_abis.mp ha
  have hkept : ¬ e.Is64BitLibrary := by simpa using (List.mem_filter.mp he).2
  exact Bool.eq_false_iff.mpr fun h => hkept ⟨a, h, Entry.abi?_eq_some_iff.mp hlibrary⟩

/-- A part of a module is told apart by architectures of the module only. -/
theorem AppModule.PartTargeting.mem_abis {t : Targeting}
    (h : m.PartTargeting dimensions options t) {a : Abi}
    (ha : a ∈ t.abi.values ∨ a ∈ t.abi.alternatives) : a ∈ m.abis dimensions options := by
  have hnone (hempty : t.abi = ∅) : a ∈ m.abis dimensions options := by
    rw [hempty] at ha
    exact absurd ha (not_or.mpr ⟨OrderedSet.not_mem_empty a, OrderedSet.not_mem_empty a⟩)
  cases h with
  | forAbi h =>
    rcases ha with ha | ha
    · rw [OrderedSet.mem_singleton.mp ha]
      exact h
    · exact (OrderedSet.mem_filter.mp ha).1
  | untargeted => exact hnone rfl
  | forDensity _ => exact hnone rfl
  | forLanguage _ => exact hnone rfl
  | forAbiSet _ => exact hnone rfl

/-- The splits of a plan of modules without 64-bit libraries lack everything for 64-bit
architectures. -/
theorem lacks64Bit_of_mem_planShards {filter : Option DeviceFilter} {shards : List Shard}
    (h : planShards (modules.map AppModule.without64Bit) dimensions options filter = .ok shards)
    (hshard : shard ∈ shards) : ∀ s ∈ shard, Lacks64Bit s.entries s.targeting := by
  intro s hs
  have hclass := ofOneClass_of_mem_planShards h hshard
  obtain ⟨_, hm, hpart⟩ := hclass.isPart s hs
  obtain ⟨m, _, rfl⟩ := List.mem_map.mp hm
  refine ⟨fun e he => ?_, fun a ha => ?_, fun a ha => ?_, hclass.multiAbi s hs⟩
  · simpa using (List.mem_filter.mp (hpart.entries e he)).2
  · exact is64Bit_eq_false_of_mem_abis (hpart.targeting.mem_abis (.inl ha))
  · exact is64Bit_eq_false_of_mem_abis (hpart.targeting.mem_abis (.inr ha))

/-- Selections that are not targeted are not targeted together. -/
theorem Selection.combine_eq_empty {α : Type} [Ord α] [Std.TransOrd α] [Std.LawfulEqOrd α]
    [DecidableEq α] {ss : List (Selection α)} (h : ∀ s ∈ ss, s.isEmpty) : combine ss = ∅ := by
  change combine ss = combine []
  refine combine_congr fun s hs => iff_of_false (fun hmem => ?_) List.not_mem_nil
  rw [h s hmem] at hs
  cases hs

/-- A package lacks everything for 64-bit architectures if its splits do. -/
theorem lacks64Bit_of_fuse (hshard : ∀ s ∈ shard, Lacks64Bit s.entries s.targeting)
    (h : Package.fuse shard metadata = .ok p) : Lacks64Bit p.entries p.targeting := by
  have htargeting := Package.targeting_of_fuse h
  rw [Targeting.combine_eq] at htargeting
  have hselected {α : Type} [Ord α] {select : Targeting → Selection α} {selection : Selection α}
      (h : selection ∈ (shard.map Split.targeting).map select) :
      ∃ s ∈ shard, select s.targeting = selection := by
    rwa [List.map_map, List.mem_map] at h
  constructor
  · intro e he h64
    have hcategory := h64.category
    have hdex : e.category ≠ .dex := by rw [hcategory]; decide
    rw [Package.mem_entries_of_fuse h, mem_fusedEntries_of_category_ne hdex] at he
    rcases he with ⟨s, hs, he, _⟩ | he
    · exact (hshard s hs).libraries e he h64
    · rw [(category_of_mem_metadataEntries he).1] at hcategory
      cases hcategory
  · intro a ha
    rw [htargeting, Selection.mem_values_combine] at ha
    obtain ⟨_, hselection, ha⟩ := ha
    obtain ⟨s, hs, rfl⟩ := hselected hselection
    exact (hshard s hs).values a ha
  · intro a ha
    rw [htargeting, Selection.mem_alternatives_combine] at ha
    obtain ⟨⟨_, hselection, ha⟩, _⟩ := ha
    obtain ⟨s, hs, rfl⟩ := hselected hselection
    exact (hshard s hs).alternatives a ha
  · have hnone : p.targeting.multiAbi = ∅ := by
      rw [htargeting]
      refine Selection.combine_eq_empty fun selection hselection => ?_
      obtain ⟨s, hs, rfl⟩ := hselected hselection
      simpa [Targeting.hasMultiAbi] using (hshard s hs).multiAbi
    rw [Targeting.hasMultiAbi, hnone]
    rfl

end Contents

/-- Nothing that is made of a bundle is for a 64-bit architecture. -/
structure NothingFor64Bit (modules : List AppModule) (dimensions : OrderedSet Dimension)
    (options : ShardingOptions) (metadata : Metadata) : Prop where
  /-- No split of a planned shard is. -/
  plan : ∀ filter shards, planShards modules dimensions options filter = .ok shards →
    ∀ shard ∈ shards, ∀ s ∈ shard, Lacks64Bit s.entries s.targeting
  /-- No standalone package is. -/
  bundle : ∀ packages, shardBundle modules dimensions options metadata = .ok packages →
    ∀ p ∈ packages, Lacks64Bit p.entries p.targeting
  /-- No package for a device is. -/
  device : ∀ filter packages,
    shardForDevice modules dimensions options metadata filter = .ok packages →
    ∀ p ∈ packages.all, Lacks64Bit p.entries p.targeting

/-- Nothing that is made of modules without 64-bit libraries is for a 64-bit architecture. -/
theorem nothingFor64Bit_without64Bit (modules : List AppModule) (dimensions : OrderedSet Dimension)
    (options : ShardingOptions) (metadata : Metadata) :
    NothingFor64Bit (modules.map AppModule.without64Bit) dimensions options metadata where
  plan _ _ h _ hshard := lacks64Bit_of_mem_planShards h hshard
  bundle packages h p hp := by
    obtain ⟨shards, hshards, hfuse⟩ := bind_eq_ok_iff.mp h
    obtain ⟨shard, hshard, hfuse⟩ := exists_of_mem_of_forall₂ (mapM_eq_ok_iff.mp hfuse) hp
    exact lacks64Bit_of_fuse (lacks64Bit_of_mem_planShards hshards hshard) hfuse
  device filter packages h p hp := by
    obtain ⟨shard, hshards, h⟩ := exists_shard_of_shardForDevice h
    have hshard := lacks64Bit_of_mem_planShards hshards (List.mem_singleton_self shard)
    obtain ⟨part, _, hpart, hfuse⟩ := exists_fuse_of_mem_all h hp
    exact lacks64Bit_of_fuse (fun s hs => hshard s (hpart s hs)) hfuse

/-- A bundle that is divided by architecture, but not for 64-bit ones, has the same outcomes as its
modules without 64-bit libraries, and nothing that is made of it is for a 64-bit architecture. -/
theorem sameOutcomes_nothingFor64Bit {dimensions : OrderedSet Dimension} (h : .abi ∈ dimensions)
    (modules : List AppModule) (options : ShardingOptions) (metadata : Metadata) :
    SameOutcomes modules (modules.map AppModule.without64Bit) dimensions
        { options with generate64Bit := false } { options with generate64Bit := true } metadata ∧
      NothingFor64Bit modules dimensions { options with generate64Bit := false } metadata := by
  have hsame := sameOutcomes_without64Bit modules options h metadata
  have hnothing := nothingFor64Bit_without64Bit modules dimensions
    { options with generate64Bit := true } metadata
  refine ⟨hsame, fun filter => ?_, ?_, fun filter => ?_⟩
  · rw [hsame.plan filter]
    exact hnothing.plan filter
  · rw [hsame.bundle]
    exact hnothing.bundle
  · rw [hsame.device filter]
    exact hnothing.device filter

/-- The sample loses its libraries for a 64-bit architecture and is then packed in the same way as
without 64-bit architectures. -/
theorem sameOutcomes_nothingFor64Bit_sampleModules :
    .abi ∈ OrderedSet.ofList Dimension.all ∧
      sampleModules.map AppModule.without64Bit ≠ sampleModules ∧
      ∃ packages, shardBundle sampleModules (.ofList Dimension.all)
          { generate64Bit := false } ∅ = .ok packages ∧
        shardBundle (sampleModules.map AppModule.without64Bit) (.ofList Dimension.all) {} ∅ =
          .ok packages ∧
        ∀ p ∈ packages, Lacks64Bit p.entries p.targeting := by
  have habi : .abi ∈ OrderedSet.ofList Dimension.all := by decide +kernel
  obtain ⟨hsame, hnothing⟩ := sameOutcomes_nothingFor64Bit habi sampleModules {} ∅
  obtain ⟨packages, h⟩ := exists_of_isSome_toOption
    (x := shardBundle sampleModules (.ofList Dimension.all) { generate64Bit := false } ∅)
    (by decide +kernel)
  exact ⟨habi, by decide +kernel, packages, h, hsame.bundle ▸ h, hnothing.bundle packages h⟩

end AppBundle
