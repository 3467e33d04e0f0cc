import AppBundle.Proofs.ShardEntries

/-!
# Shards are self-contained and tile the grid

Every shard of a plan is complete in itself: of every module it holds what is for
all packages, the native libraries of its architecture, and of each resource with
variants the one that suits its density class best. Nothing is lost, repeated or
put where it does not belong.
-/

namespace AppBundle

/-- The entries of a module in the shard at a point of the grid are complete. -/
structure AppModule.Carries (m : AppModule) (dimensions : OrderedSet Dimension)
    (point : Option Abi × Option Density) (carried : List Entry) : Prop where
  /-- Nothing is made up. -/
  entries : ∀ e ∈ carried, e ∈ m.entries
  /-- No path occurs twice. -/
  paths : (carried.map Entry.path).Nodup
  /-- What is no native library of an architecture, no variant for a density and no part of a
  system image is there once. -/
  common : ∀ e ∈ m.entries, m.isCommon dimensions e → carried.count e = 1
  /-- Native libraries are there once if they are of the architecture of the point. -/
  libraries : .abi ∈ dimensions → ∀ e ∈ m.entries, ∀ a, e.abi? = some a →
    carried.count e = if point.1 = some a then 1 else 0
  /-- Of each resource with variants one is there, the one that suits the density class of the
  point best among the densities that the resource has in the module. -/
  variants : .screenDensity ∈ dimensions → ∀ k ∈ DensityVariant.keys m.variants,
    ∃ d v, point.2 = some d ∧ v ∈ m.variants ∧
      Density.bestMatch d.dpi (DensityVariant.densities m.variants k).toList = some v.density ∧
      (carried.filterMap DensityVariant.ofEntry?).filter (·.key = k) = [v]
  /-- System images and what goes with them are not there. -/
  images : ∀ e ∈ m.entries, (m.imageSet? e).isSome → e ∉ carried

namespace AppModule

variable {m : AppModule} {dimensions : OrderedSet Dimension}
variable {point : Option Abi × Option Density} {carried : List Entry}

/-- What is carried does not depend on the order. -/
theorem Carries.of_perm {others : List Entry} (h : m.Carries dimensions point others)
    (hperm : carried.Perm others) : m.Carries dimensions point carried where
  entries e he := h.entries e (hperm.mem_iff.mp he)
  paths := (hperm.map Entry.path).nodup_iff.mpr h.paths
  common e he hcommon := by rw [hperm.count_eq, h.common e he hcommon]
  libraries hdim e he a ha := by rw [hperm.count_eq, h.libraries hdim e he a ha]
  variants hdim k hk := by
    obtain ⟨d, v, hd, hv, hbest, hone⟩ := h.variants hdim k hk
    have hsame := (hperm.filterMap DensityVariant.ofEntry?).filter (·.key = k)
    rw [hone, List.perm_singleton] at hsame
    exact ⟨d, v, hd, hv, hbest, hsame⟩
  images e he hset hmem := h.images e he hset (hperm.mem_iff.mp hmem)

/-- The entries for a density class are variants. -/
theorem isSome_of_mem_densityEntries {d : Density} {e : Entry} (he : e ∈ m.densityEntries d) :
    e ∈ m.entries ∧ (DensityVariant.ofEntry? e).isSome := by
  obtain ⟨k, _, hbest⟩ := List.mem_filterMap.mp he
  obtain ⟨v, hv, hve, _⟩ := DensityVariant.mem_of_best? hbest
  obtain ⟨e', he', hev⟩ := mem_variants.mp hv
  obtain rfl : e' = e := (DensityVariant.entry_of_ofEntry? hev).symm.trans hve
  exact ⟨he', by rw [hev, Option.isSome_some]⟩

/-- The entries for the architecture of a point have that architecture. -/
theorem mem_librariesAt {e : Entry} :
    e ∈ point.1.elim [] (fun a => m.entries.filter (·.abi? = some a)) ↔
      e ∈ m.entries ∧ ∃ a, point.1 = some a ∧ e.abi? = some a := by
  cases point.1 <;> simp

/-- The entries for the density class of a point are made for that class. -/
theorem mem_variantsAt {e : Entry} :
    e ∈ point.2.elim [] m.densityEntries ↔ ∃ d, point.2 = some d ∧ e ∈ m.densityEntries d := by
  cases point.2 <;> simp

/-- The entries for a point are found in one of three ways. -/
theorem mem_entriesAt {e : Entry} :
    e ∈ m.entriesAt dimensions point ↔
      (e ∈ m.entries ∧ m.isCommon dimensions e) ∨
        (e ∈ m.entries ∧ ∃ a, point.1 = some a ∧ e.abi? = some a) ∨
          ∃ d, point.2 = some d ∧ e ∈ m.densityEntries d := by
  rw [entriesAt, List.mem_append, List.mem_append, List.mem_filter, mem_librariesAt,
    mem_variantsAt, or_assoc]

/-- An entry for all packages is not divided in any dimension. -/
theorem isCommon_iff {e : Entry} :
    m.isCommon dimensions e ↔ (.abi ∈ dimensions → e.abi? = none) ∧
      (.screenDensity ∈ dimensions → DensityVariant.ofEntry? e = none) ∧
        m.imageSet? e = none := by
  simp only [isCommon, Bool.and_eq_true, Bool.not_eq_true', Option.isNone_iff_eq_none, and_assoc]
  refine and_congr ?_ (and_congr ?_ Iff.rfl)
  · by_cases hdim : .abi ∈ dimensions <;> simp [hdim]
  · by_cases hdim : .screenDensity ∈ dimensions <;> simp [hdim]

/-- When resources are divided, the variants among the entries for a point are those for its
density class. -/
theorem filterMap_entriesAt (hdim : .screenDensity ∈ dimensions) :
    (m.entriesAt dimensions point).filterMap DensityVariant.ofEntry? =
      (point.2.elim [] m.densityEntries).filterMap DensityVariant.ofEntry? := by
  have hcommon : (m.entries.filter (m.isCommon dimensions)).filterMap
      DensityVariant.ofEntry? = [] := by
    refine List.filterMap_eq_nil_iff.mpr fun e he => ?_
    exact (isCommon_iff.mp (List.mem_filter.mp he).2).2.1 hdim
  have hlibraries : (point.1.elim [] fun a => m.entries.filter (·.abi? = some a)).filterMap
      DensityVariant.ofEntry? = [] := by
    refine List.filterMap_eq_nil_iff.mpr fun e he => ?_
    obtain ⟨_, a, _, ha⟩ := mem_librariesAt.mp he
    exact ofEntry?_of_abi? ha
  rw [entriesAt, List.filterMap_append, List.filterMap_append, hcommon, hlibraries]
  rfl

/-- Native libraries are among the entries for the point of their architecture only. -/
theorem mem_entriesAt_of_abi? (hdim : .abi ∈ dimensions) {e : Entry} (he : e ∈ m.entries) {a : Abi}
    (ha : e.abi? = some a) : e ∈ m.entriesAt dimensions point ↔ point.1 = some a := by
  rw [mem_entriesAt]
  constructor
  · rintro (⟨_, hcommon⟩ | ⟨_, b, hb, heb⟩ | ⟨d, _, hmem⟩)
    · rw [(isCommon_iff.mp hcommon).1 hdim] at ha
      cases ha
    · rw [hb, ← heb, ha]
    · have hvariant := (isSome_of_mem_densityEntries hmem).2
      rw [ofEntry?_of_abi? ha] at hvariant
      cases hvariant
  · exact fun hpoint => .inr (.inl ⟨he, a, hpoint, ha⟩)

/-- What goes with system images is not among the entries for a point. -/
theorem not_mem_entriesAt_of_imageSet? {e : Entry} (hset : (m.imageSet? e).isSome) :
    e ∉ m.entriesAt dimensions point := by
  obtain ⟨s, hs⟩ := Option.isSome_iff_exists.mp hset
  rw [mem_entriesAt]
  rintro (⟨_, hcommon⟩ | ⟨_, a, _, ha⟩ | ⟨d, _, hmem⟩)
  · rw [(isCommon_iff.mp hcommon).2.2] at hs
    cases hs
  · rw [abi?_of_imageSet? hs] at ha
    cases ha
  · have hvariant := (isSome_of_mem_densityEntries hmem).2
    rw [ofEntry?_of_imageSet? hs] at hvariant
    cases hvariant

section EntriesAt

variable (hpaths : (m.entries.map Entry.path).Nodup)
variable (habi : ∀ a, point.1 = some a → .abi ∈ dimensions)
variable (hdensity : ∀ d, point.2 = some d → .screenDensity ∈ dimensions)

include hpaths habi hdensity

/-- No entry is found in two ways or twice in one way. -/
theorem nodup_entriesAt : (m.entriesAt dimensions point).Nodup := by
  have hentries : m.entries.Nodup := hpaths.of_map
  have hlibraries : (point.1.elim [] fun a => m.entries.filter (·.abi? = some a)).Nodup := by
    cases point.1 with
    | none => exact List.nodup_nil
    | some a => exact hentries.filter _
  have hvariants : (point.2.elim [] m.densityEntries).Nodup := by
    cases point.2 with
    | none => exact List.nodup_nil
    | some d => exact (nodup_paths_densityEntries m d).of_map
  refine List.nodup_append.mpr ⟨List.nodup_append.mpr ⟨hentries.filter _, hlibraries, ?_⟩,
    hvariants, ?_⟩
  · intro e he f hf hef
    subst hef
    obtain ⟨_, a, ha, hea⟩ := mem_librariesAt.mp hf
    have hcommon := isCommon_iff.mp (List.mem_filter.mp he).2
    rw [hcommon.1 (habi a ha)] at hea
    cases hea
  · intro e he f hf hef
    subst hef
    obtain ⟨d, hd, hmem⟩ := mem_variantsAt.mp hf
    obtain ⟨_, hvariant⟩ := isSome_of_mem_densityEntries hmem
    rcases List.mem_append.mp he with he | he
    · have hcommon := isCommon_iff.mp (List.mem_filter.mp he).2
      rw [hcommon.2.1 (hdensity d hd)] at hvariant
      cases hvariant
    · obtain ⟨_, a, _, ha⟩ := mem_librariesAt.mp he
      rw [ofEntry?_of_abi? ha] at hvariant
      cases hvariant

/-- The entries for a point are complete, if the point has a density class when resources
are divided. -/
theorem carries_entriesAt
    (hsome : .screenDensity ∈ dimensions → m.variants ≠ [] → point.2 ≠ none) :
    m.Carries dimensions point (m.entriesAt dimensions point) := by
  have hnodup := nodup_entriesAt hpaths habi hdensity
  have hentries : ∀ e ∈ m.entriesAt dimensions point, e ∈ m.entries := by
    intro e he
    rcases mem_entriesAt.mp he with he | he | ⟨d, _, he⟩
    · exact he.1
    · exact he.1
    · exact (isSome_of_mem_densityEntries he).1
  refine ⟨hentries, ?_, ?_, ?_, ?_, ?_⟩
  · refine hnodup.map_on fun e he f hf hef => ?_
    exact List.inj_on_of_nodup_map hpaths (hentries e he) (hentries f hf) hef
  · intro e he hcommon
    exact List.count_eq_one_of_mem hnodup (mem_entriesAt.mpr (.inl ⟨he, hcommon⟩))
  · intro hdim e he a ha
    have hmem : e ∈ m.entriesAt dimensions point ↔ point.1 = some a :=
      mem_entriesAt_of_abi? hdim he ha
    by_cases hpoint : point.1 = some a
    · rw [if_pos hpoint]
      exact List.count_eq_one_of_mem hnodup (hmem.mpr hpoint)
    · rw [if_neg hpoint]
      exact List.count_eq_zero_of_not_mem (mt hmem.mp hpoint)
  · intro hdim k hk
    have hvariants : m.variants ≠ [] := by
      obtain ⟨v, hv, _⟩ := List.mem_map.mp (OrderedSet.mem_ofList.mp hk)
      exact List.ne_nil_of_mem hv
    obtain ⟨d, hd⟩ := Option.ne_none_iff_exists'.mp (hsome hdim hvariants)
    obtain ⟨v, hv, _, hbest, hone⟩ := filter_key_densityEntries d hk
    refine ⟨d, v, hd, hv, hbest, ?_⟩
    rw [filterMap_entriesAt hdim, hd]
    exact hone
  · exact fun e _ hset => not_mem_entriesAt_of_imageSet? hset

end EntriesAt

end AppModule

/-- A shard is complete at a point of the grid. -/
structure Covers (modules : List AppModule) (dimensions : OrderedSet Dimension)
    (point : Option Abi × Option Density) (shard : Shard) : Prop extends IsAt point shard where
  /-- Every split belongs to a module of the bundle, and none serves sets of architectures. -/
  moduleName : ∀ s ∈ shard, (∃ m ∈ modules, s.moduleName = m.name) ∧
    s.targeting.hasMultiAbi = false
  /-- The entries of every module are complete. -/
  carries : ∀ m ∈ modules, m.Carries dimensions point (carriedEntries shard m.name)

variable {modules : List AppModule} {dimensions : OrderedSet Dimension}
variable {options : ShardingOptions} {shards : List Shard}

/-- The shards of a plan tile the grid of architectures and density classes, each point once
and row by row, and every shard is complete at its point. What is kept out of the shards as
part of a system image is exactly what the splits for sets of architectures hold. -/
theorem covers_of_planShards (hnames : (modules.map AppModule.name).Nodup)
    (hpaths : ∀ m ∈ modules, (m.entries.map Entry.path).Nodup)
    (h : planShards modules dimensions options none = .ok shards) :
    (gridPoints modules dimensions options).Nodup ∧
      List.Forall₂ (Covers modules dimensions) (gridPoints modules dimensions options) shards ∧
      ∀ m ∈ modules, ∃ own, m.splits dimensions options = .ok own ∧
        ∀ e ∈ m.entries, (m.imageSet? e).isSome ↔
          ∃ s ∈ own, s.targeting.hasMultiAbi ∧ e ∈ s.entries := by
  obtain ⟨splits, hsplits, hagree, rfl⟩ := exists_of_planShards h
  refine ⟨nodup_gridPoints modules dimensions options, ?_, fun m hm => ?_⟩
  · rw [List.forall₂_map_right_iff, List.forall₂_same]
    intro point hpoint
    refine ⟨isAt_shardAt hsplits hagree hpoint, fun s hs => ?_, fun m hm => ?_⟩
    · obtain ⟨m, hm, hpart⟩ := exists_isPart hsplits (mem_of_mem_shardAt hs)
      exact ⟨⟨m, hm, hpart.moduleName⟩, hasMultiAbi_of_mem_shardAt hsplits hs⟩
    · have hcarried := carriedEntries_perm hnames hsplits hm (hpaths m hm) hpoint
      refine AppModule.Carries.of_perm ?_ hcarried
      refine AppModule.carries_entriesAt (hpaths m hm)
        (fun a ha => (abi_of_mem_gridPoints hpoint ha).1)
        (fun d hd => density_of_mem_gridPoints hpoint hd) fun hdim hvariants hnone => ?_
      have hdensity := (mem_gridPoints.mp hpoint).2
      rw [hnone, none_mem_coordinates] at hdensity
      refine OrderedSet.not_mem_empty Density.ldpi (hdensity ▸ mem_bundleDensities.mpr ⟨m, hm, ?_⟩)
      rw [AppModule.densities, if_pos ⟨hdim, by simpa using hvariants⟩, OrderedSet.mem_ofList]
      exact Density.mem_all _
  · have hown := filter_moduleName_bundleSplits hnames hsplits hm
    exact ⟨_, hown, fun e he => AppModule.isSome_imageSet?_iff (hpaths m hm) hown he⟩

/-- The shards of the sample tile their grid. -/
theorem covers_sampleModules :
    ∃ shards, planShards sampleModules (.ofList Dimension.all) {} none = .ok shards ∧
      List.Forall₂ (Covers sampleModules (.ofList Dimension.all))
        (gridPoints sampleModules (.ofList Dimension.all) {}) shards := by
  have hnames : (sampleModules.map AppModule.name).Nodup := by decide
  have hpaths : ∀ m ∈ sampleModules, (m.entries.map Entry.path).Nodup := by decide
  obtain ⟨shards, h⟩ := exists_plan_sampleModules
  exact ⟨shards, h, (covers_of_planShards hnames hpaths h).2.1⟩

end AppBundle
