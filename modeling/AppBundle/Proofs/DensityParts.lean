import AppBundle.Proofs.ChosenVariants

/-!
# The parts of a split by density

Dividing any untargeted split by density leaves the entries that are not qualified by a density,
and fills one split for each density class. The main statement says which variants these hold: of
each resource the one whose density is the lowest that is not below the class, or else the highest.
-/

namespace AppBundle

namespace Entry

/-- A resource for a density class, with the key that its variants for other classes share. -/
def IsVariant (e : Entry) (k : String) (d : Density) : Prop :=
  ∃ r, ResourcePath.parse? e.path = some r ∧ r.key = k ∧ r.density? = some d

/-- The key of a resource that is qualified by a density. -/
def resourceKey? (e : Entry) : Option String := (DensityVariant.ofEntry? e).map DensityVariant.key

variable {e : Entry} {k : String} {d : Density} {v : DensityVariant}

/-- An entry is a variant with the key and the density that its path tells. -/
theorem ofEntry?_eq_some_iff :
    DensityVariant.ofEntry? e = some v ↔ e.IsVariant v.key v.density ∧ v.entry = e := by
  simp only [DensityVariant.ofEntry?, Option.bind_eq_bind, Option.bind_eq_some_iff, IsVariant]
  constructor
  · rintro ⟨r, hr, c, hc, hv⟩
    obtain rfl := Option.some.inj hv
    exact ⟨⟨r, hr, rfl, hc⟩, rfl⟩
  · rintro ⟨⟨r, hr, hkey, hc⟩, rfl⟩
    exact ⟨r, hr, v.density, hc, by rw [hkey]; rfl⟩

/-- A variant has a key. -/
theorem resourceKey?_eq_some_iff : e.resourceKey? = some k ↔ ∃ d, e.IsVariant k d := by
  rw [resourceKey?, Option.map_eq_some_iff]
  constructor
  · rintro ⟨v, hv, rfl⟩
    exact ⟨v.density, (ofEntry?_eq_some_iff.mp hv).1⟩
  · rintro ⟨d, h⟩
    exact ⟨⟨k, d, e⟩, ofEntry?_eq_some_iff.mpr ⟨h, rfl⟩, rfl⟩

/-- What is no variant has no key. -/
theorem isNone_resourceKey? : e.resourceKey?.isNone = (DensityVariant.ofEntry? e).isNone :=
  Option.isNone_map

end Entry

namespace Split

/-- The entries that are qualified by a density, as variants. -/
def variants (s : Split) : List DensityVariant := s.entries.filterMap DensityVariant.ofEntry?

/-- The density classes for which a split has a variant with a key. -/
def densitiesOf (s : Split) (k : String) : OrderedSet Density :=
  DensityVariant.densities s.variants k

/-- The parts of a split for the density classes, if there are variants. -/
def classParts (s : Split) (variants : List DensityVariant) : List Split :=
  if variants.isEmpty then []
  else
    Density.all.map fun d =>
      s.derive ((DensityVariant.keys variants).toList.filterMap (DensityVariant.best? variants d))
        (.forDensity d ((OrderedSet.ofList Density.all).filter (· ≠ d)))

/-- Dividing by density makes the parts for the density classes. -/
theorem byDensity_eq (s : Split) :
    s.byDensity = s.derive (s.entries.filter (·.resourceKey?.isNone)) .untargeted ::
      s.classParts s.variants := by
  have hrest : (s.entries.filter fun e => (DensityVariant.ofEntry? e).isNone) =
      s.entries.filter (·.resourceKey?.isNone) :=
    List.filter_congr fun e _ => Entry.isNone_resourceKey?.symm
  rw [← hrest]
  rfl

/-- The part for a density class is targeted at it. -/
theorem exists_of_mem_classParts {s p : Split} {variants : List DensityVariant}
    (h : p ∈ s.classParts variants) :
    ∃ d entries, p = s.derive entries
      (.forDensity d ((OrderedSet.ofList Density.all).filter (· ≠ d))) := by
  unfold classParts at h
  split at h
  · cases h
  · obtain ⟨d, _, rfl⟩ := List.mem_map.mp h
    exact ⟨d, _, rfl⟩

/-- Splits of one module and name have the same parts for the same variants. -/
theorem classParts_congr {s t : Split} {variants : List DensityVariant}
    (hmodule : t.moduleName = s.moduleName) (hname : t.splitName = s.splitName) :
    t.classParts variants = s.classParts variants := by
  simp only [classParts, derive, hmodule, hname]

/-- The split of a density class among the parts of a split. Of each resource that the split has
variants of it holds one variant, whose density suits the class best among the densities of these
variants, and it holds nothing else. -/
structure ServesDensity (s : Split) (d : Density) (part : Split) : Prop where
  /-- It is targeted at the class, with the other ones as alternatives. -/
  eq_derive : part = s.derive part.entries
    (.forDensity d ((OrderedSet.ofList Density.all).filter (· ≠ d)))
  /-- There is exactly one variant of each resource, and it suits the class best. -/
  exists_best : ∀ k, (∃ e ∈ s.entries, e.resourceKey? = some k) →
    ∃ e ∈ s.entries, ∃ c, e.IsVariant k c ∧
      Density.IsBestMatch d.dpi (s.densitiesOf k).toList c ∧
      part.entries.filter (·.resourceKey? = some k) = [e]
  /-- All entries are variants that the split has. -/
  mem_entries : ∀ e ∈ part.entries, e ∈ s.entries ∧ e.resourceKey?.isSome

variable {s : Split} {k : String} {d : Density}

/-- The variants of a split are those of its entries. -/
theorem mem_variants {v : DensityVariant} :
    v ∈ s.variants ↔ v.entry ∈ s.entries ∧ v.entry.IsVariant v.key v.density := by
  simp only [variants, List.mem_filterMap, Entry.ofEntry?_eq_some_iff]
  constructor
  · rintro ⟨e, he, hv, rfl⟩
    exact ⟨he, hv⟩
  · rintro ⟨he, hv⟩
    exact ⟨v.entry, he, hv, rfl⟩

/-- A split has a variant for a density class if an entry is one. -/
theorem mem_densitiesOf : d ∈ s.densitiesOf k ↔ ∃ e ∈ s.entries, e.IsVariant k d := by
  simp only [densitiesOf, DensityVariant.densities, OrderedSet.mem_ofList, List.mem_map,
    List.mem_filter, mem_variants, decide_eq_true_eq]
  constructor
  · rintro ⟨v, ⟨⟨he, hv⟩, rfl⟩, rfl⟩
    exact ⟨v.entry, he, hv⟩
  · rintro ⟨e, he, hv⟩
    exact ⟨⟨k, d, e⟩, ⟨⟨he, hv⟩, rfl⟩, rfl⟩

/-- The keys of the variants of a split are those of its entries. -/
theorem mem_keys_variants :
    k ∈ DensityVariant.keys s.variants ↔ ∃ e ∈ s.entries, e.resourceKey? = some k := by
  simp only [DensityVariant.keys, OrderedSet.mem_ofList, List.mem_map, mem_variants,
    Entry.resourceKey?_eq_some_iff]
  constructor
  · rintro ⟨v, ⟨he, hv⟩, rfl⟩
    exact ⟨v.entry, he, v.density, hv⟩
  · rintro ⟨e, he, d, hv⟩
    exact ⟨⟨k, d, e⟩, ⟨he, hv⟩, rfl⟩

/-- A chosen variant is an entry of the split with the key it was chosen for. -/
theorem of_best? {e : Entry} (h : DensityVariant.best? s.variants d k = some e) :
    e ∈ s.entries ∧ e.resourceKey? = some k := by
  obtain ⟨v, hv, rfl, rfl⟩ := DensityVariant.mem_of_best? h
  obtain ⟨he, hvariant⟩ := mem_variants.mp hv
  exact ⟨he, Entry.resourceKey?_eq_some_iff.mpr ⟨_, hvariant⟩⟩

/-- Among the variants for a class there is one with each key. -/
theorem filter_filterMap_best? {e : Entry} (hk : k ∈ DensityVariant.keys s.variants)
    (hbest : DensityVariant.best? s.variants d k = some e) :
    ((DensityVariant.keys s.variants).toList.filterMap
      (DensityVariant.best? s.variants d)).filter (·.resourceKey? = some k) = [e] := by
  have hrows : (DensityVariant.keys s.variants).toList.filterMap
      (DensityVariant.best? s.variants d) =
      ((DensityVariant.keys s.variants).toList.map some).filterMap
        (·.bind (DensityVariant.best? s.variants d)) := by
    rw [List.filterMap_map]
    rfl
  have hnodup : ((DensityVariant.keys s.variants).toList.map some).Nodup :=
    (OrderedSet.nodup_toList _).map fun _ _ => Option.some.inj
  have hkey (j? : Option String) (f : Entry)
      (h : j?.bind (DensityVariant.best? s.variants d) = some f) : f.resourceKey? = j? := by
    obtain ⟨j, rfl, hj⟩ := Option.bind_eq_some_iff.mp h
    exact (of_best? hj).2
  rw [hrows, filter_filterMap_of_key hkey, List.filter_eq,
    List.count_eq_one_of_mem hnodup (List.mem_map_of_mem hk), List.replicate_one]
  simp [hbest]

/-- The split of the best variants serves the class. -/
theorem servesDensity_derive (s : Split) (d : Density) :
    s.ServesDensity d (s.derive
      ((DensityVariant.keys s.variants).toList.filterMap (DensityVariant.best? s.variants d))
      (.forDensity d ((OrderedSet.ofList Density.all).filter (· ≠ d)))) where
  eq_derive := rfl
  exists_best k hk := by
    have hk := mem_keys_variants.mpr hk
    obtain ⟨v, hv, rfl, hmatch, hbest⟩ := DensityVariant.exists_best d hk
    obtain ⟨he, hvariant⟩ := mem_variants.mp hv
    exact ⟨v.entry, he, v.density, hvariant, Density.isBestMatch_of_bestMatch hmatch,
      filter_filterMap_best? hk hbest⟩
  mem_entries e he := by
    obtain ⟨k, _, hbest⟩ := List.mem_filterMap.mp he
    obtain ⟨he, hkey⟩ := of_best? hbest
    exact ⟨he, Option.isSome_of_eq_some hkey⟩

/-- There are variants if an entry is qualified by a density. -/
theorem isEmpty_variants_eq_false_iff :
    s.variants.isEmpty = false ↔ ∃ e ∈ s.entries, e.resourceKey?.isSome := by
  rw [List.isEmpty_eq_false_iff_exists_mem]
  simp only [Option.isSome_iff_exists, Entry.resourceKey?_eq_some_iff, mem_variants]
  constructor
  · rintro ⟨v, he, hv⟩
    exact ⟨v.entry, he, v.key, v.density, hv⟩
  · rintro ⟨e, he, k, d, hv⟩
    exact ⟨⟨k, d, e⟩, he, hv⟩

/-- Dividing an untargeted split by density first leaves the entries that are not qualified by a
density, in their order. If that is not all, a split follows for each density class, from the
lowest to the highest, with the variants that suit the class best. -/
theorem exists_densityParts (h : s.targeting.isUntargeted) :
    ∃ rest parts, Splitter.densityResources.split s = .ok (rest :: parts) ∧
      rest = s.derive (s.entries.filter (·.resourceKey?.isNone)) .untargeted ∧
      ((∀ e ∈ s.entries, e.resourceKey?.isNone) → parts = []) ∧
      ((∃ e ∈ s.entries, e.resourceKey?.isSome) →
        ∃ classes : List Density, classes.Pairwise (·.dpi < ·.dpi) ∧ (∀ d, d ∈ classes) ∧
          List.Forall₂ s.ServesDensity classes parts) := by
  refine ⟨_, _, by rw [Splitter.split, if_pos h, byDensity_eq], rfl, fun hnone => ?_,
    fun hsome => ?_⟩
  · rw [classParts, if_pos]
    rw [← Bool.not_eq_false]
    intro hvariants
    obtain ⟨e, he, hkey⟩ := isEmpty_variants_eq_false_iff.mp hvariants
    rw [Option.isNone_iff_eq_none.mp (hnone e he)] at hkey
    cases hkey
  · refine ⟨Density.all, by decide, Density.mem_all, ?_⟩
    have hvariants := isEmpty_variants_eq_false_iff.mpr hsome
    rw [classParts, if_neg (by simp [hvariants]), List.forall₂_map_right_iff]
    exact List.forall₂_same.mpr fun d _ => servesDensity_derive s d

/-- Resources of a base module: an icon for two density classes, and texts. -/
def sampleResources : Split :=
  ofEntries baseName
    [⟨"res/drawable-mdpi/icon.png", ⟨#[1]⟩⟩, ⟨"res/values/strings.xml", ⟨#[2]⟩⟩,
      ⟨"res/drawable-xhdpi/icon.png", ⟨#[3]⟩⟩] .untargeted

/-- The icon goes into a split for each class, and the texts stay. -/
theorem exists_densityParts_sampleResources :
    sampleResources.targeting.isUntargeted ∧
      ∃ rest parts, Splitter.densityResources.split sampleResources = .ok (rest :: parts) ∧
        rest.entries = [⟨"res/values/strings.xml", ⟨#[2]⟩⟩] ∧
        ∃ classes : List Density, classes.Pairwise (·.dpi < ·.dpi) ∧ (∀ d, d ∈ classes) ∧
          List.Forall₂ sampleResources.ServesDensity classes parts := by
  have huntargeted : sampleResources.targeting.isUntargeted := by decide
  obtain ⟨rest, parts, hsplit, hrest, _, hparts⟩ := exists_densityParts huntargeted
  have hicon : ∃ e ∈ sampleResources.entries, e.resourceKey?.isSome := by decide +kernel
  refine ⟨huntargeted, rest, parts, hsplit, ?_, hparts hicon⟩
  rw [hrest]
  decide +kernel

end Split

end AppBundle
