import AppBundle.Proofs.Merging
import AppBundle.Proofs.PartTargeting

/-!
# The splits of a module

The parts of a module that serve the same targeting are merged into its splits.
This file says when that succeeds, which targetings the splits have, and which
entries the split of a targeting holds.
-/

namespace AppBundle.AppModule

variable {m : AppModule} {dimensions : OrderedSet Dimension} {options : ShardingOptions}
variable {parts splits : List Split}

/-- The splits that are made of the parts of a module. -/
def splitsOf (parts : List Split) : List Split := (mergedSplits parts).map Split.unnamed

/-- Splits have the targetings of the parts, each once. -/
theorem targetings_splitsOf (parts : List Split) :
    (splitsOf parts).map Split.targeting = (parts.map Split.targeting).eraseDups := by
  rw [splitsOf, List.map_map]
  exact map_targeting_mergedSplits parts

/-- The splits with selected targetings, in the order of the parts. -/
theorem targetings_filter_splitsOf (p : Targeting → Bool) (parts : List Split) :
    ((splitsOf parts).filter fun s => p s.targeting).map Split.targeting =
      ((parts.map Split.targeting).filter p).eraseDups := by
  rw [← filter_eraseDups, ← targetings_splitsOf, List.filter_map]
  rfl

/-- Selecting parts by their targetings and making splits of them commute. -/
theorem filter_splitsOf (q : Targeting → Bool) (parts : List Split) :
    (splitsOf parts).filter (q ·.targeting) = splitsOf (parts.filter (q ·.targeting)) := by
  rw [splitsOf, splitsOf, List.filter_map, ← filter_mergedSplits]
  rfl

/-- A split holds the entries of the parts of its targeting, each path once. -/
theorem entries_of_mem_splitsOf {s : Split} (h : s ∈ splitsOf parts) :
    s.entries = uniquePaths (entriesFor parts s.targeting) := by
  obtain ⟨merged, hmerged, rfl⟩ := List.mem_map.mp h
  obtain ⟨first, _, _, hmerged⟩ := exists_of_mem_mergedSplits hmerged
  exact congrArg Split.entries hmerged

/-- Splits inherit what the parts of a module have in common. -/
theorem isPart_of_mem_splitsOf (h : ∀ p ∈ parts, m.IsPart dimensions options p) {s : Split}
    (hs : s ∈ splitsOf parts) : m.IsPart dimensions options s := by
  have hentries := entries_of_mem_splitsOf hs
  obtain ⟨merged, hmem, rfl⟩ := List.mem_map.mp hs
  obtain ⟨first, hfirst, _, hmerged⟩ := exists_of_mem_mergedSplits hmem
  have hpart := h first hfirst
  rw [hmerged] at hentries ⊢
  refine ⟨⟨hpart.moduleName, hpart.isMaster, fun e he => ?_⟩, hpart.targeting⟩
  rw [hentries] at he
  obtain ⟨p, hp, he⟩ := List.mem_flatMap.mp (mem_of_mem_uniquePaths he)
  exact (h p (List.mem_filter.mp hp).1).entries e he

/-- Dividing a module succeeds when its parts can be made and merged and exactly one
master split comes out. -/
theorem splits_eq_ok_iff :
    m.splits dimensions options = .ok splits ↔
      ∃ parts merged, m.parts dimensions options = .ok parts ∧
        mergeSameTargeting parts = .ok merged ∧ splits = merged.map Split.unnamed ∧
        (splits.filter Split.isMaster).length = 1 := by
  constructor
  · intro h
    obtain ⟨parts, hparts, h⟩ := bind_eq_ok_iff.mp h
    obtain ⟨merged, hmerged, h⟩ := bind_eq_ok_iff.mp h
    dsimp only at h
    by_cases hmasters : ((merged.map Split.unnamed).filter Split.isMaster).length = 1
    · rw [if_pos hmasters] at h
      obtain rfl : merged.map Split.unnamed = splits := Except.ok.inj h
      exact ⟨parts, merged, mapError_eq_ok_iff.mp hparts, mapError_eq_ok_iff.mp hmerged, rfl,
        hmasters⟩
    · rw [if_neg hmasters] at h
      cases h
  · rintro ⟨parts, merged, hparts, hmerged, rfl, hmasters⟩
    refine bind_eq_ok_iff.mpr ⟨parts, mapError_eq_ok_iff.mpr hparts, ?_⟩
    refine bind_eq_ok_iff.mpr ⟨merged, mapError_eq_ok_iff.mpr hmerged, ?_⟩
    exact if_pos hmasters

/-- The splits of a module are made of its parts. -/
theorem exists_parts (h : m.splits dimensions options = .ok splits) :
    ∃ parts, m.parts dimensions options = .ok parts ∧ splits = splitsOf parts := by
  obtain ⟨parts, merged, hparts, hmerged, hsplits, _⟩ := splits_eq_ok_iff.mp h
  exact ⟨parts, hparts, by rw [hsplits, mergeSameTargeting_eq hmerged, splitsOf]⟩

/-- What the splits of a module look like: they serve at most one dimension each, one of
them is untargeted, and each value of a dimension has one split. -/
structure IsDivision (m : AppModule) (dimensions : OrderedSet Dimension)
    (options : ShardingOptions) (splits : List Split) : Prop where
  /-- Every split belongs to the module. -/
  isPart : ∀ s ∈ splits, m.IsPart dimensions options s
  /-- One split is untargeted. -/
  untargeted : (splits.filter (·.targeting.isUntargeted)).map Split.targeting = [.untargeted]
  /-- Every architecture has one split. -/
  forAbi : (splits.filter (·.targeting.hasAbi)).map Split.targeting =
    targetsOf .forAbi (m.abis dimensions options)
  /-- Every density class has one split. -/
  forDensity : (splits.filter (·.targeting.hasDensity)).map Split.targeting =
    targetsOf .forDensity (m.densities dimensions)

/-- The splits selected by targetings that serve a value, but no language, come from the
divisions into architectures, density classes and system images. -/
theorem targetings_filter_of_parts (h : m.parts dimensions options = .ok parts)
    (p : Targeting → Bool) (huntargeted : p .untargeted = false)
    (hlanguage : ∀ l, p (.forLanguage l) = false) :
    ((splitsOf parts).filter fun s => p s.targeting).map Split.targeting =
      ((targetsOf .forAbi (m.abis dimensions options)).filter p ++
        (targetsOf .forDensity (m.densities dimensions)).filter p ++
        (targetsOf .forAbiSet m.imageSets).filter p).eraseDups := by
  obtain ⟨languages, languages', htargetings, _⟩ := targetings_of_parts h
  have hlanguages (ls : List Language) : (ls.map Targeting.forLanguage).filter p = [] := by
    simp [List.filter_eq_nil_iff, hlanguage]
  rw [targetings_filter_splitsOf, htargetings]
  simp only [List.filter_append, List.cons_append, List.filter_cons, huntargeted, hlanguages,
    Bool.false_eq_true, if_false, List.nil_append, List.filter_nil, List.append_nil]

/-- Exactly one split of a module is untargeted. -/
theorem targetings_untargeted_of_parts (h : m.parts dimensions options = .ok parts) :
    ((splitsOf parts).filter (·.targeting.isUntargeted)).map Split.targeting =
      [.untargeted] := by
  obtain ⟨languages, languages', htargetings, _⟩ := targetings_of_parts h
  have hself : Targeting.isUntargeted .untargeted = true := rfl
  have hlanguages (ls : List Language) :
      (ls.map Targeting.forLanguage).filter Targeting.isUntargeted = [] := by
    simp [List.filter_eq_nil_iff, Targeting.isUntargeted_eq]
  rw [targetings_filter_splitsOf, htargetings]
  simp only [List.filter_append, List.cons_append, List.filter_cons, hself, if_true, hlanguages]
  rw [filter_targetsOf_eq_nil (by simp [Targeting.isUntargeted_eq]),
    filter_targetsOf_eq_nil (by simp [Targeting.isUntargeted_eq]),
    filter_targetsOf_eq_nil (by simp [Targeting.isUntargeted_eq])]
  simp [List.eraseDups_cons]

/-- Merging makes of the parts of a module what its splits look like. -/
theorem isDivision_splitsOf (h : m.parts dimensions options = .ok parts) :
    m.IsDivision dimensions options (splitsOf parts) where
  isPart s hs := isPart_of_mem_splitsOf (fun p hp => isPart_of_mem_parts h hp) hs
  untargeted := targetings_untargeted_of_parts h
  forAbi := by
    have hnodup : (targetsOf .forAbi (m.abis dimensions options)).Nodup :=
      nodup_targetsOf _ fun h => injective_of_select Targeting.abi_forAbi h
    rw [targetings_filter_of_parts h Targeting.hasAbi rfl fun _ => rfl,
      filter_targetsOf_eq_self (by simp), filter_targetsOf_eq_nil (by simp),
      filter_targetsOf_eq_nil (by simp), List.append_nil, List.append_nil,
      eraseDups_of_nodup hnodup]
  forDensity := by
    have hnodup : (targetsOf .forDensity (m.densities dimensions)).Nodup :=
      nodup_targetsOf _ fun h => injective_of_select Targeting.density_forDensity h
    rw [targetings_filter_of_parts h Targeting.hasDensity rfl fun _ => rfl,
      filter_targetsOf_eq_nil (by simp), filter_targetsOf_eq_self (by simp),
      filter_targetsOf_eq_nil (by simp), List.append_nil, List.nil_append,
      eraseDups_of_nodup hnodup]

/-- The master splits of a module are its untargeted ones. -/
theorem filter_isMaster (h : ∀ s ∈ splits, m.IsPart dimensions options s) :
    splits.filter Split.isMaster = splits.filter (·.targeting.isUntargeted) :=
  List.filter_congr fun s hs => (h s hs).isMaster

/-- A module can be divided if its parts can be made and no path has two contents in the parts of
one targeting. -/
theorem splits_of_entriesFor (hpaths : ∀ t, PathsConsistent (entriesFor parts t))
    (h : m.parts dimensions options = .ok parts) :
    m.splits dimensions options = .ok (splitsOf parts) := by
  have hname (p : Split) (hp : p ∈ parts) : p.moduleName = m.name :=
    (owns_of_mem_parts h hp).moduleName
  have hdivision := isDivision_splitsOf h
  refine splits_eq_ok_iff.mpr ⟨parts, _, h, mergeSameTargeting_succeeds ?_ hpaths, rfl, ?_⟩
  · intro p hp q hq _
    rw [hname p hp, hname q hq]
  · have hone := congrArg List.length hdivision.untargeted
    rw [List.length_map] at hone
    rw [filter_isMaster hdivision.isPart, hone, List.length_singleton]

/-- A module without a path of two contents can be divided if its parts can be made. -/
theorem splits_of_parts (hpaths : PathsConsistent m.entries)
    (h : m.parts dimensions options = .ok parts) :
    m.splits dimensions options = .ok (splitsOf parts) := by
  refine splits_of_entriesFor (fun t => hpaths.subset fun e he => ?_) h
  obtain ⟨p, hp, he⟩ := List.mem_flatMap.mp he
  exact (owns_of_mem_parts h (List.mem_filter.mp hp).1).entries e he

/-- The splits of a module look as described, whatever is in the module. -/
theorem isDivision_of_splits (h : m.splits dimensions options = .ok splits) :
    m.IsDivision dimensions options splits := by
  obtain ⟨parts, hparts, rfl⟩ := exists_parts h
  exact isDivision_splitsOf hparts

/-- A module without a path of two contents cannot be divided only if a path in it is
refused. -/
theorem refusedPath_of_splits_error {e : ShardError} (hpaths : PathsConsistent m.entries)
    (h : m.splits dimensions options = .error e) : ∃ cause, e = .refusedPath cause := by
  cases hparts : m.parts dimensions options with
  | error cause =>
    rcases bind_eq_error_iff.mp h with h | ⟨parts, hok, _⟩
    · obtain ⟨cause, _, rfl⟩ := mapError_eq_error_iff.mp h
      exact ⟨cause, rfl⟩
    · rw [mapError_eq_ok_iff.mp hok] at hparts
      cases hparts
  | ok parts =>
    rw [splits_of_parts hpaths hparts] at h
    cases h

end AppBundle.AppModule
