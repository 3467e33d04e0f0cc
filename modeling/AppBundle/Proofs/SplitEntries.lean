import AppBundle.Proofs.ChosenVariants
import AppBundle.Proofs.CommonEntries
import AppBundle.Proofs.ModuleSplits
import Mathlib.Data.List.Flatten

/-!
# The entries of the splits of a module

If no path of a module occurs twice, merging its parts loses and repeats nothing.
The split of an architecture holds the native libraries of the architecture, the
split of a density class holds the variants for that class, and the splits for
all packages hold all other entries but the system images.
-/

namespace AppBundle.AppModule

variable {m : AppModule} {dimensions : OrderedSet Dimension} {options : ShardingOptions}
variable {parts splits : List Split}

/-- Merging selected parts keeps their entries if no path occurs twice in them. -/
theorem entries_splitsOf_perm (p : Targeting → Bool)
    (hnodup : (((parts.filter (p ·.targeting)).flatMap Split.entries).map Entry.path).Nodup) :
    (((splitsOf parts).filter (p ·.targeting)).flatMap Split.entries).Perm
      ((parts.filter (p ·.targeting)).flatMap Split.entries) := by
  let selected := parts.filter (p ·.targeting)
  let targetings := (selected.map Split.targeting).eraseDups
  have hentries (s : Split) (hs : s ∈ splitsOf selected) :
      s.entries = entriesFor selected s.targeting := by
    rw [entries_of_mem_splitsOf hs, uniquePaths_of_nodup]
    exact hnodup.sublist ((List.filter_sublist.flatMap _).map _)
  have hsplits : (splitsOf selected).flatMap Split.entries =
      targetings.flatMap (entriesFor selected) := by
    have htargetings : targetings = (splitsOf selected).map Split.targeting :=
      (targetings_splitsOf selected).symm
    rw [List.flatMap_congr hentries, htargetings, List.flatMap_map]
  have hclasses : (targetings.flatMap fun t => selected.filter (·.targeting = t)).Perm
      selected :=
    perm_flatMap_filter (nodup_eraseDups _) fun s hs =>
      List.mem_eraseDups.mpr (List.mem_map_of_mem hs)
  have hgather : targetings.flatMap (entriesFor selected) =
      (targetings.flatMap fun t => selected.filter (·.targeting = t)).flatMap Split.entries := by
    rw [List.flatMap_assoc]
    rfl
  rw [filter_splitsOf, hsplits, hgather]
  exact hclasses.flatMap_right _

section Splits

variable (hpaths : (m.entries.map Entry.path).Nodup)
variable (h : m.splits dimensions options = .ok splits)
include h

include hpaths in
/-- The splits for all packages hold the entries for all packages, each once. -/
theorem common_splits :
    ((splits.filter (·.targeting.isCommon)).flatMap Split.entries).Perm
      (m.entries.filter (m.isCommon dimensions)) := by
  obtain ⟨parts, hparts, rfl⟩ := exists_parts h
  have hcommon := common_parts hpaths hparts
  refine (entries_splitsOf_perm Targeting.isCommon ?_).trans hcommon
  rw [(hcommon.map Entry.path).nodup_iff]
  exact hpaths.sublist (List.filter_sublist.map _)

include hpaths in
/-- An entry goes with system images if it is in a split for a set of architectures. -/
theorem isSome_imageSet?_iff {e : Entry} (he : e ∈ m.entries) :
    (m.imageSet? e).isSome ↔ ∃ s ∈ splits, s.targeting.hasMultiAbi ∧ e ∈ s.entries := by
  obtain ⟨parts, hparts, rfl⟩ := exists_parts h
  have himages := multiAbi_parts hpaths hparts
  have hsplits := (entries_splitsOf_perm Targeting.hasMultiAbi (by
    rw [(himages.map Entry.path).nodup_iff]
    exact hpaths.sublist (List.filter_sublist.map _))).trans himages
  have hmem := hsplits.mem_iff (a := e)
  rw [List.mem_flatMap, List.mem_filter] at hmem
  constructor
  · intro hset
    obtain ⟨s, hs, hes⟩ := hmem.mpr ⟨he, hset⟩
    obtain ⟨hs, hmulti⟩ := List.mem_filter.mp hs
    exact ⟨s, hs, hmulti, hes⟩
  · rintro ⟨s, hs, hmulti, hes⟩
    exact (hmem.mp ⟨s, List.mem_filter.mpr ⟨hs, hmulti⟩, hes⟩).2

include hpaths in
/-- The split of an architecture holds the native libraries of the architecture. -/
theorem entries_of_forAbi {a : Abi} (ha : a ∈ m.abis dimensions options) {s : Split}
    (hs : s ∈ splits)
    (ht : s.targeting = .forAbi a ((m.abis dimensions options).filter (· ≠ a))) :
    s.entries = m.entries.filter (·.abi? = some a) := by
  obtain ⟨parts, hparts, rfl⟩ := exists_parts h
  rw [entries_of_mem_splitsOf hs, ht, entriesFor_forAbi hparts ha, uniquePaths_of_nodup]
  exact hpaths.sublist (List.filter_sublist.map _)

/-- The split of a density class holds the variants that suit the class best. -/
theorem entries_of_forDensity {d : Density} (hd : d ∈ m.densities dimensions) {s : Split}
    (hs : s ∈ splits)
    (ht : s.targeting = .forDensity d ((m.densities dimensions).filter (· ≠ d))) :
    s.entries = m.densityEntries d := by
  obtain ⟨parts, hparts, rfl⟩ := exists_parts h
  rw [entries_of_mem_splitsOf hs, ht, entriesFor_forDensity hparts hd,
    uniquePaths_of_nodup (nodup_paths_densityEntries m d)]

end Splits

end AppBundle.AppModule
