import AppBundle.Proofs.MergeSuccess

/-!
# What merging accepts and what it makes

Merging takes one split after another, and compares each with what was made of the splits before
it. This file says without that order which lists of splits can be merged at all, and what becomes
of them: one split for each targeting, in which every path that was there is there once. What has
been merged is not changed by merging it again.
-/

namespace AppBundle

/-- Splits can be merged if those of one targeting belong to one module and give no path two
contents, neither within a split nor in two of them. -/
structure CanMerge (splits : List Split) : Prop where
  /-- No targeting belongs to two modules. -/
  moduleName : ∀ s ∈ splits, ∀ t ∈ splits, s.targeting = t.targeting → s.moduleName = t.moduleName
  /-- No path of a targeting has two contents. -/
  content : ∀ s ∈ splits, ∀ t ∈ splits, s.targeting = t.targeting →
    ∀ e ∈ s.entries, ∀ f ∈ t.entries, e.path = f.path → e.content = f.content

variable {splits parts merged result : List Split} {s m : Split}

/-- The entries of each targeting are consistent if its splits are among each other. -/
theorem CanMerge.pathsConsistent (h : CanMerge splits) (t : Targeting) :
    PathsConsistent (entriesFor splits t) := by
  intro e he f hf hpath
  obtain ⟨p, hp, hpt, he⟩ := mem_entriesFor.mp he
  obtain ⟨q, hq, hqt, hf⟩ := mem_entriesFor.mp hf
  exact h.content p hp q hq (hpt.trans hqt.symm) e he f hf hpath

/-- A split is merged only into a split of its module. -/
theorem moduleName_of_mergeInto (h : mergeInto merged s = .ok result)
    (hnodup : (merged.map Split.targeting).Nodup) (hm : m ∈ merged)
    (ht : m.targeting = s.targeting) : m.moduleName = s.moduleName := by
  induction merged generalizing result with
  | nil => exact absurd hm List.not_mem_nil
  | cons n ns ih =>
    obtain ⟨hn, hns⟩ := List.nodup_cons.mp hnodup
    rw [mergeInto] at h
    by_cases hnt : n.targeting = s.targeting
    · rw [if_pos hnt] at h
      split at h
      · rename_i hname
        rcases List.mem_cons.mp hm with rfl | hm
        · exact hname
        · exact absurd (List.mem_map_of_mem hm) (hnt.trans ht.symm ▸ hn)
      · cases h
    · rw [if_neg hnt] at h
      obtain ⟨rest, hrest, _⟩ := bind_eq_ok_iff.mp h
      rcases List.mem_cons.mp hm with rfl | hm
      · exact absurd ht hnt
      · exact ih hrest hns hm

/-- Every targeting that occurs has a merged split, of the module of its first split. -/
theorem exists_mem_mergedSplits (hs : s ∈ parts) :
    ∃ m ∈ mergedSplits parts, m.targeting = s.targeting ∧
      ∃ first ∈ parts, first.targeting = s.targeting ∧ m.moduleName = first.moduleName := by
  have hmem : s.targeting ∈ parts.map Split.targeting := List.mem_map_of_mem hs
  obtain ⟨m, hm⟩ := exists_mergedSplit hmem
  have hmerged : m ∈ mergedSplits parts :=
    List.mem_filterMap.mpr ⟨_, List.mem_eraseDups.mpr hmem, hm⟩
  have ht := targeting_of_mergedSplit hm
  obtain ⟨first, hfirst, hfirstt, heq⟩ := exists_of_mem_mergedSplits hmerged
  exact ⟨m, hmerged, ht, first, hfirst, hfirstt.trans ht, by rw [heq]⟩

/-- Splits of one targeting that were merged belong to one module. -/
theorem moduleName_of_mergeSameTargeting (h : mergeSameTargeting parts = .ok merged) :
    ∀ p ∈ parts, ∀ q ∈ parts, p.targeting = q.targeting → p.moduleName = q.moduleName := by
  induction parts using List.reverseRecOn generalizing merged with
  | nil => simp
  | append_singleton parts s ih =>
    rw [mergeSameTargeting, List.foldlM_append] at h
    obtain ⟨before, hbefore, h⟩ := bind_eq_ok_iff.mp h
    obtain ⟨after, hafter, _⟩ := bind_eq_ok_iff.mp h
    have hall := ih hbefore
    obtain rfl := mergeSameTargeting_eq hbefore
    -- a split that came before has the module of the merged split that the last one is added to
    have hlast (p : Split) (hp : p ∈ parts) (ht : p.targeting = s.targeting) :
        p.moduleName = s.moduleName := by
      obtain ⟨m, hm, hmt, first, hfirst, hfirstt, hname⟩ := exists_mem_mergedSplits hp
      have hnodup : ((mergedSplits parts).map Split.targeting).Nodup := by
        rw [map_targeting_mergedSplits]
        exact nodup_eraseDups _
      rw [hall p hp first hfirst hfirstt.symm, ← hname]
      exact moduleName_of_mergeInto hafter hnodup hm (hmt.trans ht)
    intro p hp q hq ht
    rcases List.mem_append.mp hp with hp | hp <;> rcases List.mem_append.mp hq with hq | hq
    · exact hall p hp q hq ht
    · rw [List.mem_singleton.mp hq] at ht ⊢
      exact hlast p hp ht
    · rw [List.mem_singleton.mp hp] at ht ⊢
      exact (hlast q hq ht.symm).symm
    · rw [List.mem_singleton.mp hp, List.mem_singleton.mp hq]

/-- Merging succeeds exactly if the splits can be merged. -/
theorem mergeSameTargeting_eq_ok_iff :
    mergeSameTargeting splits = .ok merged ↔ CanMerge splits ∧ merged = mergedSplits splits := by
  constructor
  · intro h
    have hpaths := pathsConsistent_of_mergeSameTargeting h
    refine ⟨⟨moduleName_of_mergeSameTargeting h, fun p hp q hq ht e he f hf hpath => ?_⟩,
      mergeSameTargeting_eq h⟩
    exact hpaths q.targeting e (mem_entriesFor.mpr ⟨p, hp, ht, he⟩) f
      (mem_entriesFor.mpr ⟨q, hq, rfl, hf⟩) hpath
  · rintro ⟨h, rfl⟩
    exact mergeSameTargeting_succeeds h.moduleName h.pathsConsistent

/-- No path occurs twice in a merged split. -/
theorem nodup_paths_of_mem_mergedSplits (hm : m ∈ mergedSplits splits) : m.paths.Nodup := by
  obtain ⟨first, _, _, heq⟩ := exists_of_mem_mergedSplits hm
  have hentries : m.entries = uniquePaths (entriesFor splits m.targeting) :=
    congrArg Split.entries heq
  rw [Split.paths, hentries]
  exact nodup_paths_uniquePaths _

/-- Splits of different targetings, each without a path that occurs twice, are merged already. -/
theorem mergedSplits_of_nodup (htargetings : (splits.map Split.targeting).Nodup)
    (hpaths : ∀ s ∈ splits, s.paths.Nodup) : mergedSplits splits = splits := by
  have hself (s : Split) (hs : s ∈ splits) : mergedSplit splits s.targeting = some s := by
    have hone := filter_eq_singleton htargetings hs
    refine mergedSplit_eq_some_iff.mpr ⟨s, ?_, ?_⟩
    · rw [← List.head?_filter, hone, List.head?_cons]
    · rw [entriesFor, hone, List.flatMap_singleton, uniquePaths_of_nodup (hpaths s hs)]
  rw [mergedSplits, eraseDups_of_nodup htargetings, List.filterMap_map]
  exact (List.filterMap_congr hself).trans List.filterMap_some

/-- Splits of different targetings, each without a path that occurs twice, can be merged. -/
theorem canMerge_of_nodup (htargetings : (splits.map Split.targeting).Nodup)
    (hpaths : ∀ s ∈ splits, s.paths.Nodup) : CanMerge splits := by
  have hsame := List.inj_on_of_nodup_map htargetings
  constructor
  · intro s hs t ht heq
    rw [hsame hs ht heq]
  · intro s hs t ht heq e he f hf hpath
    obtain rfl := hsame hs ht heq
    rw [List.inj_on_of_nodup_map (hpaths s hs) he hf hpath]

/-- What merging makes of splits. -/
structure IsMergeOf (merged splits : List Split) : Prop where
  /-- There is one split for each targeting, in the order in which the targetings occur first. -/
  targetings : merged.map Split.targeting = (splits.map Split.targeting).eraseDups
  /-- It has the names and the flag of the first split of its targeting, and the entries of all of
  them in their order, without those whose path was there before. -/
  exists_first : ∀ m ∈ merged, ∃ before first after, splits = before ++ first :: after ∧
    (∀ p ∈ before, p.targeting ≠ m.targeting) ∧ first.targeting = m.targeting ∧
    m = { first with entries := uniquePaths (entriesFor splits m.targeting) }
  /-- No targeting occurs twice. -/
  nodup_targetings : (merged.map Split.targeting).Nodup
  /-- No path occurs twice in a split. -/
  nodup_paths : ∀ m ∈ merged, m.paths.Nodup
  /-- No entry of a targeting is lost and none is made up, so the same holds for paths. -/
  entries : ∀ t e, (∃ m ∈ merged, m.targeting = t ∧ e ∈ m.entries) ↔
    ∃ s ∈ splits, s.targeting = t ∧ e ∈ s.entries
  /-- Merging it again changes nothing. -/
  again : mergeSameTargeting merged = .ok merged

/-- Splits that can be merged lose nothing. -/
theorem isMergeOf_mergedSplits (h : CanMerge splits) : IsMergeOf (mergedSplits splits) splits := by
  have htargetings := map_targeting_mergedSplits splits
  have hnodup : ((mergedSplits splits).map Split.targeting).Nodup := by
    rw [htargetings]
    exact nodup_eraseDups _
  have hpaths : ∀ m ∈ mergedSplits splits, m.paths.Nodup :=
    fun m hm => nodup_paths_of_mem_mergedSplits hm
  have hentries {m : Split} (hm : m ∈ mergedSplits splits) (e : Entry) :
      e ∈ m.entries ↔ e ∈ entriesFor splits m.targeting := by
    obtain ⟨first, _, _, heq⟩ := exists_of_mem_mergedSplits hm
    rw [congrArg Split.entries heq, (h.pathsConsistent m.targeting).mem_uniquePaths]
  refine ⟨htargetings, fun m hm => ?_, hnodup, hpaths, fun t e => ?_,
    mergeSameTargeting_eq_ok_iff.mpr ⟨canMerge_of_nodup hnodup hpaths,
      (mergedSplits_of_nodup hnodup hpaths).symm⟩⟩
  · obtain ⟨t, _, hmt⟩ := List.mem_filterMap.mp hm
    obtain rfl : m.targeting = t := targeting_of_mergedSplit hmt
    obtain ⟨first, hfirst, heq⟩ := mergedSplit_eq_some_iff.mp hmt
    obtain ⟨hfirstt, before, after, hsplits, hbefore⟩ := List.find?_eq_some_iff_append.mp hfirst
    exact ⟨before, first, after, hsplits, fun p hp => by simpa using hbefore p hp,
      of_decide_eq_true hfirstt, heq⟩
  · constructor
    · rintro ⟨m, hm, rfl, he⟩
      exact mem_entriesFor.mp ((hentries hm e).mp he)
    · rintro ⟨s, hs, ht, he⟩
      obtain ⟨m, hm, hmt, _⟩ := exists_mem_mergedSplits hs
      have he := mem_entriesFor.mpr ⟨s, hs, hmt.symm, he⟩
      exact ⟨m, hm, hmt.trans ht, (hentries hm e).mpr he⟩

/-- Merging succeeds exactly if the splits of each targeting belong to one module and give no path
two contents, and it makes one split of each targeting that holds every path of its splits once. -/
theorem mergeSameTargeting_outcomes (splits : List Split) :
    ((∃ merged, mergeSameTargeting splits = .ok merged) ↔ CanMerge splits) ∧
      ∀ merged, mergeSameTargeting splits = .ok merged → IsMergeOf merged splits := by
  constructor
  · constructor
    · rintro ⟨merged, h⟩
      exact (mergeSameTargeting_eq_ok_iff.mp h).1
    · intro h
      exact ⟨_, mergeSameTargeting_eq_ok_iff.mpr ⟨h, rfl⟩⟩
  · intro merged h
    obtain ⟨hcan, rfl⟩ := mergeSameTargeting_eq_ok_iff.mp h
    exact isMergeOf_mergedSplits hcan

/-- Two targetings in turn, of which one gives a path a second time with the same content. -/
def sampleTurns : List Split :=
  [.ofEntries baseName [⟨"b", ⟨#[1]⟩⟩, ⟨"a", ⟨#[2]⟩⟩] .untargeted,
    .ofEntries baseName [⟨"assets/a#lang_de/b", ⟨#[3]⟩⟩] (.forLanguage ⟨"de"⟩),
    .ofEntries baseName [⟨"c", ⟨#[4]⟩⟩, ⟨"b", ⟨#[1]⟩⟩, ⟨"c", ⟨#[4]⟩⟩] .untargeted,
    .ofEntries baseName [⟨"c", ⟨#[5]⟩⟩] (.forLanguage ⟨"de"⟩)]

/-- The sample is merged into two splits, and the copies of paths are gone. -/
theorem mergeSameTargeting_outcomes_sampleTurns :
    CanMerge sampleTurns ∧ ∃ merged, mergeSameTargeting sampleTurns = .ok merged ∧
      merged.map Split.paths = [["b", "a", "c"], ["assets/a#lang_de/b", "c"]] ∧
      IsMergeOf merged sampleTurns := by
  obtain ⟨hiff, hmerge⟩ := mergeSameTargeting_outcomes sampleTurns
  have hpaths : (mergeSameTargeting sampleTurns).toOption.map (·.map Split.paths) =
      some [["b", "a", "c"], ["assets/a#lang_de/b", "c"]] := by
    decide +kernel
  obtain ⟨merged, h⟩ := exists_of_isSome_toOption (x := mergeSameTargeting sampleTurns)
    (by decide +kernel)
  rw [h] at hpaths
  exact ⟨hiff.mp ⟨merged, h⟩, merged, h, Option.some.inj hpaths, hmerge merged h⟩

end AppBundle
