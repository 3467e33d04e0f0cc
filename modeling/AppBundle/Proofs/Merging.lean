import AppBundle.Merge
import AppBundle.Proofs.FirstOccurrences
import AppBundle.Proofs.Outcomes
import Mathlib.Data.List.Find

/-!
# The result of merging splits

Merging gathers, for every targeting, the entries of all splits that serve it.
This file gives the result in closed form, without the order in which the splits
arrive, and proves that merging succeeds when the splits of one targeting agree
on their module and on the content of every path.
-/

namespace AppBundle

/-- No path occurs with two contents. -/
def PathsConsistent (entries : List Entry) : Prop :=
  ∀ e ∈ entries, ∀ f ∈ entries, e.path = f.path → e.content = f.content

/-- Entries taken from consistent ones are consistent. -/
theorem PathsConsistent.subset {entries others : List Entry} (h : PathsConsistent entries)
    (hsub : ∀ e ∈ others, e ∈ entries) : PathsConsistent others :=
  fun e he f hf => h e (hsub e he) f (hsub f hf)

/-- The entries without those whose path occurred before. -/
def uniquePaths : List Entry → List Entry
  | [] => []
  | e :: es => e :: (uniquePaths es).filter (·.path ≠ e.path)

/-- No entry is made up. -/
theorem mem_of_mem_uniquePaths {entries : List Entry} {e : Entry} (h : e ∈ uniquePaths entries) :
    e ∈ entries := by
  induction entries with
  | nil => exact h
  | cons f es ih =>
    rcases List.mem_cons.mp h with rfl | h
    · exact List.mem_cons_self
    · exact List.mem_cons_of_mem _ (ih (List.mem_filter.mp h).1)

/-- No path is lost. -/
theorem mem_paths_uniquePaths {entries : List Entry} {path : String} :
    path ∈ (uniquePaths entries).map Entry.path ↔ path ∈ entries.map Entry.path := by
  constructor
  · intro h
    obtain ⟨e, he, rfl⟩ := List.mem_map.mp h
    exact List.mem_map_of_mem (mem_of_mem_uniquePaths he)
  · intro h
    induction entries with
    | nil => exact h
    | cons e es ih =>
      by_cases hpath : path = e.path
      · exact hpath ▸ List.mem_map_of_mem List.mem_cons_self
      · obtain ⟨f, hf, rfl⟩ := List.mem_map.mp (ih ((List.mem_cons.mp h).resolve_left hpath))
        refine List.mem_map_of_mem (List.mem_cons_of_mem _ (List.mem_filter.mpr ⟨hf, ?_⟩))
        simpa using hpath

/-- Entries with different paths are all kept. -/
theorem uniquePaths_of_nodup {entries : List Entry} (h : (entries.map Entry.path).Nodup) :
    uniquePaths entries = entries := by
  induction entries with
  | nil => rfl
  | cons e es ih =>
    obtain ⟨he, hes⟩ := List.nodup_cons.mp h
    rw [uniquePaths, ih hes, List.filter_eq_self.mpr]
    intro f hf
    have hne : f.path ≠ e.path := fun hfe => he (hfe ▸ List.mem_map_of_mem hf)
    simpa using hne

/-- Nothing is kept only if there is nothing. -/
theorem isEmpty_uniquePaths (entries : List Entry) :
    (uniquePaths entries).isEmpty = entries.isEmpty := by
  cases entries with
  | nil => rfl
  | cons e es => rfl

/-- No path is kept twice. -/
theorem nodup_paths_uniquePaths (entries : List Entry) :
    ((uniquePaths entries).map Entry.path).Nodup := by
  induction entries with
  | nil => exact List.nodup_nil
  | cons e es ih =>
    refine List.nodup_cons.mpr ⟨fun h => ?_, ih.sublist (List.filter_sublist.map _)⟩
    obtain ⟨f, hf, hpath⟩ := List.mem_map.mp h
    exact of_decide_eq_true (List.mem_filter.mp hf).2 hpath

/-- Selecting entries by their paths and keeping each path once commute. -/
theorem filter_uniquePaths (q : String → Bool) (entries : List Entry) :
    (uniquePaths entries).filter (q ·.path) = uniquePaths (entries.filter (q ·.path)) := by
  induction entries with
  | nil => rfl
  | cons e es ih =>
    rw [uniquePaths, List.filter_cons, List.filter_cons]
    by_cases hq : q e.path
    · rw [if_pos hq, if_pos hq, uniquePaths, ← ih, List.filter_filter, List.filter_filter]
      simp only [Bool.and_comm]
    · rw [if_neg hq, if_neg hq, ← ih, List.filter_filter]
      refine List.filter_congr fun f _ => ?_
      by_cases hf : f.path = e.path
      · simp [hf, hq]
      · simp [hf]

/-- Of entries that come later, those with a new path are kept. -/
theorem uniquePaths_append (entries others : List Entry) :
    uniquePaths (entries ++ others) =
      uniquePaths entries ++ (uniquePaths others).filter (·.path ∉ entries.map Entry.path) := by
  induction entries with
  | nil => simp [uniquePaths]
  | cons e es ih =>
    rw [List.cons_append, uniquePaths, ih, List.filter_append, List.filter_filter, uniquePaths,
      List.cons_append]
    congr 2
    refine List.filter_congr fun f _ => ?_
    simp

/-- Adding entries keeps those that are there and puts those with a new path
after them. -/
theorem addEntries_eq {name : String} {present entries result : List Entry}
    (h : addEntries name present entries = .ok result) :
    result =
      present ++ (uniquePaths entries).filter (·.path ∉ present.map Entry.path) := by
  induction entries generalizing present with
  | nil =>
    rw [addEntries, Except.ok.injEq] at h
    simp [uniquePaths, h]
  | cons e es ih =>
    rw [addEntries] at h
    cases hfind : present.find? (·.path = e.path) with
    | none =>
      have hnew : e.path ∉ present.map Entry.path := by
        intro hmem
        obtain ⟨p, hp, hpath⟩ := List.mem_map.mp hmem
        exact List.find?_eq_none.mp hfind p hp (by simpa using hpath)
      simp only [hfind] at h
      rw [ih h, uniquePaths, List.filter_cons_of_pos (by simpa using hnew), List.filter_filter,
        List.append_assoc, List.singleton_append]
      congr 2
      refine List.filter_congr fun f _ => ?_
      rw [List.map_append]
      simp [not_or, Bool.decide_and]
    | some p =>
      have hold : e.path ∈ present.map Entry.path := by
        have hp : p.path = e.path := by simpa using List.find?_some hfind
        exact hp ▸ List.mem_map_of_mem (List.mem_of_find?_eq_some hfind)
      simp only [hfind] at h
      split at h
      · rw [ih h, uniquePaths, List.filter_cons_of_neg (by simpa using hold), List.filter_filter]
        congr 1
        refine List.filter_congr fun f _ => ?_
        by_cases hf : f.path = e.path
        · simp only [hf, hold, not_true_eq_false, decide_false, Bool.false_and]
        · simp [hf]
      · cases h

/-- Adding entries succeeds if no path gets two contents. -/
theorem addEntries_succeeds (name : String) {present entries : List Entry}
    (h : PathsConsistent (present ++ entries)) :
    ∃ result, addEntries name present entries = .ok result := by
  induction entries generalizing present with
  | nil => exact ⟨present, rfl⟩
  | cons e es ih =>
    rw [addEntries]
    cases hfind : present.find? (·.path = e.path) with
    | none => exact ih (h.subset fun f hf => by simpa using hf)
    | some p =>
      have hp : p.path = e.path := by simpa using List.find?_some hfind
      have hcontent : p.content = e.content :=
        h p (List.mem_append_left _ (List.mem_of_find?_eq_some hfind)) e (by simp) hp
      simp only [if_pos hcontent]
      refine ih (h.subset fun f hf => ?_)
      rcases List.mem_append.mp hf with hf | hf
      · exact List.mem_append_left _ hf
      · exact List.mem_append_right _ (List.mem_cons_of_mem _ hf)

/-- A split whose targeting is new comes last. -/
theorem mergeInto_of_new {merged result : List Split} {s : Split}
    (h : mergeInto merged s = .ok result) (hnew : s.targeting ∉ merged.map Split.targeting) :
    result = merged ++ [{ s with entries := uniquePaths s.entries }] := by
  induction merged generalizing result with
  | nil =>
    obtain ⟨entries, hentries, h⟩ := bind_eq_ok_iff.mp h
    have hall := addEntries_eq hentries
    rw [← Except.ok.inj h, hall]
    simp
  | cons m ms ih =>
    obtain ⟨hm, hms⟩ := not_or.mp (mt List.mem_cons.mpr hnew)
    rw [mergeInto, if_neg (Ne.symm hm)] at h
    obtain ⟨rest, hrest, h⟩ := bind_eq_ok_iff.mp h
    rw [← Except.ok.inj h, ih hrest hms, List.cons_append]

/-- The split after the entries of another one with new paths have been added. -/
def Split.mergeEntries (m s : Split) : Split :=
  { m with entries := m.entries ++ (uniquePaths s.entries).filter (·.path ∉ m.paths) }

/-- A split whose targeting is there gives its new entries to the split that has
that targeting, and the others stay as they are. -/
theorem mergeInto_of_mem {merged result : List Split} {s : Split}
    (h : mergeInto merged s = .ok result) (hnodup : (merged.map Split.targeting).Nodup)
    (hmem : s.targeting ∈ merged.map Split.targeting) :
    result =
      merged.map fun m => if m.targeting = s.targeting then m.mergeEntries s else m := by
  induction merged generalizing result with
  | nil => simp at hmem
  | cons m ms ih =>
    obtain ⟨hm, hms⟩ := List.nodup_cons.mp hnodup
    rw [mergeInto] at h
    by_cases ht : m.targeting = s.targeting
    · rw [if_pos ht] at h
      split at h
      · obtain ⟨entries, hentries, h⟩ := bind_eq_ok_iff.mp h
        have hothers : ms.map (fun m => if m.targeting = s.targeting then m.mergeEntries s else m)
            = ms := by
          have hother (n : Split) (hn : n ∈ ms) :
              (if n.targeting = s.targeting then n.mergeEntries s else n) = n := by
            rw [if_neg]
            intro hnt
            exact hm (ht ▸ hnt ▸ List.mem_map_of_mem hn)
          rw [List.map_congr_left hother, List.map_id']
        rw [← Except.ok.inj h, List.map_cons, if_pos ht, hothers, addEntries_eq hentries]
        rfl
      · cases h
    · rw [if_neg ht] at h
      obtain ⟨rest, hrest, h⟩ := bind_eq_ok_iff.mp h
      have hrec := ih hrest hms ((List.mem_cons.mp hmem).resolve_left (Ne.symm ht))
      rw [← Except.ok.inj h, hrec, List.map_cons, if_neg ht]

/-- The entries of all splits of one targeting, in the order of the splits. -/
def entriesFor (parts : List Split) (t : Targeting) : List Entry :=
  (parts.filter (·.targeting = t)).flatMap Split.entries

/-- Splits that come later give their entries after the others. -/
theorem entriesFor_append (parts others : List Split) (t : Targeting) :
    entriesFor (parts ++ others) t = entriesFor parts t ++ entriesFor others t := by
  rw [entriesFor, List.filter_append, List.flatMap_append]
  rfl

/-- A split gives its entries to its own targeting. -/
theorem entriesFor_concat_self (parts : List Split) (s : Split) :
    entriesFor (parts ++ [s]) s.targeting = entriesFor parts s.targeting ++ s.entries := by
  have hself : entriesFor [s] s.targeting = s.entries := by simp [entriesFor]
  rw [entriesFor_append, hself]

/-- A targeting that no split has gets no entries. -/
theorem entriesFor_of_not_mem {parts : List Split} {t : Targeting}
    (h : t ∉ parts.map Split.targeting) : entriesFor parts t = [] := by
  have hnone : parts.filter (·.targeting = t) = [] := by
    refine List.filter_eq_nil_iff.mpr fun p hp hpt => h ?_
    exact of_decide_eq_true hpt ▸ List.mem_map_of_mem hp
  rw [entriesFor, hnone, List.flatMap_nil]

/-- The split that merging makes of all splits of one targeting. -/
def mergedSplit (parts : List Split) (t : Targeting) : Option Split :=
  (parts.find? (·.targeting = t)).map fun s =>
    { s with entries := uniquePaths (entriesFor parts t) }

/-- All splits of a list as merging makes them, one for each targeting. -/
def mergedSplits (parts : List Split) : List Split :=
  (parts.map Split.targeting).eraseDups.filterMap (mergedSplit parts)

theorem mergedSplit_eq_some_iff {parts : List Split} {t : Targeting} {s : Split} :
    mergedSplit parts t = some s ↔ ∃ first, parts.find? (·.targeting = t) = some first ∧
      s = { first with entries := uniquePaths (entriesFor parts t) } := by
  rw [mergedSplit, Option.map_eq_some_iff]
  exact exists_congr fun first => and_congr_right fun _ => eq_comm

/-- A merged split has the targeting it was made for. -/
theorem targeting_of_mergedSplit {parts : List Split} {t : Targeting} {s : Split}
    (h : mergedSplit parts t = some s) : s.targeting = t := by
  obtain ⟨first, hfirst, rfl⟩ := mergedSplit_eq_some_iff.mp h
  simpa using List.find?_some hfirst

/-- There is a merged split for every targeting that occurs. -/
theorem exists_mergedSplit {parts : List Split} {t : Targeting}
    (h : t ∈ parts.map Split.targeting) : ∃ s, mergedSplit parts t = some s := by
  obtain ⟨p, hp, rfl⟩ := List.mem_map.mp h
  cases hfind : parts.find? (·.targeting = p.targeting) with
  | none => exact absurd (List.find?_eq_none.mp hfind p hp) (by simp)
  | some first => exact ⟨_, mergedSplit_eq_some_iff.mpr ⟨first, hfind, rfl⟩⟩

/-- Merged splits have the targetings that occur, each once. -/
theorem map_targeting_mergedSplits (parts : List Split) :
    (mergedSplits parts).map Split.targeting = (parts.map Split.targeting).eraseDups := by
  rw [mergedSplits, List.map_filterMap]
  have hsome (t : Targeting) (ht : t ∈ (parts.map Split.targeting).eraseDups) :
      (mergedSplit parts t).map Split.targeting = some t := by
    obtain ⟨s, hs⟩ := exists_mergedSplit (List.mem_eraseDups.mp ht)
    rw [hs, Option.map_some, targeting_of_mergedSplit hs]
  rw [List.filterMap_congr hsome, List.filterMap_some]

/-- Selected splits give the same entries to a selected targeting. -/
theorem entriesFor_filter {q : Targeting → Bool} {t : Targeting} (ht : q t) (parts : List Split) :
    entriesFor (parts.filter (q ·.targeting)) t = entriesFor parts t := by
  rw [entriesFor, entriesFor, List.filter_filter]
  congr 1
  refine List.filter_congr fun s _ => ?_
  by_cases hs : s.targeting = t
  · simp [hs, ht]
  · simp [hs]

/-- Selected splits are merged for a selected targeting as all splits are. -/
theorem mergedSplit_filter {q : Targeting → Bool} {t : Targeting} (ht : q t) (parts : List Split) :
    mergedSplit (parts.filter (q ·.targeting)) t = mergedSplit parts t := by
  rw [mergedSplit, mergedSplit, entriesFor_filter ht, List.find?_filter]
  congr 1
  refine List.find?_congr fun s _ => ?_
  by_cases hs : s.targeting = t
  · simp [hs, ht]
  · simp [hs]

/-- Selecting splits by their targetings and merging them commute. -/
theorem filter_mergedSplits (q : Targeting → Bool) (parts : List Split) :
    (mergedSplits parts).filter (q ·.targeting) = mergedSplits (parts.filter (q ·.targeting)) := by
  have htargetings : ((parts.filter (q ·.targeting)).map Split.targeting).eraseDups =
      (parts.map Split.targeting).eraseDups.filter q := by
    rw [filter_eraseDups, List.filter_map]
    rfl
  rw [mergedSplits, mergedSplits, htargetings, List.filter_filterMap, List.filterMap_filter]
  refine List.filterMap_congr fun t _ => ?_
  cases hm : mergedSplit parts t with
  | none =>
    by_cases ht : q t
    · rw [if_pos ht, mergedSplit_filter ht, hm, Option.filter_none]
    · rw [if_neg ht, Option.filter_none]
  | some m =>
    rw [Option.filter_some, targeting_of_mergedSplit hm]
    by_cases ht : q t
    · rw [if_pos ht, if_pos ht, mergedSplit_filter ht, hm]
    · rw [if_neg ht, if_neg ht]

/-- A merged split is made of the first split of its targeting and holds the entries of all
splits of its targeting. -/
theorem exists_of_mem_mergedSplits {parts : List Split} {m : Split} (h : m ∈ mergedSplits parts) :
    ∃ first ∈ parts, first.targeting = m.targeting ∧
      m = { first with entries := uniquePaths (entriesFor parts m.targeting) } := by
  obtain ⟨t, _, hm⟩ := List.mem_filterMap.mp h
  obtain rfl : m.targeting = t := targeting_of_mergedSplit hm
  obtain ⟨first, hfirst, hmerged⟩ := mergedSplit_eq_some_iff.mp hm
  exact ⟨first, List.mem_of_find?_eq_some hfirst, by simpa using List.find?_some hfirst, hmerged⟩

/-- A split of another targeting changes nothing in a merged split. -/
theorem mergedSplit_concat_of_ne {parts : List Split} {s : Split} {t : Targeting}
    (h : s.targeting ≠ t) : mergedSplit (parts ++ [s]) t = mergedSplit parts t := by
  rw [mergedSplit, mergedSplit, List.find?_append, entriesFor, entriesFor, List.filter_append,
    List.find?_cons_of_neg (by simpa using h), List.filter_cons_of_neg (by simpa using h)]
  simp

/-- A split of a targeting that occurs gives its new entries to the merged split. -/
theorem mergedSplit_concat_of_mem {parts : List Split} {s m : Split}
    (h : mergedSplit parts s.targeting = some m) :
    mergedSplit (parts ++ [s]) s.targeting = some (m.mergeEntries s) := by
  obtain ⟨first, hfirst, rfl⟩ := mergedSplit_eq_some_iff.mp h
  refine mergedSplit_eq_some_iff.mpr ⟨first, by rw [List.find?_append, hfirst]; rfl, ?_⟩
  rw [entriesFor_concat_self, uniquePaths_append, Split.mergeEntries, Split.paths]
  simp only [mem_paths_uniquePaths]

/-- A split of a new targeting is merged with nothing. -/
theorem mergedSplit_concat_of_new {parts : List Split} {s : Split}
    (h : s.targeting ∉ parts.map Split.targeting) :
    mergedSplit (parts ++ [s]) s.targeting =
      some { s with entries := uniquePaths s.entries } := by
  have hnone (p : Split) (hp : p ∈ parts) : ¬ p.targeting = s.targeting :=
    fun hps => h (hps ▸ List.mem_map_of_mem hp)
  have hfind : parts.find? (·.targeting = s.targeting) = none := by
    simpa [List.find?_eq_none] using hnone
  rw [mergedSplit, List.find?_append, hfind, entriesFor_concat_self, entriesFor_of_not_mem h]
  simp

/-- One more split is merged into the splits that were made before. -/
theorem mergeInto_mergedSplits {parts result : List Split} {s : Split}
    (h : mergeInto (mergedSplits parts) s = .ok result) :
    result = mergedSplits (parts ++ [s]) := by
  have htargetings := map_targeting_mergedSplits parts
  have hold (t : Targeting) (ht : s.targeting ≠ t) :
      mergedSplit (parts ++ [s]) t = mergedSplit parts t := mergedSplit_concat_of_ne ht
  rw [mergedSplits, List.map_append, List.map_singleton, eraseDups_concat]
  by_cases hmem : s.targeting ∈ parts.map Split.targeting
  · have hnodup : ((mergedSplits parts).map Split.targeting).Nodup := by
      rw [htargetings]
      exact nodup_eraseDups _
    have hthere : s.targeting ∈ (mergedSplits parts).map Split.targeting := by
      rwa [htargetings, List.mem_eraseDups]
    rw [if_pos hmem, mergeInto_of_mem h hnodup hthere, mergedSplits, List.map_filterMap]
    refine List.filterMap_congr fun t ht => ?_
    obtain ⟨m, hm⟩ := exists_mergedSplit (List.mem_eraseDups.mp ht)
    have hmt := targeting_of_mergedSplit hm
    by_cases hst : s.targeting = t
    · subst hst
      rw [hm, Option.map_some, if_pos hmt, mergedSplit_concat_of_mem hm]
    · have hne : m.targeting ≠ s.targeting := fun h => hst (h.symm.trans hmt)
      rw [hold t hst, hm, Option.map_some, if_neg hne]
  · have hnew : s.targeting ∉ (mergedSplits parts).map Split.targeting := by
      rwa [htargetings, List.mem_eraseDups]
    rw [if_neg hmem, mergeInto_of_new h hnew, List.filterMap_append, mergedSplits,
      List.filterMap_cons_some (mergedSplit_concat_of_new hmem), List.filterMap_nil]
    congr 1
    refine List.filterMap_congr fun t ht => (hold t ?_).symm
    rintro rfl
    exact hmem (List.mem_eraseDups.mp ht)

/-- Merging makes one split of each targeting, in the order in which the
targetings occur first. -/
theorem mergeSameTargeting_eq {parts merged : List Split}
    (h : mergeSameTargeting parts = .ok merged) : merged = mergedSplits parts := by
  induction parts using List.reverseRecOn generalizing merged with
  | nil => exact (Except.ok.inj h).symm
  | append_singleton parts s ih =>
    rw [mergeSameTargeting, List.foldlM_append] at h
    obtain ⟨before, hbefore, h⟩ := bind_eq_ok_iff.mp h
    obtain ⟨after, hafter, h⟩ := bind_eq_ok_iff.mp h
    rw [ih hbefore] at hafter
    rw [← Except.ok.inj h, mergeInto_mergedSplits hafter]

/-- Merging a split succeeds if it agrees with the split of its targeting. -/
theorem mergeInto_succeeds {merged : List Split} {s : Split}
    (hs : PathsConsistent s.entries)
    (h : ∀ m ∈ merged, m.targeting = s.targeting →
      m.moduleName = s.moduleName ∧ PathsConsistent (m.entries ++ s.entries)) :
    ∃ result, mergeInto merged s = .ok result := by
  induction merged with
  | nil =>
    have hs' : PathsConsistent ([] ++ s.entries) := hs
    obtain ⟨entries, hentries⟩ := addEntries_succeeds s.moduleName hs'
    exact ⟨_, bind_eq_ok_iff.mpr ⟨entries, hentries, rfl⟩⟩
  | cons m ms ih =>
    rw [mergeInto]
    by_cases ht : m.targeting = s.targeting
    · obtain ⟨hname, hpaths⟩ := h m List.mem_cons_self ht
      obtain ⟨entries, hentries⟩ := addEntries_succeeds m.moduleName hpaths
      rw [if_pos ht, if_pos hname]
      exact ⟨_, bind_eq_ok_iff.mpr ⟨entries, hentries, rfl⟩⟩
    · obtain ⟨rest, hrest⟩ := ih fun n hn => h n (List.mem_cons_of_mem _ hn)
      rw [if_neg ht]
      exact ⟨_, bind_eq_ok_iff.mpr ⟨rest, hrest, rfl⟩⟩

/-- What was merged before agrees with one more split, if the splits of each targeting are of
one module and no path in them has two contents. -/
theorem agree_of_mem_mergedSplits {parts : List Split} {s m : Split}
    (hname : ∀ p ∈ parts, p.targeting = s.targeting → p.moduleName = s.moduleName)
    (hpaths : PathsConsistent (entriesFor (parts ++ [s]) s.targeting))
    (hm : m ∈ mergedSplits parts) (ht : m.targeting = s.targeting) :
    m.moduleName = s.moduleName ∧ PathsConsistent (m.entries ++ s.entries) := by
  obtain ⟨first, hfirst, hfirstt, hmerged⟩ := exists_of_mem_mergedSplits hm
  have hmoduleName : m.moduleName = first.moduleName := by rw [hmerged]
  have hentries : m.entries = uniquePaths (entriesFor parts s.targeting) := by
    rw [hmerged, ht]
  refine ⟨hmoduleName.trans (hname first hfirst (hfirstt.trans ht)), ?_⟩
  rw [entriesFor_concat_self] at hpaths
  refine hpaths.subset fun e he => ?_
  rw [hentries] at he
  rcases List.mem_append.mp he with he | he
  · exact List.mem_append_left _ (mem_of_mem_uniquePaths he)
  · exact List.mem_append_right _ he

/-- Merging succeeds if the splits of each targeting are of one module and no
path in them has two contents. -/
theorem mergeSameTargeting_succeeds {parts : List Split}
    (hname : ∀ s ∈ parts, ∀ t ∈ parts, s.targeting = t.targeting → s.moduleName = t.moduleName)
    (hpaths : ∀ t, PathsConsistent (entriesFor parts t)) :
    mergeSameTargeting parts = .ok (mergedSplits parts) := by
  suffices h : ∃ merged, mergeSameTargeting parts = .ok merged by
    obtain ⟨merged, h⟩ := h
    rw [h, mergeSameTargeting_eq h]
  induction parts using List.reverseRecOn with
  | nil => exact ⟨[], rfl⟩
  | append_singleton parts s ih =>
    obtain ⟨before, hbefore⟩ := ih
      (fun p hp q hq => hname p (List.mem_append_left _ hp) q (List.mem_append_left _ hq))
      (fun t => (hpaths t).subset fun e he => by
        rw [entriesFor_append]
        exact List.mem_append_left _ he)
    have hself : PathsConsistent s.entries := (hpaths s.targeting).subset fun e he => by
      rw [entriesFor_concat_self]
      exact List.mem_append_right _ he
    have hagree : ∀ m ∈ before, m.targeting = s.targeting →
        m.moduleName = s.moduleName ∧ PathsConsistent (m.entries ++ s.entries) := by
      intro m hm ht
      rw [mergeSameTargeting_eq hbefore] at hm
      refine agree_of_mem_mergedSplits (fun p hp => ?_) (hpaths s.targeting) hm ht
      exact hname p (List.mem_append_left _ hp) s (List.mem_append_right _ List.mem_cons_self)
    obtain ⟨after, hafter⟩ := mergeInto_succeeds hself hagree
    refine ⟨after, ?_⟩
    rw [mergeSameTargeting, List.foldlM_append]
    exact bind_eq_ok_iff.mpr ⟨before, hbefore, bind_eq_ok_iff.mpr ⟨after, hafter, rfl⟩⟩

end AppBundle
