import AppBundle.Proofs.ModuleSplits

/-!
# When merging succeeds

Merging the parts of a module drops copies of entries, and copies only: what a part holds is in
the merged split of its targeting. So merging succeeds exactly when no path has two contents in
the parts of one targeting, and the same holds for dividing a module.
-/

namespace AppBundle

/-- Of consistent entries none is lost by keeping every path once. -/
theorem PathsConsistent.mem_uniquePaths {entries : List Entry} (h : PathsConsistent entries)
    {e : Entry} : e ∈ uniquePaths entries ↔ e ∈ entries := by
  constructor
  · exact mem_of_mem_uniquePaths
  · intro he
    obtain ⟨f, hf, hpath⟩ := List.mem_map.mp (mem_paths_uniquePaths.mpr (List.mem_map_of_mem he))
    have hcontent := h f (mem_of_mem_uniquePaths hf) e he hpath
    rwa [← Entry.ext hpath hcontent]

/-- The entries of a targeting are those of the splits with it. -/
theorem mem_entriesFor {parts : List Split} {t : Targeting} {e : Entry} :
    e ∈ entriesFor parts t ↔ ∃ p ∈ parts, p.targeting = t ∧ e ∈ p.entries := by
  simp only [entriesFor, List.mem_flatMap, List.mem_filter, decide_eq_true_eq, and_assoc]

theorem mem_entriesFor_cons {p : Split} {parts : List Split} {t : Targeting} {e : Entry} :
    e ∈ entriesFor (p :: parts) t ↔
      p.targeting = t ∧ e ∈ p.entries ∨ e ∈ entriesFor parts t := by
  simp only [mem_entriesFor, List.mem_cons, exists_eq_or_imp]

/-- Adding entries loses none. -/
theorem mem_of_addEntries {name : String} {present entries result : List Entry}
    (h : addEntries name present entries = .ok result) {e : Entry}
    (he : e ∈ present ∨ e ∈ entries) : e ∈ result := by
  induction entries generalizing present with
  | nil =>
    rw [← Except.ok.inj h]
    exact he.resolve_right List.not_mem_nil
  | cons f es ih =>
    rw [addEntries] at h
    cases hfind : present.find? (·.path = f.path) with
    | none =>
      simp only [hfind] at h
      refine ih h ?_
      rcases he with he | he
      · exact .inl (List.mem_append_left _ he)
      · rcases List.mem_cons.mp he with rfl | he
        · exact .inl (List.mem_append_right _ (List.mem_singleton_self e))
        · exact .inr he
    | some p =>
      simp only [hfind] at h
      split at h
      · rename_i hcontent
        refine ih h ?_
        rcases he with he | he
        · exact .inl he
        · rcases List.mem_cons.mp he with rfl | he
          · have hpath : p.path = e.path := by simpa using List.find?_some hfind
            exact .inl (Entry.ext hpath hcontent ▸ List.mem_of_find?_eq_some hfind)
          · exact .inr he
      · cases h

/-- Merging one more split loses no entry of any targeting. -/
theorem mem_entriesFor_of_mergeInto {merged result : List Split} {s : Split}
    (h : mergeInto merged s = .ok result) {t : Targeting} {e : Entry}
    (he : e ∈ entriesFor (merged ++ [s]) t) : e ∈ entriesFor result t := by
  have hself : e ∈ entriesFor [s] t → s.targeting = t ∧ e ∈ s.entries := by
    intro hes
    exact (mem_entriesFor_cons.mp hes).resolve_right List.not_mem_nil
  induction merged generalizing result with
  | nil =>
    obtain ⟨entries, hentries, h⟩ := bind_eq_ok_iff.mp h
    obtain ⟨ht, hes⟩ := hself he
    rw [← Except.ok.inj h]
    exact mem_entriesFor_cons.mpr (.inl ⟨ht, mem_of_addEntries hentries (.inr hes)⟩)
  | cons m ms ih =>
    rw [List.cons_append, mem_entriesFor_cons] at he
    rw [mergeInto] at h
    by_cases ht : m.targeting = s.targeting
    · rw [if_pos ht] at h
      split at h
      · obtain ⟨entries, hentries, h⟩ := bind_eq_ok_iff.mp h
        rw [← Except.ok.inj h, mem_entriesFor_cons]
        rcases he with ⟨hmt, he⟩ | he
        · exact .inl ⟨hmt, mem_of_addEntries hentries (.inl he)⟩
        · rw [entriesFor_append] at he
          rcases List.mem_append.mp he with he | he
          · exact .inr he
          · obtain ⟨hst, hes⟩ := hself he
            exact .inl ⟨ht.trans hst, mem_of_addEntries hentries (.inr hes)⟩
      · cases h
    · rw [if_neg ht] at h
      obtain ⟨rest, hrest, h⟩ := bind_eq_ok_iff.mp h
      rw [← Except.ok.inj h, mem_entriesFor_cons]
      rcases he with he | he
      · exact .inl he
      · exact .inr (ih hrest he)

/-- Merging loses no entry of any targeting. -/
theorem mem_entriesFor_of_mergeSameTargeting {parts merged : List Split}
    (h : mergeSameTargeting parts = .ok merged) {t : Targeting} {e : Entry}
    (he : e ∈ entriesFor parts t) : e ∈ entriesFor merged t := by
  induction parts using List.reverseRecOn generalizing merged with
  | nil => exact absurd he List.not_mem_nil
  | append_singleton parts s ih =>
    rw [mergeSameTargeting, List.foldlM_append] at h
    obtain ⟨before, hbefore, h⟩ := bind_eq_ok_iff.mp h
    obtain ⟨after, hafter, h⟩ := bind_eq_ok_iff.mp h
    rw [← Except.ok.inj h]
    refine mem_entriesFor_of_mergeInto hafter ?_
    rw [entriesFor_append] at he ⊢
    rcases List.mem_append.mp he with he | he
    · exact List.mem_append_left _ (ih hbefore he)
    · exact List.mem_append_right _ he

/-- Splits that were merged have no path with two contents for one targeting. -/
theorem pathsConsistent_of_mergeSameTargeting {parts merged : List Split}
    (h : mergeSameTargeting parts = .ok merged) (t : Targeting) :
    PathsConsistent (entriesFor parts t) := by
  have hkept (e : Entry) (he : e ∈ entriesFor parts t) : e ∈ uniquePaths (entriesFor parts t) := by
    obtain ⟨m, hm, ht, he⟩ := mem_entriesFor.mp (mem_entriesFor_of_mergeSameTargeting h he)
    rw [mergeSameTargeting_eq h] at hm
    obtain ⟨first, _, _, hmerged⟩ := exists_of_mem_mergedSplits hm
    have hentries : m.entries = uniquePaths (entriesFor parts m.targeting) :=
      congrArg Split.entries hmerged
    rwa [hentries, ht] at he
  intro e he f hf hpath
  have hnodup := nodup_paths_uniquePaths (entriesFor parts t)
  have hef := List.inj_on_of_nodup_map hnodup (hkept e he) (hkept f hf) hpath
  rw [hef]

namespace AppModule

variable {m : AppModule} {dimensions : OrderedSet Dimension} {options : ShardingOptions}
variable {own : List Split}

/-- A module can be divided exactly if its parts can be made and no path has two contents in the
parts of one targeting. -/
theorem splits_eq_ok_iff_pathsConsistent :
    m.splits dimensions options = .ok own ↔
      ∃ parts, m.parts dimensions options = .ok parts ∧
        (∀ t, PathsConsistent (entriesFor parts t)) ∧ own = splitsOf parts := by
  constructor
  · intro h
    obtain ⟨parts, merged, hparts, hmerged, rfl, _⟩ := splits_eq_ok_iff.mp h
    refine ⟨parts, hparts, pathsConsistent_of_mergeSameTargeting hmerged, ?_⟩
    rw [mergeSameTargeting_eq hmerged, splitsOf]
  · rintro ⟨parts, hparts, hpaths, rfl⟩
    exact splits_of_entriesFor hpaths hparts

end AppModule

end AppBundle
