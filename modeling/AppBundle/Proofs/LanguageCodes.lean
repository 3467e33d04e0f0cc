import AppBundle.Proofs.Labels
import AppBundle.Proofs.LanguageDivision

/-!
# The languages of a bundle have codes

Every language that a split of a bundle serves was read from a path, so its code is two or three
lower-case letters. Fusing keeps this.
-/

namespace AppBundle

section Reading

variable {path : String} {l : Language}

/-- A language that was read has a code of the right shape. -/
theorem Language.isCode_of_parse? {s : String} (h : parse? s = some l) : isCode l.code := by
  rw [parse?] at h
  cases hparse : parse s with
  | error cause => simp [hparse, Except.toOption] at h
  | ok l' =>
    rw [hparse] at h
    rw [← Option.some.inj h]
    exact isCode_of_parse hparse

/-- The language of a qualifier has a code of the right shape. -/
theorem ResourcePath.isCode_of_qualifierLanguage? {q : String} (h : qualifierLanguage? q = some l) :
    Language.isCode l.code := by
  unfold qualifierLanguage? at h
  split at h
  · exact Language.isCode_of_parse? h
  · split at h
    · cases h
    · exact Language.isCode_of_parse? (Option.filter_eq_some_iff.mp h).1

/-- The language of a resource has a code of the right shape. -/
theorem isCode_of_resourceLanguage? (h : resourceLanguage? path = some l) :
    Language.isCode l.code := by
  obtain ⟨resource, _, h⟩ := Option.bind_eq_some_iff.mp h
  split at h
  · cases h
  · obtain ⟨q, _, h⟩ := Option.bind_eq_some_iff.mp h
    exact ResourcePath.isCode_of_qualifierLanguage? h

/-- The language of an asset has a code of the right shape. -/
theorem isCode_of_assetLanguage? (h : assetLanguage? path = some l) : Language.isCode l.code := by
  obtain ⟨rest, _, h⟩ := Option.bind_eq_some_iff.mp h
  obtain ⟨code, _, h⟩ := Option.bind_eq_some_iff.mp h
  exact Language.isCode_of_parse? h

end Reading

namespace Targeting

/-- What has no language has no language without a code. -/
theorem hasCodes_of_hasLanguage_eq_false {t : Targeting} (h : t.hasLanguage = false) :
    t.HasCodes := by
  intro l hl
  rw [hasLanguage, Bool.not_eq_false', Selection.isEmpty_iff] at h
  rw [h] at hl
  exact absurd hl (OrderedSet.not_mem_empty l)

/-- Targetings with codes have codes together. -/
theorem hasCodes_combine {ts : List Targeting} (h : ∀ t ∈ ts, t.HasCodes) :
    (combine ts).HasCodes := by
  intro l hl
  rw [combine_eq, Selection.mem_values_combine] at hl
  obtain ⟨_, hs, hl⟩ := hl
  obtain ⟨t, ht, rfl⟩ := List.mem_map.mp hs
  exact h t ht l hl

end Targeting

namespace AppModule

variable {m : AppModule} {dimensions : OrderedSet Dimension} {options : ShardingOptions}
variable {parts splits : List Split} {p s : Split}

/-- The parts by language have codes if the languages do. -/
theorem hasCodes_of_mem_languageParts {language? : String → Option Language}
    (hlanguage : ∀ {path l}, language? path = some l → Language.isCode l.code)
    (hs : s.targeting = .untargeted) (hp : p ∈ languageParts dimensions options language? s) :
    p.targeting.HasCodes := by
  have huntargeted : Targeting.HasCodes .untargeted :=
    Targeting.hasCodes_of_hasLanguage_eq_false rfl
  unfold languageParts at hp
  split at hp
  · rcases List.mem_cons.mp hp with rfl | hp
    · exact huntargeted
    · obtain ⟨k, hk, rfl⟩ := List.mem_map.mp hp
      obtain ⟨e, he⟩ := mem_occurringLabels.mp hk
      obtain ⟨e', _, heq⟩ := List.mem_map.mp he
      intro l hl
      rw [OrderedSet.mem_singleton.mp hl]
      exact hlanguage (congrArg Prod.snd heq)
  · rw [List.mem_singleton.mp hp, hs]
    exact huntargeted

/-- The parts of a module have codes. -/
theorem hasCodes_of_mem_parts (h : m.parts dimensions options = .ok parts) (hp : p ∈ parts) :
    p.targeting.HasCodes := by
  have hnone {ps : List Split} (hps : (ps.map Split.targeting).filter Targeting.hasLanguage = [])
      (hp : p ∈ ps) : p.targeting.HasCodes :=
    Targeting.hasCodes_of_hasLanguage_eq_false (eq_false_of_filter_targetings hps hp)
  have hrest : ([m.split .dex, m.split .root].map Split.targeting).filter Targeting.hasLanguage =
      [] := rfl
  rw [eq_of_parts h] at hp
  simp only [List.mem_append, or_assoc] at hp
  rcases hp with hp | hp | hp | hp | hp | hp
  · exact hnone (filter_targetings_libraryParts rfl fun _ _ => rfl) hp
  · exact hasCodes_of_mem_languageParts isCode_of_resourceLanguage?
      (owns_plainResources m dimensions).2 hp
  · exact hnone (filter_targetings_densityParts fun _ _ => rfl) hp
  · exact hnone (filter_targetings_imageParts rfl fun _ _ => rfl) hp
  · exact hasCodes_of_mem_languageParts isCode_of_assetLanguage? rfl hp
  · exact hnone hrest hp

/-- The splits of a module have codes. -/
theorem hasCodes_of_mem_splits (h : m.splits dimensions options = .ok splits) (hs : s ∈ splits) :
    s.targeting.HasCodes := by
  obtain ⟨parts, hparts, rfl⟩ := exists_parts h
  have hmem : s.targeting ∈ (splitsOf parts).map Split.targeting := List.mem_map_of_mem hs
  rw [targetings_splitsOf, List.mem_eraseDups] at hmem
  obtain ⟨p, hp, ht⟩ := List.mem_map.mp hmem
  rw [← ht]
  exact hasCodes_of_mem_parts hparts hp

end AppModule

variable {modules : List AppModule} {dimensions : OrderedSet Dimension}
variable {options : ShardingOptions} {splits : List Split}

/-- The splits of a bundle have codes. -/
theorem hasCodes_of_mem_bundleSplits (h : bundleSplits modules dimensions options = .ok splits)
    {s : Split} (hs : s ∈ splits) : s.targeting.HasCodes := by
  obtain ⟨_, splitsOf, hall, rfl⟩ := exists_of_bundleSplits h
  obtain ⟨m, hm, hs⟩ := List.mem_flatMap.mp hs
  exact AppModule.hasCodes_of_mem_splits (hall m hm) hs

end AppBundle
