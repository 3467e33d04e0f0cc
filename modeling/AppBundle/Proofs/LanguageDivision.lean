import AppBundle.Proofs.CommonEntries
import AppBundle.Proofs.MergeSuccess
import AppBundle.Proofs.UndividedEntries

/-!
# Division by language

Whether content is divided by language decides which splits for all packages an entry goes into,
but not whether it goes into one of them: the parts for all packages hold the same entries with
and without languages, and all other parts are the same. Merging succeeds with languages exactly
when it does without, because an entry's path tells its language.
-/

namespace AppBundle

/-- Two settings of the division differ in languages only. -/
structure AgreeBesideLanguages (dimensions : OrderedSet Dimension) (options : ShardingOptions)
    (dimensions' : OrderedSet Dimension) (options' : ShardingOptions) : Prop where
  /-- Both or neither divide by architecture. -/
  abi : .abi ∈ dimensions ↔ .abi ∈ dimensions'
  /-- Both or neither divide by screen density. -/
  screenDensity : .screenDensity ∈ dimensions ↔ .screenDensity ∈ dimensions'
  /-- Both or neither keep 64-bit libraries. -/
  generate64Bit : options.generate64Bit = options'.generate64Bit

variable {dimensions dimensions' : OrderedSet Dimension} {options options' : ShardingOptions}

namespace AgreeBesideLanguages

theorem symm (h : AgreeBesideLanguages dimensions options dimensions' options') :
    AgreeBesideLanguages dimensions' options' dimensions options :=
  ⟨h.abi.symm, h.screenDensity.symm, h.generate64Bit.symm⟩

/-- The same architectures are kept in both settings. -/
theorem keeps (h : AgreeBesideLanguages dimensions options dimensions' options') :
    options.keeps = options'.keeps := by
  funext a
  rw [ShardingOptions.keeps, ShardingOptions.keeps, h.generate64Bit]

end AgreeBesideLanguages

/-- Two divisions differ in languages only. -/
structure SplitsAlike (splits splits' : List Split) : Prop where
  /-- The splits for all packages hold the same entries under every name. -/
  common : ∀ (name : String) (e : Entry),
    (∃ s ∈ splits, s.moduleName = name ∧ s.targeting.isCommon ∧ e ∈ s.entries) ↔
      ∃ s ∈ splits', s.moduleName = name ∧ s.targeting.isCommon ∧ e ∈ s.entries
  /-- All other splits are the same. -/
  targeted : ∀ q : Targeting → Bool, q .untargeted = false → (∀ l, q (.forLanguage l) = false) →
    splits.filter (q ·.targeting) = splits'.filter (q ·.targeting)

theorem SplitsAlike.symm {splits splits' : List Split} (h : SplitsAlike splits splits') :
    SplitsAlike splits' splits :=
  ⟨fun name e => (h.common name e).symm, fun q huntargeted hlanguage =>
    (h.targeted q huntargeted hlanguage).symm⟩

/-- Divisions of several modules differ in languages only if those of each module do. -/
theorem SplitsAlike.flatMap {modules : List AppModule} {f g : AppModule → List Split}
    (h : ∀ m ∈ modules, SplitsAlike (f m) (g m)) :
    SplitsAlike (modules.flatMap f) (modules.flatMap g) := by
  constructor
  · intro name e
    simp only [List.mem_flatMap]
    constructor
    · rintro ⟨s, ⟨m, hm, hs⟩, hcommon⟩
      obtain ⟨s', hs', hcommon'⟩ := ((h m hm).common name e).mp ⟨s, hs, hcommon⟩
      exact ⟨s', ⟨m, hm, hs'⟩, hcommon'⟩
    · rintro ⟨s, ⟨m, hm, hs⟩, hcommon⟩
      obtain ⟨s', hs', hcommon'⟩ := ((h m hm).common name e).mpr ⟨s, hs, hcommon⟩
      exact ⟨s', ⟨m, hm, hs'⟩, hcommon'⟩
  · intro q huntargeted hlanguage
    rw [List.filter_flatMap, List.filter_flatMap]
    exact List.flatMap_congr fun m hm => (h m hm).targeted q huntargeted hlanguage

namespace AppModule

variable {m : AppModule} {parts parts' own own' : List Split}

/-- The targeting of an entry for all packages, told by its path. -/
def commonTargeting (dimensions : OrderedSet Dimension) (options : ShardingOptions)
    (path : String) : Targeting :=
  if Pipeline.dividesLanguages dimensions options then
    match Category.ofPath path with
    | .resources => (resourceLanguage? path).elim .untargeted .forLanguage
    | .assets => (assetLanguage? path).elim .untargeted .forLanguage
    | .nativeLibraries | .apexImages | .dex | .root => .untargeted
  else .untargeted

/-- An entry of a part by language is in the part of its language. -/
theorem targeting_of_mem_languageParts {language? : String → Option Language} {s p : Split}
    (hs : s.targeting = .untargeted) (hp : p ∈ languageParts dimensions options language? s)
    {e : Entry} (he : e ∈ p.entries) :
    p.targeting = if Pipeline.dividesLanguages dimensions options then
      (language? e.path).elim .untargeted .forLanguage else .untargeted := by
  unfold languageParts at hp
  have hlabel {l? : Option Language}
      (he : e ∈ entriesLabelled (s.entries.map fun e => (e, language? e.path)) l?) :
      language? e.path = l? := by
    obtain ⟨f, _, hf⟩ := List.mem_map.mp (mem_entriesLabelled.mp he)
    obtain rfl : f = e := congrArg Prod.fst hf
    exact congrArg Prod.snd hf
  by_cases hdivides : Pipeline.dividesLanguages dimensions options
  · rw [if_pos hdivides] at hp ⊢
    rcases List.mem_cons.mp hp with rfl | hp
    · rw [hlabel he]
      rfl
    · obtain ⟨l, _, rfl⟩ := List.mem_map.mp hp
      rw [hlabel he]
      rfl
  · rw [if_neg hdivides] at hp ⊢
    rw [List.mem_singleton.mp hp, hs]

/-- A property of targetings that no part has is no property of a part. -/
theorem eq_false_of_filter_targetings {ps : List Split} {q : Targeting → Bool}
    (h : (ps.map Split.targeting).filter q = []) {p : Split} (hp : p ∈ ps) :
    q p.targeting = false := by
  rw [← Bool.not_eq_true]
  exact List.filter_eq_nil_iff.mp h _ (List.mem_map_of_mem hp)

/-- Parts for all packages that are not targeted by language are untargeted. -/
theorem targeting_of_isCommon {t : Targeting} (hcommon : t.isCommon)
    (hlanguage : t.hasLanguage = false) : t = .untargeted := by
  rw [Targeting.isCommon, Bool.and_eq_true, Bool.and_eq_true] at hcommon
  have huntargeted : t.isUntargeted := by
    rw [Targeting.isUntargeted_eq, hlanguage, hcommon.1.1, hcommon.1.2, hcommon.2]
    rfl
  exact of_decide_eq_true huntargeted

/-- An entry for all packages is in the part that its path tells. -/
theorem targeting_of_mem_parts (h : m.parts dimensions options = .ok parts) {p : Split}
    (hp : p ∈ parts) (hcommon : p.targeting.isCommon) {e : Entry} (he : e ∈ p.entries) :
    p.targeting = commonTargeting dimensions options e.path := by
  have hother {ps : List Split} {c : Category} (hps : AllOf c ps) (hresources : c ≠ .resources)
      (hassets : c ≠ .assets) (hp : p ∈ ps) (hlanguage : p.targeting.hasLanguage = false) :
      p.targeting = commonTargeting dimensions options e.path := by
    have hcategory : Category.ofPath e.path = c := hps p hp e he
    rw [targeting_of_isCommon hcommon hlanguage, commonTargeting, hcategory]
    cases c with
    | resources => exact absurd rfl hresources
    | assets => exact absurd rfl hassets
    | nativeLibraries | apexImages | dex | root => simp
  have hlanguages {s : Split} {language? : String → Option Language} {c : Category}
      (hs : s.targeting = .untargeted) (hall : AllOf c [s])
      (hp : p ∈ languageParts dimensions options language? s) :
      Category.ofPath e.path = c ∧ p.targeting =
        if Pipeline.dividesLanguages dimensions options then
          (language? e.path).elim .untargeted .forLanguage else .untargeted :=
    ⟨allOf_languageParts hall p hp e he, targeting_of_mem_languageParts hs hp he⟩
  rw [eq_of_parts h] at hp
  simp only [List.mem_append, List.mem_cons, List.not_mem_nil, or_false, or_assoc] at hp
  rcases hp with hp | hp | hp | hp | hp | rfl | rfl
  · have hlanguage := eq_false_of_filter_targetings (filter_targetings_libraryParts rfl
      (p := Targeting.hasLanguage) fun _ _ => rfl) hp
    exact hother allOf_libraryParts (by decide) (by decide) hp hlanguage
  · obtain ⟨hcategory, htargeting⟩ :=
      hlanguages (owns_plainResources m dimensions).2 allOf_plainResources hp
    rw [htargeting, commonTargeting, hcategory]
  · obtain ⟨d, _, rfl⟩ := List.mem_map.mp hp
    simp [Targeting.isCommon] at hcommon
  · have hlanguage := eq_false_of_filter_targetings (filter_targetings_imageParts rfl
      (p := Targeting.hasLanguage) fun _ _ => rfl) hp
    exact hother allOf_imageParts (by decide) (by decide) hp hlanguage
  · obtain ⟨hcategory, htargeting⟩ := hlanguages rfl (allOf_split m .assets) hp
    rw [htargeting, commonTargeting, hcategory]
  · exact hother (allOf_split m .dex) (by decide) (by decide) (List.mem_singleton_self _) rfl
  · exact hother (allOf_split m .root) (by decide) (by decide) (List.mem_singleton_self _) rfl

/-- No path has two contents in the parts of one targeting if none has in the parts for all
packages, and none in the other parts of one targeting. -/
theorem pathsConsistent_iff (h : m.parts dimensions options = .ok parts) :
    (∀ t, PathsConsistent (entriesFor parts t)) ↔
      PathsConsistent ((parts.filter (·.targeting.isCommon)).flatMap Split.entries) ∧
        ∀ t, t.isCommon = false → PathsConsistent (entriesFor parts t) := by
  have hmem {e : Entry} : e ∈ (parts.filter (·.targeting.isCommon)).flatMap Split.entries ↔
      ∃ p ∈ parts, p.targeting.isCommon ∧ e ∈ p.entries := by
    simp only [List.mem_flatMap, List.mem_filter, and_assoc]
  constructor
  · intro hpaths
    refine ⟨fun e he f hf hpath => ?_, fun t _ => hpaths t⟩
    obtain ⟨p, hp, hcommon, he⟩ := hmem.mp he
    obtain ⟨q, hq, hcommon', hf⟩ := hmem.mp hf
    -- the path tells the targeting, so both entries are merged into one split
    have hsame : p.targeting = q.targeting := by
      rw [targeting_of_mem_parts h hp hcommon he, targeting_of_mem_parts h hq hcommon' hf, hpath]
    exact hpaths q.targeting e (mem_entriesFor.mpr ⟨p, hp, hsame, he⟩) f
      (mem_entriesFor.mpr ⟨q, hq, rfl, hf⟩) hpath
  · rintro ⟨hcommon, hother⟩ t
    cases ht : t.isCommon with
    | false => exact hother t ht
    | true =>
      refine hcommon.subset fun e he => ?_
      obtain ⟨p, hp, hpt, he⟩ := mem_entriesFor.mp he
      exact hmem.mpr ⟨p, hp, by rw [hpt, ht], he⟩

section Agree

variable (hagree : AgreeBesideLanguages dimensions options dimensions' options')
include hagree

/-- The native libraries are divided alike. -/
theorem libraryParts_of_agree :
    m.libraryParts dimensions options = m.libraryParts dimensions' options' := by
  simp only [libraryParts, libraryLabels, hagree.abi, hagree.keeps]

/-- The resources for density classes are the same. -/
theorem densityParts_of_agree : m.densityParts dimensions = m.densityParts dimensions' := by
  simp only [densityParts, densities, hagree.screenDensity]

/-- The resources that have no density are the same. -/
theorem plainResources_of_agree : m.plainResources dimensions = m.plainResources dimensions' := by
  simp only [plainResources, hagree.screenDensity]

/-- The parts of a module can be made in both settings or in none. -/
theorem exists_parts_of_agree (h : m.parts dimensions options = .ok parts) :
    ∃ parts', m.parts dimensions' options' = .ok parts' := by
  obtain ⟨libraries, hlibraries, h⟩ := bind_eq_ok_iff.mp h
  obtain ⟨_, _, h⟩ := bind_eq_ok_iff.mp h
  obtain ⟨images, himages, _⟩ := bind_eq_ok_iff.mp h
  have hpipeline : Pipeline.nativeLibraries dimensions options =
      Pipeline.nativeLibraries dimensions' options' := by
    simp only [Pipeline.nativeLibraries, hagree.abi, hagree.generate64Bit]
  rw [hpipeline] at hlibraries
  exact ⟨_, bind_eq_ok_iff.mpr ⟨libraries, hlibraries, bind_eq_ok_iff.mpr ⟨_, resources_split,
    bind_eq_ok_iff.mpr ⟨images, himages, bind_eq_ok_iff.mpr ⟨_, assets_split, rfl⟩⟩⟩⟩⟩

variable (h : m.parts dimensions options = .ok parts)
variable (h' : m.parts dimensions' options' = .ok parts')
include h h'

/-- The parts that are not for all packages are the same in both settings. -/
theorem filter_parts_of_agree (q : Targeting → Bool) (huntargeted : q .untargeted = false)
    (hlanguage : ∀ l, q (.forLanguage l) = false) :
    parts.filter (q ·.targeting) = parts'.filter (q ·.targeting) := by
  have hnone {language? : String → Option Language} {s : Split} (hs : s.targeting = .untargeted)
      (d : OrderedSet Dimension) (o : ShardingOptions) :
      (languageParts d o language? s).filter (q ·.targeting) = [] := by
    refine List.filter_eq_nil_iff.mpr fun p hp hq => ?_
    rw [eq_false_of_filter_targetings
      (filter_targetings_languageParts huntargeted language? hs hlanguage) hp] at hq
    cases hq
  rw [eq_of_parts h, eq_of_parts h']
  simp only [List.filter_append]
  rw [hnone (owns_plainResources m _).2, hnone (owns_plainResources m _).2,
    hnone (s := m.split .assets) rfl, hnone (s := m.split .assets) rfl,
    libraryParts_of_agree hagree, densityParts_of_agree hagree]

/-- The parts for all packages hold the same entries in both settings. -/
theorem common_parts_of_agree :
    ((parts.filter (·.targeting.isCommon)).flatMap Split.entries).Perm
      ((parts'.filter (·.targeting.isCommon)).flatMap Split.entries) := by
  have hlanguages (language? : String → Option Language) {s : Split}
      (hs : s.targeting = .untargeted) :
      (((languageParts dimensions options language? s).filter
        (·.targeting.isCommon)).flatMap Split.entries).Perm
      (((languageParts dimensions' options' language? s).filter
        (·.targeting.isCommon)).flatMap Split.entries) :=
    (common_languageParts language? hs).trans (common_languageParts language? hs).symm
  have hresources := hlanguages resourceLanguage? (owns_plainResources m dimensions').2
  have hassets := hlanguages assetLanguage? (rfl : (m.split .assets).targeting = .untargeted)
  rw [eq_of_parts h, eq_of_parts h', libraryParts_of_agree hagree, densityParts_of_agree hagree,
    plainResources_of_agree hagree]
  simp only [List.filter_append, List.flatMap_append]
  apply List.Perm.append_right
  refine List.Perm.append ?_ hassets
  apply List.Perm.append_right
  apply List.Perm.append_left
  exact hresources.append_right _

/-- No path has two contents in the parts of one targeting, in both settings or in none. -/
theorem pathsConsistent_of_agree (hpaths : ∀ t, PathsConsistent (entriesFor parts t))
    (t : Targeting) : PathsConsistent (entriesFor parts' t) := by
  obtain ⟨hcommon, hother⟩ := (pathsConsistent_iff h).mp hpaths
  refine (pathsConsistent_iff h').mpr ⟨?_, fun t ht => ?_⟩ t
  · exact hcommon.subset fun e he => (common_parts_of_agree hagree h h').mem_iff.mpr he
  · have hne {u : Targeting} (hu : u.isCommon) : decide (u = t) = false := by
      refine decide_eq_false fun hut => ?_
      rw [hut, ht] at hu
      cases hu
    have hsame := filter_parts_of_agree hagree h h' (· = t) (hne rfl) fun l => hne rfl
    rw [entriesFor, ← hsame]
    exact hother t ht

end Agree

/-- The splits for all packages hold the entries of the parts for all packages. -/
theorem mem_common_splitsOf (hpaths : ∀ t, PathsConsistent (entriesFor parts t)) {e : Entry} :
    (∃ s ∈ splitsOf parts, s.targeting.isCommon ∧ e ∈ s.entries) ↔
      e ∈ (parts.filter (·.targeting.isCommon)).flatMap Split.entries := by
  have hentries {s : Split} (hs : s ∈ splitsOf parts) :
      e ∈ s.entries ↔ e ∈ entriesFor parts s.targeting := by
    rw [entries_of_mem_splitsOf hs]
    exact (hpaths _).mem_uniquePaths
  rw [List.mem_flatMap]
  constructor
  · rintro ⟨s, hs, hcommon, he⟩
    obtain ⟨p, hp, ht, he⟩ := mem_entriesFor.mp ((hentries hs).mp he)
    exact ⟨p, List.mem_filter.mpr ⟨hp, by rwa [ht]⟩, he⟩
  · rintro ⟨p, hp, he⟩
    obtain ⟨hp, hcommon⟩ := List.mem_filter.mp hp
    have hmem : p.targeting ∈ (splitsOf parts).map Split.targeting := by
      rw [targetings_splitsOf]
      exact List.mem_eraseDups.mpr (List.mem_map_of_mem hp)
    obtain ⟨s, hs, ht⟩ := List.mem_map.mp hmem
    refine ⟨s, hs, by rwa [ht], (hentries hs).mpr ?_⟩
    exact mem_entriesFor.mpr ⟨p, hp, ht.symm, he⟩

/-- A module can be divided in both settings or in none, and the divisions differ in languages
only. -/
theorem exists_splits_of_agree
    (hagree : AgreeBesideLanguages dimensions options dimensions' options')
    (h : m.splits dimensions options = .ok own) :
    ∃ own', m.splits dimensions' options' = .ok own' ∧ SplitsAlike own own' := by
  obtain ⟨parts, hparts, hpaths, rfl⟩ := splits_eq_ok_iff_pathsConsistent.mp h
  obtain ⟨parts', hparts'⟩ := exists_parts_of_agree hagree hparts
  have hpaths' := pathsConsistent_of_agree hagree hparts hparts' hpaths
  have h' := splits_of_entriesFor hpaths' hparts'
  have hname (s : Split) (hs : s ∈ splitsOf parts) : s.moduleName = m.name :=
    ((isDivision_of_splits h).isPart s hs).moduleName
  have hname' (s : Split) (hs : s ∈ splitsOf parts') : s.moduleName = m.name :=
    ((isDivision_of_splits h').isPart s hs).moduleName
  have hcommon (e : Entry) : (∃ s ∈ splitsOf parts, s.targeting.isCommon ∧ e ∈ s.entries) ↔
      ∃ s ∈ splitsOf parts', s.targeting.isCommon ∧ e ∈ s.entries := by
    rw [mem_common_splitsOf hpaths, mem_common_splitsOf hpaths']
    exact (common_parts_of_agree hagree hparts hparts').mem_iff
  refine ⟨splitsOf parts', h', fun name e => ?_, ?_⟩
  · constructor
    · rintro ⟨s, hs, rfl, hes⟩
      obtain ⟨s', hs', hes'⟩ := (hcommon e).mp ⟨s, hs, hes⟩
      exact ⟨s', hs', (hname' s' hs').trans (hname s hs).symm, hes'⟩
    · rintro ⟨s, hs, rfl, hes⟩
      obtain ⟨s', hs', hes'⟩ := (hcommon e).mpr ⟨s, hs, hes⟩
      exact ⟨s', hs', (hname s' hs').trans (hname' s hs).symm, hes'⟩
  · intro q huntargeted hlanguage
    rw [filter_splitsOf, filter_splitsOf,
      filter_parts_of_agree hagree hparts hparts' q huntargeted hlanguage]

end AppModule

end AppBundle
