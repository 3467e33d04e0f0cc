import AppBundle.Proofs.JoinedTexts
import AppBundle.Proofs.SplitEntries

/-!
# Resources in the split of their own density

A resource that is qualified by a density goes into the split of its own density class if it is
the last one of its module for the same key and the same class. Otherwise it goes into no split
at all. Different paths can have the same key and the same class, so a file can be lost.
-/

namespace AppBundle

namespace ResourcePath

variable {path path' : String} {r r' : ResourcePath}

/-- The qualifiers besides densities. -/
def others (r : ResourcePath) : List String :=
  r.qualifiers.filter fun q => (Density.ofName? q).isNone

/-- The type of a resource has no bracket, and none of its qualifiers is empty. -/
def IsTidy (r : ResourcePath) : Prop := '[' ∉ r.kind.toList ∧ "" ∉ r.qualifiers

instance (r : ResourcePath) : Decidable r.IsTidy := inferInstanceAs (Decidable (_ ∧ _))

/-- The qualifiers of a resource are parts of a directory name between hyphens. -/
theorem not_mem_of_mem_qualifiers (h : parse? path = some r) {q : String} (hq : q ∈ r.qualifiers) :
    '-' ∉ q.toList ∧ '/' ∉ q.toList := by
  obtain ⟨rest, _, h⟩ := Option.bind_eq_some_iff.mp h
  obtain ⟨⟨directory, file⟩, hcut, h⟩ := Option.bind_eq_some_iff.mp h
  obtain ⟨⟨left, right⟩, hchars, heq⟩ := Option.map_eq_some_iff.mp hcut
  obtain ⟨rfl, rfl⟩ := Prod.mk.inj heq
  have hdirectory : '/' ∉ (String.ofList left).toList := by
    rw [String.toList_ofList]
    exact (Text.cutChars?_eq_some_iff.mp hchars).2
  cases hpieces : Text.split '-' (String.ofList left) with
  | nil => exact absurd hpieces (Text.split_ne_nil _ _)
  | cons kind qualifiers =>
    simp only [hpieces, Option.some.injEq] at h
    rw [← h] at hq
    have hpiece : q ∈ Text.split '-' (String.ofList left) :=
      hpieces ▸ List.mem_cons_of_mem _ hq
    obtain ⟨hhyphen, hchar⟩ := Text.mem_of_mem_split hpiece
    exact ⟨hhyphen, fun hslash => hdirectory (hchar _ hslash)⟩

/-- The key of a tidy resource tells its type, its qualifiers besides densities and its file. -/
theorem eq_of_key_eq (h : parse? path = some r) (h' : parse? path' = some r') (htidy : r.IsTidy)
    (htidy' : r'.IsTidy) (hkey : r.key = r'.key) :
    r.kind = r'.kind ∧ r.others = r'.others ∧ r.file = r'.file := by
  have hplain {path : String} {r : ResourcePath} (h : parse? path = some r) (htidy : r.IsTidy) :
      ∀ q ∈ r.others, q ≠ "" ∧ '-' ∉ q.toList ∧ '/' ∉ q.toList := by
    intro q hq
    have hmem := (List.mem_filter.mp hq).1
    exact ⟨fun hempty => htidy.2 (hempty ▸ hmem), not_mem_of_mem_qualifiers h hmem⟩
  have hslash {path : String} {r : ResourcePath} (h : parse? path = some r) (htidy : r.IsTidy) :
      '/' ∉ (Text.join "-" r.others ++ "]").toList := by
    rw [String.toList_append, List.mem_append]
    rintro (hmem | hmem)
    · rcases Text.mem_of_mem_join hmem with hmem | ⟨q, hq, hmem⟩
      · exact absurd hmem (by decide)
      · exact (hplain h htidy q hq).2.2 hmem
    · exact absurd hmem (by decide)
  have hshape (r : ResourcePath) :
      r.key = r.kind ++ "[" ++ (Text.join "-" r.others ++ "]" ++ "/" ++ r.file) := by
    have hclose : "]/" = "]" ++ "/" := by decide
    simp only [key, hclose, others, String.append_assoc]
  rw [hshape, hshape] at hkey
  have hkind : r.kind = r'.kind := by
    have hcut := congrArg (Text.split '[') hkey
    rw [Text.split_append_of_not_mem rfl htidy.1,
      Text.split_append_of_not_mem rfl htidy'.1] at hcut
    exact (List.cons.inj hcut).1
  rw [hkind, String.append_right_inj] at hkey
  have hothers : Text.join "-" r.others ++ "]" = Text.join "-" r'.others ++ "]" := by
    have hcut := congrArg (Text.split '/') hkey
    rw [Text.split_append_of_not_mem rfl (hslash h htidy),
      Text.split_append_of_not_mem rfl (hslash h' htidy')] at hcut
    exact (List.cons.inj hcut).1
  rw [hothers, String.append_right_inj] at hkey
  refine ⟨hkind, ?_, hkey⟩
  exact Text.join_injective rfl (fun q hq => ⟨(hplain h htidy q hq).1, (hplain h htidy q hq).2.1⟩)
    (fun q hq => ⟨(hplain h' htidy' q hq).1, (hplain h' htidy' q hq).2.1⟩)
    ((String.append_left_inj _).mp hothers)

end ResourcePath

/-- A density class is the best one for itself. -/
theorem Density.bestMatch_of_mem {candidates : List Density} {d : Density} (h : d ∈ candidates) :
    bestMatch d.dpi candidates = some d :=
  bestMatch_eq_some_iff.mpr ⟨h, .inl ⟨Nat.le_refl _, fun _ _ hdpi => hdpi⟩⟩

namespace AppModule

variable {m : AppModule} {dimensions : OrderedSet Dimension} {options : ShardingOptions}
variable {splits : List Split} {d : Density} {e : Entry} {v : DensityVariant}

/-- A variant is the last one of a module for its key and its density class. -/
def IsLastVariant (m : AppModule) (v : DensityVariant) : Prop :=
  (m.variants.filter fun w => w.key = v.key && w.density = v.density).getLast? = some v

instance (m : AppModule) (v : DensityVariant) : Decidable (m.IsLastVariant v) :=
  inferInstanceAs (Decidable (_ = _))

/-- A last variant is a variant. -/
theorem IsLastVariant.mem (h : m.IsLastVariant v) : v ∈ m.variants :=
  (List.mem_filter.mp (List.mem_of_getLast? h)).1

/-- The variants of a resource are meant for the density classes that it has. -/
theorem density_mem_densities (h : v ∈ m.variants) :
    v.density ∈ (DensityVariant.densities m.variants v.key).toList :=
  OrderedSet.mem_ofList.mpr
    (List.mem_map_of_mem (List.mem_filter.mpr ⟨h, decide_eq_true rfl⟩))

/-- The entries for a density class are the last variants of the class that suits it best. -/
theorem mem_densityEntries_iff : e ∈ m.densityEntries d ↔
    ∃ v, DensityVariant.ofEntry? e = some v ∧ m.IsLastVariant v ∧
      Density.bestMatch d.dpi (DensityVariant.densities m.variants v.key).toList =
        some v.density := by
  have hentry {w : DensityVariant} (hw : w ∈ m.variants) :
      DensityVariant.ofEntry? w.entry = some w := by
    obtain ⟨f, _, hf⟩ := mem_variants.mp hw
    rwa [DensityVariant.entry_of_ofEntry? hf]
  rw [densityEntries, List.mem_filterMap]
  constructor
  · rintro ⟨key, _, hbest⟩
    obtain ⟨best, hmatch, hfound⟩ := Option.bind_eq_some_iff.mp hbest
    obtain ⟨v, hv, rfl⟩ := Option.map_eq_some_iff.mp hfound
    obtain ⟨hmem, hkey⟩ := List.mem_filter.mp (List.mem_of_getLast? hv)
    obtain ⟨rfl, rfl⟩ : v.key = key ∧ v.density = best := by simpa using hkey
    exact ⟨v, hentry hmem, hv, hmatch⟩
  · rintro ⟨v, hv, hlast, hmatch⟩
    refine ⟨v.key, OrderedSet.mem_ofList.mpr (List.mem_map_of_mem hlast.mem), ?_⟩
    refine Option.bind_eq_some_iff.mpr ⟨v.density, hmatch, ?_⟩
    exact Option.map_eq_some_iff.mpr ⟨v, hlast, DensityVariant.entry_of_ofEntry? hv⟩

/-- A variant is among the entries for its own density class if it is the last one. -/
theorem mem_densityEntries_self_iff (hv : DensityVariant.ofEntry? e = some v) :
    e ∈ m.densityEntries v.density ↔ m.IsLastVariant v := by
  rw [mem_densityEntries_iff]
  constructor
  · rintro ⟨w, hw, hlast, _⟩
    rwa [Option.some.inj (hv.symm.trans hw)]
  · intro hlast
    exact ⟨v, hv, hlast, Density.bestMatch_of_mem (density_mem_densities hlast.mem)⟩

section Splits

variable (h : m.splits dimensions options = .ok splits)
variable (he : e ∈ m.entries) (hv : DensityVariant.ofEntry? e = some v)
include h he hv

/-- The density class of a variant has a split. -/
theorem exists_split_of_variant (hdim : .screenDensity ∈ dimensions) :
    ∃ s ∈ splits, s.targeting.density.values = .singleton v.density ∧
      s.entries = m.densityEntries v.density := by
  have hvariants : m.variants ≠ [] := List.ne_nil_of_mem (mem_variants.mpr ⟨e, he, hv⟩)
  have hd : v.density ∈ m.densities dimensions := by
    rw [densities, if_pos ⟨hdim, by simpa using hvariants⟩, OrderedSet.mem_ofList]
    exact Density.mem_all _
  have htargeting : Targeting.forDensity v.density
      ((m.densities dimensions).filter (· ≠ v.density)) ∈
      (splits.filter (·.targeting.hasDensity)).map Split.targeting := by
    rw [(isDivision_of_splits h).forDensity]
    exact List.mem_map.mpr ⟨v.density, hd, rfl⟩
  obtain ⟨s, hs, ht⟩ := List.mem_map.mp htargeting
  have hs := (List.mem_filter.mp hs).1
  refine ⟨s, hs, by rw [ht]; rfl, entries_of_forDensity h hd hs ht⟩

/-- The last variant of a module for its key and its class is in the split of its class. -/
theorem exists_own_split (hdim : .screenDensity ∈ dimensions) (hlast : m.IsLastVariant v) :
    ∃ s ∈ splits, v.density ∈ s.targeting.density.values ∧ e ∈ s.entries := by
  obtain ⟨s, hs, ht, hentries⟩ := exists_split_of_variant h he hv hdim
  refine ⟨s, hs, ?_, ?_⟩
  · rw [ht]
    exact OrderedSet.mem_singleton.mpr rfl
  · rw [hentries]
    exact (mem_densityEntries_self_iff hv).mpr hlast

/-- A variant is in no other splits than those of density classes. -/
theorem exists_density_of_mem_split (hpaths : (m.entries.map Entry.path).Nodup)
    (hdim : .screenDensity ∈ dimensions) {s : Split} (hs : s ∈ splits) (hes : e ∈ s.entries) :
    ∃ d, s.targeting.density.values = .singleton d ∧ e ∈ m.densityEntries d := by
  have hcategory := DensityVariant.category_of_ofEntry? hv
  have hcommon (hs' : s.targeting.isCommon) : False := by
    have hmem := (common_splits hpaths h).mem_iff.mp
      (List.mem_flatMap.mpr ⟨s, List.mem_filter.mpr ⟨hs, hs'⟩, hes⟩)
    have hnone := (List.mem_filter.mp hmem).2
    simp [isCommon, hdim, hv] at hnone
  have hpart := ((isDivision_of_splits h).isPart s hs).targeting
  generalize ht : s.targeting = t at hpart
  cases hpart with
  | untargeted => exact (hcommon (by rw [ht]; rfl)).elim
  | forLanguage _ => exact (hcommon (by rw [ht]; rfl)).elim
  | @forAbi a ha =>
    rw [entries_of_forAbi hpaths h ha hs ht, List.mem_filter, decide_eq_true_eq] at hes
    rw [Entry.category_of_abi? hes.2] at hcategory
    cases hcategory
  | @forAbiSet k hk =>
    have hset := (isSome_imageSet?_iff hpaths h he).mpr ⟨s, hs, by rw [ht]; rfl, hes⟩
    obtain ⟨k, hk⟩ := Option.isSome_iff_exists.mp hset
    rw [category_of_imageSet? hk] at hcategory
    cases hcategory
  | @forDensity d hd =>
    rw [entries_of_forDensity h hd hs ht] at hes
    exact ⟨d, by rfl, hes⟩

end Splits

/-- A variant that is in any split is the last one of its module for its key and its class. -/
theorem isLastVariant_of_mem_split (hpaths : (m.entries.map Entry.path).Nodup)
    (hdim : .screenDensity ∈ dimensions) (h : m.splits dimensions options = .ok splits)
    (he : e ∈ m.entries) (hv : DensityVariant.ofEntry? e = some v) {s : Split} (hs : s ∈ splits)
    (hes : e ∈ s.entries) : m.IsLastVariant v := by
  obtain ⟨d, _, hmem⟩ := exists_density_of_mem_split h he hv hpaths hdim hs hes
  obtain ⟨w, hw, hlast, _⟩ := mem_densityEntries_iff.mp hmem
  rwa [Option.some.inj (hv.symm.trans hw)]

/-- Two paths of a module stand for variants of one resource for one density class. -/
def SameVariant (e f : Entry) : Prop :=
  ∃ r r' d, ResourcePath.parse? e.path = some r ∧ ResourcePath.parse? f.path = some r' ∧
    r.density? = some d ∧ r'.density? = some d ∧
    r.kind = r'.kind ∧ r.others = r'.others ∧ r.file = r'.file

/-- The resources of a module that are qualified by a density are tidy, and no two entries stand
for the same variant of a resource. -/
structure HasTidyVariants (m : AppModule) : Prop where
  tidy : ∀ e ∈ m.entries, ∀ r, ResourcePath.parse? e.path = some r → r.density?.isSome → r.IsTidy
  unique : ∀ e ∈ m.entries, ∀ f ∈ m.entries, SameVariant e f → e = f

/-- A variant that is the only one for its key and its class is the last one. -/
theorem isLastVariant_of_unique (hv : v ∈ m.variants)
    (hunique : ∀ w ∈ m.variants, w.key = v.key → w.density = v.density → w = v) :
    m.IsLastVariant v := by
  have hmem : v ∈ m.variants.filter fun w => w.key = v.key && w.density = v.density :=
    List.mem_filter.mpr ⟨hv, by simp⟩
  obtain ⟨w, hw⟩ : ∃ w, (m.variants.filter fun w =>
      w.key = v.key && w.density = v.density).getLast? = some w :=
    ⟨_, List.getLast?_eq_some_getLast (List.ne_nil_of_mem hmem)⟩
  obtain ⟨hwmem, hwv⟩ := List.mem_filter.mp (List.mem_of_getLast? hw)
  obtain ⟨hkey, hdensity⟩ : w.key = v.key ∧ w.density = v.density := by simpa using hwv
  rw [IsLastVariant, hw, hunique w hwmem hkey hdensity]

/-- In a module with tidy variants, the key and the class tell the variant. -/
theorem HasTidyVariants.eq_of_key_eq (h : m.HasTidyVariants) {w : DensityVariant}
    (hv : v ∈ m.variants) (hw : w ∈ m.variants) (hkey : w.key = v.key)
    (hdensity : w.density = v.density) : w = v := by
  obtain ⟨e, he, hev⟩ := mem_variants.mp hv
  obtain ⟨f, hf, hfw⟩ := mem_variants.mp hw
  obtain ⟨r, hr, hrv⟩ := Option.bind_eq_some_iff.mp hev
  obtain ⟨d, hd, hrv⟩ := Option.bind_eq_some_iff.mp hrv
  obtain ⟨r', hr', hrw⟩ := Option.bind_eq_some_iff.mp hfw
  obtain ⟨d', hd', hrw⟩ := Option.bind_eq_some_iff.mp hrw
  rw [← Option.some.inj hrv, ← Option.some.inj hrw] at hkey hdensity
  obtain rfl : d' = d := hdensity
  have hparts := ResourcePath.eq_of_key_eq hr' hr
    (h.tidy f hf r' hr' (by rw [hd']; rfl)) (h.tidy e he r hr (by rw [hd]; rfl)) hkey
  have hfe : f = e := h.unique f hf e he ⟨r', r, d', hr', hr, hd', hd, hparts⟩
  rw [hfe] at hfw
  exact Option.some.inj (hfw.symm.trans hev)

/-- In a module with tidy variants, every variant is the last one for its key and its class. -/
theorem HasTidyVariants.isLastVariant (h : m.HasTidyVariants) (hv : v ∈ m.variants) :
    m.IsLastVariant v :=
  isLastVariant_of_unique hv fun _ hw => h.eq_of_key_eq hv hw

/-- A resource that is qualified by a density is in the split of its own density class exactly
if it is the last one of its module for its key and its class, and otherwise it is in no split. So
no resource of a module with tidy variants is lost. -/
theorem mem_split_iff_isLastVariant (hpaths : (m.entries.map Entry.path).Nodup)
    (hdim : .screenDensity ∈ dimensions) (h : m.splits dimensions options = .ok splits)
    (he : e ∈ m.entries) (hv : DensityVariant.ofEntry? e = some v) :
    ((∃ s ∈ splits, v.density ∈ s.targeting.density.values ∧ e ∈ s.entries) ↔
        m.IsLastVariant v) ∧
      ((∃ s ∈ splits, e ∈ s.entries) ↔ m.IsLastVariant v) ∧
      (m.HasTidyVariants →
        ∃ s ∈ splits, v.density ∈ s.targeting.density.values ∧ e ∈ s.entries) := by
  have hown := exists_own_split h he hv hdim
  have hlost {s : Split} (hs : s ∈ splits) (hes : e ∈ s.entries) : m.IsLastVariant v :=
    isLastVariant_of_mem_split hpaths hdim h he hv hs hes
  refine ⟨⟨?_, hown⟩, ⟨?_, ?_⟩, ?_⟩
  · rintro ⟨s, hs, _, hes⟩
    exact hlost hs hes
  · rintro ⟨s, hs, hes⟩
    exact hlost hs hes
  · intro hlast
    obtain ⟨s, hs, _, hes⟩ := hown hlast
    exact ⟨s, hs, hes⟩
  · intro htidy
    exact hown (htidy.isLastVariant (mem_variants.mpr ⟨e, he, hv⟩))

/-- A module with two drawables whose directories differ in an empty qualifier only. -/
def untidyModule : AppModule where
  name := baseName
  entries :=
    [⟨"res/drawable-hdpi/icon.png", ⟨#[1]⟩⟩, ⟨"res/drawable--hdpi/icon.png", ⟨#[2]⟩⟩]

/-- The drawable that comes last in the untidy module is in the split of its own class. -/
theorem mem_split_iff_untidyModule :
    ∃ splits e v, untidyModule.splits (.singleton .screenDensity) {} = .ok splits ∧
      (untidyModule.entries.map Entry.path).Nodup ∧ e ∈ untidyModule.entries ∧
      DensityVariant.ofEntry? e = some v ∧
      ∃ s ∈ splits, v.density ∈ s.targeting.density.values ∧ e ∈ s.entries := by
  obtain ⟨splits, h⟩ := exists_of_isSome_toOption
    (x := untidyModule.splits (.singleton .screenDensity) {}) (by decide +kernel)
  have hpaths : (untidyModule.entries.map Entry.path).Nodup := by decide
  have he : ⟨"res/drawable--hdpi/icon.png", ⟨#[2]⟩⟩ ∈ untidyModule.entries := by decide
  have hv : DensityVariant.ofEntry? ⟨"res/drawable--hdpi/icon.png", ⟨#[2]⟩⟩ =
      some ⟨"drawable[]/icon.png", .hdpi, ⟨"res/drawable--hdpi/icon.png", ⟨#[2]⟩⟩⟩ := by
    decide +kernel
  refine ⟨splits, _, _, h, hpaths, he, hv, ?_⟩
  exact (mem_split_iff_isLastVariant hpaths (by decide) h he hv).1.mpr (by decide +kernel)

/-- The drawable that comes first in the untidy module is in no split. -/
theorem exists_lost_variant_untidyModule :
    ∃ splits e v, untidyModule.splits (.singleton .screenDensity) {} = .ok splits ∧
      (untidyModule.entries.map Entry.path).Nodup ∧ e ∈ untidyModule.entries ∧
      DensityVariant.ofEntry? e = some v ∧ ∀ s ∈ splits, e ∉ s.entries := by
  obtain ⟨splits, h⟩ := exists_of_isSome_toOption
    (x := untidyModule.splits (.singleton .screenDensity) {}) (by decide +kernel)
  have hpaths : (untidyModule.entries.map Entry.path).Nodup := by decide
  have he : ⟨"res/drawable-hdpi/icon.png", ⟨#[1]⟩⟩ ∈ untidyModule.entries := List.mem_cons_self
  have hdim : Dimension.screenDensity ∈ OrderedSet.singleton Dimension.screenDensity := by decide
  have hv : DensityVariant.ofEntry? ⟨"res/drawable-hdpi/icon.png", ⟨#[1]⟩⟩ =
      some ⟨"drawable[]/icon.png", .hdpi, ⟨"res/drawable-hdpi/icon.png", ⟨#[1]⟩⟩⟩ := by
    decide +kernel
  refine ⟨splits, _, _, h, hpaths, he, hv, fun s hs hes => ?_⟩
  exact absurd (isLastVariant_of_mem_split hpaths hdim h he hv hs hes) (by decide +kernel)

end AppModule

end AppBundle
