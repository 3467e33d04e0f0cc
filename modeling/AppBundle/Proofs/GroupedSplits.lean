import AppBundle.Proofs.PlanFailures

/-!
# Grouping of arbitrary splits

Grouping checks what it takes for granted of its splits. This file says for all lists of splits,
whatever their targetings and flags, which of them pass the checks, and describes the shards as a
grid of classes: the shard of two classes stands at its place in the grid, no two places have the
same shard, and it is told how many shards a split is in. The main statement gives all outcomes.
-/

namespace AppBundle

section Products

variable {α β : Type} {as : List α} {bs : List β}

/-- A pair of elements stands in the row of the first one and the column of the second one. -/
theorem getElem?_product {i j : Nat} {a : α} {b : β} (ha : as[i]? = some a)
    (hb : bs[j]? = some b) : (as ×ˢ bs)[i * bs.length + j]? = some (a, b) := by
  induction as generalizing i with
  | nil => simp at ha
  | cons c as ih =>
    obtain ⟨hj, _⟩ := List.getElem?_eq_some_iff.mp hb
    rw [List.product_cons]
    cases i with
    | zero =>
      obtain rfl := Option.some.inj ha
      rw [Nat.zero_mul, Nat.zero_add, List.getElem?_append_left (by rwa [List.length_map]),
        List.getElem?_map, hb, Option.map_some]
    | succ i =>
      have hplace : (i + 1) * bs.length + j - (bs.map (c, ·)).length = i * bs.length + j := by
        rw [List.length_map, Nat.succ_mul]
        omega
      have hlater : (bs.map (c, ·)).length ≤ (i + 1) * bs.length + j := by
        rw [List.length_map, Nat.succ_mul]
        omega
      rw [List.getElem?_append_right hlater, hplace]
      exact ih ha

/-- Pairs that are selected by their first element fill rows. -/
theorem countP_product_fst (p : α → Bool) :
    (as ×ˢ bs).countP (fun q => p q.1) = as.countP p * bs.length := by
  induction as with
  | nil => simp
  | cons a as ih =>
    rw [List.product_cons, List.countP_append, ih, List.countP_map, List.countP_cons, Nat.add_mul,
      Nat.add_comm]
    by_cases ha : p a
    · simp [Function.comp_def, ha]
    · simp [Function.comp_def, ha]

/-- Pairs that are selected by their second element fill columns. -/
theorem countP_product_snd (p : β → Bool) :
    (as ×ˢ bs).countP (fun q => p q.2) = as.length * bs.countP p := by
  induction as with
  | nil => simp
  | cons a as ih =>
    rw [List.product_cons, List.countP_append, ih, List.countP_map, List.length_cons, Nat.succ_mul,
      Nat.add_comm]
    rfl

end Products

/-- Some splits in classes of the same targeting. -/
structure IsClassing (splits : List Split) (classes : List (List Split)) : Prop where
  /-- Without splits there is one class, which is empty. -/
  eq_of_nil : splits = [] → classes = [[]]
  /-- With splits no class is empty. -/
  not_mem_nil : splits ≠ [] → [] ∉ classes
  /-- A class consists of all splits of one targeting, in their order. -/
  class_eq : ∀ c ∈ classes, ∀ s ∈ c, c = splits.filter (·.targeting = s.targeting)
  /-- The classes come in the order in which their targetings occur first. -/
  targetings : (classes.filterMap List.head?).map Split.targeting =
    (splits.map Split.targeting).eraseDups

section Classes

variable {splits : List Split} {classes : List (List Split)}

/-- The classes that grouping makes are such classes. -/
theorem isClassing_targetingClasses (splits : List Split) :
    IsClassing splits (targetingClasses splits) := by
  cases hnil : (splits.map Split.targeting).eraseDups with
  | nil =>
    have hsplits : splits = [] := by
      cases splits with
      | nil => rfl
      | cons s ss => simp [List.eraseDups_cons] at hnil
    rw [hsplits]
    exact ⟨fun _ => rfl, by simp, by simp [targetingClasses], rfl⟩
  | cons t ts =>
    have hclasses : targetingClasses splits =
        (splits.map Split.targeting).eraseDups.map fun t => splits.filter (·.targeting = t) := by
      rw [hnil]
      exact targetingClasses_of_eraseDups (List.cons_ne_nil t ts) hnil
    have hhead : ∀ t ∈ (splits.map Split.targeting).eraseDups,
        ((splits.filter (·.targeting = t)).head?).map Split.targeting = some t := by
      intro t ht
      obtain ⟨s, hs, rfl⟩ := List.mem_map.mp (List.mem_eraseDups.mp ht)
      cases hclass : splits.filter (·.targeting = s.targeting) with
      | nil => exact absurd (List.filter_eq_nil_iff.mp hclass s hs) (by simp)
      | cons first rest =>
        have hfirst : first ∈ splits.filter (·.targeting = s.targeting) := by simp [hclass]
        rw [List.head?_cons, Option.map_some, of_decide_eq_true (List.mem_filter.mp hfirst).2]
    rw [hclasses]
    refine ⟨fun h => ?_, fun _ hmem => ?_, fun c hc s hs => ?_, ?_⟩
    · simp [h] at hnil
    · obtain ⟨t, ht, hclass⟩ := List.mem_map.mp hmem
      simpa [hclass] using hhead t ht
    · obtain ⟨t, _, rfl⟩ := List.mem_map.mp hc
      rw [of_decide_eq_true (List.mem_filter.mp hs).2]
    · rw [List.map_filterMap, List.filterMap_map]
      exact (List.filterMap_congr hhead).trans List.filterMap_some

variable (h : IsClassing splits classes)
include h

/-- The splits of a class are splits. -/
theorem IsClassing.mem_of_mem {c : List Split} (hc : c ∈ classes) {s : Split} (hs : s ∈ c) :
    s ∈ splits := by
  rw [h.class_eq c hc s hs] at hs
  exact (List.mem_filter.mp hs).1

/-- No class is listed twice. -/
theorem IsClassing.nodup : classes.Nodup := by
  by_cases hnil : splits = []
  · rw [h.eq_of_nil hnil]
    exact List.nodup_singleton _
  · have htargetings := nodup_eraseDups (splits.map Split.targeting)
    rw [← h.targetings, List.Nodup, List.pairwise_map, List.pairwise_filterMap] at htargetings
    refine htargetings.imp_of_mem fun {c d} hc _ hne hcd => ?_
    subst hcd
    cases c with
    | nil => exact h.not_mem_nil hnil hc
    | cons s ss => exact hne s rfl s rfl rfl

/-- Every split is in the class of its targeting. -/
theorem IsClassing.mem_class {s : Split} (hs : s ∈ splits) :
    splits.filter (·.targeting = s.targeting) ∈ classes := by
  have ht : s.targeting ∈ (classes.filterMap List.head?).map Split.targeting := by
    rw [h.targetings, List.mem_eraseDups]
    exact List.mem_map_of_mem hs
  obtain ⟨first, hfirst, htargeting⟩ := List.mem_map.mp ht
  obtain ⟨c, hc, hhead⟩ := List.mem_filterMap.mp hfirst
  have hclass := h.class_eq c hc first (List.mem_of_head? hhead)
  rw [htargeting] at hclass
  exact hclass ▸ hc

/-- Every split is in exactly one class. -/
theorem IsClassing.countP_mem {s : Split} (hs : s ∈ splits) :
    classes.countP (s ∈ ·) = 1 := by
  have hself : s ∈ splits.filter (·.targeting = s.targeting) :=
    List.mem_filter.mpr ⟨hs, by simp⟩
  have honly : ∀ c ∈ classes, decide (s ∈ c) ↔ c == splits.filter (·.targeting = s.targeting) := by
    intro c hc
    rw [decide_eq_true_iff, beq_iff_eq]
    exact ⟨fun hsc => h.class_eq c hc s hsc, fun heq => heq ▸ hself⟩
  rw [List.countP_congr honly]
  exact List.count_eq_one_of_mem h.nodup (h.mem_class hs)

end Classes

/-- What grouping takes for granted of splits, apart from common architectures. -/
structure IsGroupable (splits : List Split) : Prop where
  /-- No split is targeted by architecture and by density. -/
  oneDimension : ∀ s ∈ splits, ¬ (s.targeting.hasAbi ∧ s.targeting.hasDensity)
  /-- There is a master split. -/
  exists_master : ∃ s ∈ splits, s.isMaster
  /-- Master splits are untargeted. -/
  untargeted : ∀ s ∈ splits, s.isMaster → s.targeting = .untargeted
  /-- The density splits share one universe. -/
  density : ∀ s ∈ splits, ∀ t ∈ splits, s.targeting.hasDensity → t.targeting.hasDensity →
    s.targeting.density.choices = t.targeting.density.choices

/-- The architecture splits share one universe. -/
def SharesAbis (splits : List Split) : Prop :=
  ∀ s ∈ splits, ∀ t ∈ splits, s.targeting.hasAbi → t.targeting.hasAbi →
    s.targeting.abi.choices = t.targeting.abi.choices

section Universes

variable {α : Type} [Ord α] [Std.TransOrd α] [Std.LawfulEqOrd α] [DecidableEq α]
variable {select : Targeting → Selection α} {splits : List Split}

omit [DecidableEq α] in
/-- The universe of a dimension that is targeted is not empty. -/
theorem Selection.choices_ne_empty {s : Selection α} (h : s.isEmpty = false) : s.choices ≠ ∅ := by
  intro hempty
  have hnone (a : α) (ha : a ∈ s.values ∨ a ∈ s.alternatives) : False := by
    rw [← mem_choices, hempty] at ha
    exact OrderedSet.not_mem_empty a ha
  have hvalues : s.values = ∅ := OrderedSet.ext fun a => by
    simp only [OrderedSet.not_mem_empty, iff_false]
    exact fun ha => hnone a (.inl ha)
  have halternatives : s.alternatives = ∅ := OrderedSet.ext fun a => by
    simp only [OrderedSet.not_mem_empty, iff_false]
    exact fun ha => hnone a (.inr ha)
  rw [isEmpty, hvalues, halternatives] at h
  cases h

/-- Splits that target a dimension share one universe if one is listed at most. -/
theorem length_distinctUniverses_iff :
    (¬ 1 < (distinctUniverses ((splits.filter fun s => !(select s.targeting).isEmpty).map
        fun s => (select s.targeting).choices)).length) ↔
      ∀ s ∈ splits, ∀ t ∈ splits, (!(select s.targeting).isEmpty) →
        (!(select t.targeting).isEmpty) →
        (select s.targeting).choices = (select t.targeting).choices := by
  rw [one_lt_length_distinctUniverses_iff]
  constructor
  · intro h s hs t ht hstarget httarget
    by_contra hne
    refine h ⟨_, List.mem_map_of_mem (List.mem_filter.mpr ⟨hs, hstarget⟩), _,
      List.mem_map_of_mem (List.mem_filter.mpr ⟨ht, httarget⟩), ?_, ?_, hne⟩
    · exact Selection.choices_ne_empty (by simpa using hstarget)
    · exact Selection.choices_ne_empty (by simpa using httarget)
  · rintro h ⟨u, hu, v, hv, _, _, hne⟩
    obtain ⟨s, hs, rfl⟩ := List.mem_map.mp hu
    obtain ⟨t, ht, rfl⟩ := List.mem_map.mp hv
    obtain ⟨hs, hstarget⟩ := List.mem_filter.mp hs
    obtain ⟨ht, httarget⟩ := List.mem_filter.mp ht
    exact hne (h s hs t ht hstarget httarget)

end Universes

variable {splits : List Split} {shards : List Shard}

/-- The master splits are refused for a defect, or there are some and all are untargeted. -/
theorem masterSplits_cases (splits : List Split) :
    (∃ defect, masterSplits splits = .error (.internal defect)) ∨
      masterSplits splits = .ok (splits.filter Split.isMaster) ∧ (∃ s ∈ splits, s.isMaster) ∧
        ∀ s ∈ splits, s.isMaster → s.targeting = .untargeted := by
  cases hmasters : splits.filter Split.isMaster with
  | nil => exact .inl ⟨.noMaster, by rw [masterSplits, hmasters]⟩
  | cons first rest =>
    cases hfind : (first :: rest).find? (!·.targeting.isUntargeted) with
    | some s =>
      refine .inl ⟨.targetedMaster s.targeting s.moduleName, ?_⟩
      simp only [masterSplits, hmasters, hfind]
    | none =>
      have hfirst : first ∈ splits.filter Split.isMaster := hmasters ▸ List.mem_cons_self
      refine .inr ⟨by simp only [masterSplits, hmasters, hfind], ⟨first, List.mem_filter.mp hfirst⟩,
        fun s hs hmaster => ?_⟩
      have hmem : s ∈ first :: rest := hmasters ▸ List.mem_filter.mpr ⟨hs, hmaster⟩
      have huntargeted := List.find?_eq_none.mp hfind s hmem
      rw [Bool.not_eq_true, Bool.not_eq_false'] at huntargeted
      exact of_decide_eq_true huntargeted

/-- The shards of all pairs of classes, row by row. -/
def gridOf (splits : List Split) (abiClasses densityClasses : List (List Split)) : List Shard :=
  (abiClasses ×ˢ densityClasses).map fun p =>
    splits.filter Split.isMaster ++ splits.filter (·.targeting.hasLanguage) ++ p.1 ++ p.2

/-- Grouping splits without regard to a device, if they pass all checks but perhaps the last one. -/
theorem groupSplits_of_isGroupable (h : IsGroupable splits) :
    groupSplits splits none =
      let abis := distinctUniverses
        ((splits.filter (·.targeting.hasAbi)).map (·.targeting.abi.choices))
      if 1 < abis.length then .error (.abiMismatch abis)
      else .ok (gridOf splits (targetingClasses (splits.filter (·.targeting.hasAbi)))
        (targetingClasses (splits.filter (·.targeting.hasDensity)))) := by
  have hmasters : masterSplits splits = .ok (splits.filter Split.isMaster) := by
    refine masterSplits_eq ?_ fun s hs hmaster => decide_eq_true (h.untargeted s hs hmaster)
    obtain ⟨s, hs, hmaster⟩ := h.exists_master
    exact List.ne_nil_of_mem (List.mem_filter.mpr ⟨hs, hmaster⟩)
  have hdensities : ¬ 1 < (distinctUniverses
      ((densitySplits splits none).map (·.targeting.density.choices))).length := by
    rw [densitySplits_none]
    exact length_distinctUniverses_iff.mpr h.density
  have hgroup := groupSplits_eq none (fun s hs => ?_) hmasters hdensities
  · rw [hgroup, abiSplits_none, densitySplits_none]
    dsimp only
    simp only [gridOf, SProd.sprod, List.product, List.map_flatMap, List.map_map, Function.comp_def,
      languageSplits]
  · rw [← Bool.not_eq_true, Bool.and_eq_true]
    exact h.oneDimension s hs

/-- Splits that do not pass the checks are refused for a defect. -/
theorem exists_defect_of_not_isGroupable (h : ¬ IsGroupable splits) :
    ∃ defect, groupSplits splits none = .error (.internal defect) := by
  by_cases hany : splits.any fun s => s.targeting.hasAbi && s.targeting.hasDensity
  · exact ⟨.abiAndDensity, by simp only [groupSplits, hany, if_true]; rfl⟩
  · rw [Bool.not_eq_true] at hany
    rcases masterSplits_cases splits with ⟨defect, hmasters⟩ | ⟨hmasters, hsome, huntargeted⟩
    · exact ⟨defect, by
        simp only [groupSplits, hany, hmasters, Bool.false_eq_true, if_false]; rfl⟩
    · by_cases hdensities : 1 < (distinctUniverses
          ((densitySplits splits none).map (·.targeting.density.choices))).length
      · exact ⟨.densityMismatch _, by
          simp only [groupSplits, hany, hmasters, if_pos hdensities, Bool.false_eq_true, if_false]
          rfl⟩
      · rw [densitySplits_none] at hdensities
        refine absurd ⟨fun s hs hboth => ?_, hsome, huntargeted,
          length_distinctUniverses_iff.mp hdensities⟩ h
        rw [List.any_eq_false] at hany
        exact hany s hs (Bool.and_eq_true_iff.mpr hboth)

/-- The shards of splits that were grouped without regard to a device, as a grid of classes. -/
structure IsGrid (splits : List Split) (abiClasses densityClasses : List (List Split))
    (shards : List Shard) : Prop where
  /-- The rows are the classes of architecture splits. -/
  abi : IsClassing (splits.filter (·.targeting.hasAbi)) abiClasses
  /-- The columns are the classes of density splits. -/
  density : IsClassing (splits.filter (·.targeting.hasDensity)) densityClasses
  /-- There are as many shards as pairs of classes. -/
  length : shards.length = abiClasses.length * densityClasses.length
  /-- The shard in a row and a column has the masters, the language splits, the class of the row
  and the class of the column. -/
  shard : ∀ (i : Nat) a, abiClasses[i]? = some a → ∀ (j : Nat) d, densityClasses[j]? = some d →
    shards[i * densityClasses.length + j]? = some
      (splits.filter Split.isMaster ++ splits.filter (·.targeting.hasLanguage) ++ a ++ d)
  /-- No pair of classes has the shard of another one. -/
  nodup : shards.Nodup
  /-- An architecture split without a language is in the shards of its row. -/
  countP_abi : ∀ s ∈ splits, s.targeting.hasAbi → s.targeting.hasLanguage = false →
    shards.countP (s ∈ ·) = densityClasses.length
  /-- A density split without a language is in the shards of its column. -/
  countP_density : ∀ s ∈ splits, s.targeting.hasDensity → s.targeting.hasLanguage = false →
    shards.countP (s ∈ ·) = abiClasses.length
  /-- A language split is in all shards, whatever else it is. -/
  countP_language : ∀ s ∈ splits, s.targeting.hasLanguage →
    shards.countP (s ∈ ·) = abiClasses.length * densityClasses.length

section Grid

variable {abiClasses densityClasses : List (List Split)}

/-- Membership in a shard of the grid. -/
theorem mem_shard_iff {s : Split} {a d : List Split} :
    s ∈ splits.filter Split.isMaster ++ splits.filter (·.targeting.hasLanguage) ++ a ++ d ↔
      s ∈ splits ∧ (s.isMaster ∨ s.targeting.hasLanguage) ∨ s ∈ a ∨ s ∈ d := by
  simp only [List.mem_append, List.mem_filter, ← and_or_left, or_assoc]

variable (h : IsGroupable splits)
include h

/-- The splits that are in all shards do not have a dimension without a language. -/
theorem IsGroupable.not_common {s : Split} (hs : s ∈ splits)
    (htarget : s.targeting.hasAbi ∨ s.targeting.hasDensity)
    (hlanguage : s.targeting.hasLanguage = false) :
    ¬ (s ∈ splits ∧ (s.isMaster ∨ s.targeting.hasLanguage)) := by
  rintro ⟨_, hmaster | hother⟩
  · rw [h.untargeted s hs hmaster] at htarget
    simp at htarget
  · rw [hlanguage] at hother
    cases hother

variable (habi : IsClassing (splits.filter (·.targeting.hasAbi)) abiClasses)
include habi

/-- The splits of a row are targeted by architecture only. -/
theorem IsGroupable.of_mem_row {a : List Split} (ha : a ∈ abiClasses) {s : Split} (hs : s ∈ a) :
    s.targeting.hasAbi ∧ s.targeting.hasDensity = false := by
  obtain ⟨hmem, htarget⟩ := List.mem_filter.mp (habi.mem_of_mem ha hs)
  exact ⟨htarget, Bool.eq_false_iff.mpr fun hd => h.oneDimension s hmem ⟨htarget, hd⟩⟩

variable (hdensity : IsClassing (splits.filter (·.targeting.hasDensity)) densityClasses)
include hdensity

omit habi in
/-- The splits of a column are targeted by density only. -/
theorem IsGroupable.of_mem_column {d : List Split} (hd : d ∈ densityClasses) {s : Split}
    (hs : s ∈ d) : s.targeting.hasDensity ∧ s.targeting.hasAbi = false := by
  obtain ⟨hmem, htarget⟩ := List.mem_filter.mp (hdensity.mem_of_mem hd hs)
  exact ⟨htarget, Bool.eq_false_iff.mpr fun ha => h.oneDimension s hmem ⟨ha, htarget⟩⟩

/-- The pair of classes can be told from a shard. -/
theorem nodup_gridOf : (gridOf splits abiClasses densityClasses).Nodup := by
  have hrow (p : List Split × List Split) (hp : p ∈ abiClasses ×ˢ densityClasses) :
      (p.1 ++ p.2).filter (·.targeting.hasAbi) = p.1 := by
    obtain ⟨ha, hd⟩ := List.mem_product.mp hp
    have hkept : p.1.filter (·.targeting.hasAbi) = p.1 :=
      List.filter_eq_self.mpr fun s hs => (h.of_mem_row habi ha hs).1
    have hdropped : p.2.filter (·.targeting.hasAbi) = [] :=
      List.filter_eq_nil_iff.mpr fun s hs => by simp [(h.of_mem_column hdensity hd hs).2]
    rw [List.filter_append, hkept, hdropped, List.append_nil]
  refine List.Nodup.map_on (fun p hp q hq heq => ?_) (habi.nodup.product hdensity.nodup)
  simp only [List.append_assoc, List.append_cancel_left_eq] at heq
  have hfst : p.1 = q.1 := by rw [← hrow p hp, ← hrow q hq, heq]
  rw [hfst, List.append_cancel_left_eq] at heq
  exact Prod.ext hfst heq

/-- An architecture split without a language is in the shards of its row. -/
theorem countP_gridOf_of_hasAbi {s : Split} (hs : s ∈ splits) (htarget : s.targeting.hasAbi)
    (hlanguage : s.targeting.hasLanguage = false) :
    (gridOf splits abiClasses densityClasses).countP (s ∈ ·) = densityClasses.length := by
  have hclass : abiClasses.countP (s ∈ ·) = 1 :=
    habi.countP_mem (List.mem_filter.mpr ⟨hs, htarget⟩)
  rw [gridOf, List.countP_map, ← Nat.one_mul densityClasses.length, ← hclass,
    ← countP_product_fst]
  refine List.countP_congr fun p hp => ?_
  have hcolumn : s ∉ p.2 := by
    intro hmem
    have hnone := (h.of_mem_column hdensity (List.mem_product.mp hp).2 hmem).2
    rw [htarget] at hnone
    cases hnone
  simp only [Function.comp_apply, decide_eq_true_iff, mem_shard_iff,
    h.not_common hs (.inl htarget) hlanguage, hcolumn, false_or, or_false]

/-- A density split without a language is in the shards of its column. -/
theorem countP_gridOf_of_hasDensity {s : Split} (hs : s ∈ splits)
    (htarget : s.targeting.hasDensity) (hlanguage : s.targeting.hasLanguage = false) :
    (gridOf splits abiClasses densityClasses).countP (s ∈ ·) = abiClasses.length := by
  have hclass : densityClasses.countP (s ∈ ·) = 1 :=
    hdensity.countP_mem (List.mem_filter.mpr ⟨hs, htarget⟩)
  rw [gridOf, List.countP_map, ← Nat.mul_one abiClasses.length, ← hclass, ← countP_product_snd]
  refine List.countP_congr fun p hp => ?_
  have hrow : s ∉ p.1 := by
    intro hmem
    have hnone := (h.of_mem_row habi (List.mem_product.mp hp).1 hmem).2
    rw [htarget] at hnone
    cases hnone
  simp only [Function.comp_apply, decide_eq_true_iff, mem_shard_iff,
    h.not_common hs (.inr htarget) hlanguage, hrow, false_or]

/-- The grid of the classes of splits that pass the checks. -/
theorem isGrid_gridOf :
    IsGrid splits abiClasses densityClasses (gridOf splits abiClasses densityClasses) where
  abi := habi
  density := hdensity
  length := by rw [gridOf, List.length_map, List.length_product]
  shard i a ha j d hd := by rw [gridOf, List.getElem?_map, getElem?_product ha hd, Option.map_some]
  nodup := nodup_gridOf h habi hdensity
  countP_abi _ hs htarget hlanguage :=
    countP_gridOf_of_hasAbi h habi hdensity hs htarget hlanguage
  countP_density _ hs htarget hlanguage :=
    countP_gridOf_of_hasDensity h habi hdensity hs htarget hlanguage
  countP_language s hs hlanguage := by
    rw [← List.length_product, ← List.length_map, ← gridOf, List.countP_eq_length]
    intro shard hshard
    obtain ⟨p, _, rfl⟩ := List.mem_map.mp hshard
    exact decide_eq_true (mem_shard_iff.mpr (.inl ⟨hs, .inr hlanguage⟩))

end Grid

/-- The universes of the architecture splits are not empty, so the mismatch lists all of them. -/
theorem distinctUniverses_abi (splits : List Split) :
    distinctUniverses ((splits.filter (·.targeting.hasAbi)).map (·.targeting.abi.choices)) =
      ((splits.filter (·.targeting.hasAbi)).map (·.targeting.abi.choices)).eraseDups := by
  rw [distinctUniverses, List.filter_eq_self.mpr]
  intro u hu
  obtain ⟨s, hs, rfl⟩ := List.mem_map.mp hu
  have htarget : s.targeting.abi.isEmpty = false := by
    simpa [Targeting.hasAbi] using (List.mem_filter.mp hs).2
  simpa using OrderedSet.isEmpty_iff.not.mpr (Selection.choices_ne_empty htarget)

/-- Splits that pass all checks are grouped in the grid of their classes. -/
theorem groupSplits_of_sharesAbis (h : IsGroupable splits) (hshares : SharesAbis splits) :
    groupSplits splits none =
      .ok (gridOf splits (targetingClasses (splits.filter (·.targeting.hasAbi)))
        (targetingClasses (splits.filter (·.targeting.hasDensity)))) := by
  rw [groupSplits_of_isGroupable h]
  exact if_neg (length_distinctUniverses_iff.mpr hshares)

/-- Splits that pass all checks but the last one are refused with the universes. -/
theorem groupSplits_of_not_sharesAbis (h : IsGroupable splits) (hshares : ¬ SharesAbis splits) :
    groupSplits splits none = .error (.abiMismatch
      ((splits.filter (·.targeting.hasAbi)).map (·.targeting.abi.choices)).eraseDups) := by
  rw [groupSplits_of_isGroupable h, ← distinctUniverses_abi]
  exact if_pos (not_not.mp (length_distinctUniverses_iff.not.mpr hshares))

/-- Grouping without regard to a device succeeds if the splits pass all checks, reports the
universes of the architectures if they pass all checks but the last one, and gives the grid of
the classes. -/
theorem groupSplits_outcomes (splits : List Split) :
    ((∃ shards, groupSplits splits none = .ok shards) ↔
        IsGroupable splits ∧ SharesAbis splits) ∧
      (∀ universes, groupSplits splits none = .error (.abiMismatch universes) ↔
        IsGroupable splits ∧ ¬ SharesAbis splits ∧ universes =
          ((splits.filter (·.targeting.hasAbi)).map (·.targeting.abi.choices)).eraseDups) ∧
      ∀ shards, groupSplits splits none = .ok shards → ∃ abiClasses densityClasses,
        IsGrid splits abiClasses densityClasses shards := by
  by_cases h : IsGroupable splits
  · by_cases hshares : SharesAbis splits
    · have hgroup := groupSplits_of_sharesAbis h hshares
      refine ⟨by simp [hgroup, h, hshares], by simp [hgroup, hshares], fun shards hok => ?_⟩
      obtain rfl := Except.ok.inj (hgroup.symm.trans hok)
      exact ⟨_, _, isGrid_gridOf h (isClassing_targetingClasses _) (isClassing_targetingClasses _)⟩
    · have hgroup := groupSplits_of_not_sharesAbis h hshares
      exact ⟨by simp [hgroup, hshares], by simp [hgroup, h, hshares, eq_comm], by simp [hgroup]⟩
  · obtain ⟨defect, hdefect⟩ := exists_defect_of_not_isGroupable h
    simp [hdefect, h]

/-- Splits of two modules, of which one has the libraries for two architectures and resources for
two density classes, and the other one libraries for one of the architectures. -/
def sampleParts : List Split :=
  [.ofEntries baseName [⟨"dex/classes.dex", ⟨#[1]⟩⟩] .untargeted,
    .ofEntries baseName [⟨"lib/x86/liba.so", ⟨#[2]⟩⟩] (.forAbi .x86 (.singleton .arm64V8a)),
    .ofEntries baseName [⟨"lib/arm64-v8a/liba.so", ⟨#[3]⟩⟩]
      (.forAbi .arm64V8a (.singleton .x86)),
    .ofEntries baseName [⟨"res/drawable-mdpi/a.png", ⟨#[4]⟩⟩]
      (.forDensity .mdpi (.singleton .hdpi)),
    .ofEntries baseName [⟨"res/drawable-hdpi/a.png", ⟨#[5]⟩⟩]
      (.forDensity .hdpi (.singleton .mdpi)),
    .ofEntries baseName [⟨"assets/a#lang_de/b", ⟨#[6]⟩⟩] (.forLanguage ⟨"de"⟩),
    .ofEntries "feature" [⟨"lib/x86/libb.so", ⟨#[7]⟩⟩] (.forAbi .x86 (.singleton .arm64V8a))]

/-- The sample is grouped into a grid of two rows and two columns. -/
theorem groupSplits_outcomes_sampleParts :
    ∃ shards, groupSplits sampleParts none = .ok shards ∧ shards.length = 4 ∧
      ∃ abiClasses densityClasses, IsGrid sampleParts abiClasses densityClasses shards := by
  obtain ⟨_, _, hgrid⟩ := groupSplits_outcomes sampleParts
  have hlength : (groupSplits sampleParts none).toOption.map List.length = some 4 := by
    decide +kernel
  obtain ⟨shards, h⟩ := exists_of_isSome_toOption (x := groupSplits sampleParts none)
    (by decide +kernel)
  rw [h] at hlength
  exact ⟨shards, h, Option.some.inj hlength, hgrid shards h⟩

/-- Libraries for two architectures, of which one is in German only. -/
def sampleGerman : List Split :=
  [.ofEntries baseName [⟨"dex/classes.dex", ⟨#[1]⟩⟩] .untargeted,
    .ofEntries baseName [⟨"lib/x86/liba.so", ⟨#[2]⟩⟩]
      { Targeting.forAbi .x86 (.singleton .arm64V8a) with language := .one ⟨"de"⟩ ∅ },
    .ofEntries baseName [⟨"lib/arm64-v8a/liba.so", ⟨#[3]⟩⟩]
      (.forAbi .arm64V8a (.singleton .x86))]

/-- The German libraries are in the shards of both architectures, although there is only one class
of density splits. -/
theorem countP_hasAbi_ne_sampleGerman :
    ¬ ∀ splits shards, groupSplits splits none = .ok shards →
      ∀ s ∈ splits, s.targeting.hasAbi → shards.countP (s ∈ ·) =
        (targetingClasses (splits.filter (·.targeting.hasDensity))).length := by
  intro hall
  obtain ⟨shards, h⟩ := exists_of_isSome_toOption (x := groupSplits sampleGerman none)
    (by decide +kernel)
  have hmem : sampleGerman[1] ∈ sampleGerman := List.getElem_mem _
  have htwice : (groupSplits sampleGerman none).toOption.map (·.countP (sampleGerman[1] ∈ ·)) =
      some 2 := by
    decide +kernel
  have hclasses : (targetingClasses (sampleGerman.filter (·.targeting.hasDensity))).length = 1 := by
    decide +kernel
  rw [h] at htwice
  have honce := hall sampleGerman shards h _ hmem (by decide)
  rw [hclasses] at honce
  exact absurd (honce.symm.trans (Option.some.inj htwice)) (by decide)

end AppBundle
