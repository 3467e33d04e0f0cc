import AppBundle.Proofs.Division
import AppBundle.Proofs.Grouping

/-!
# Classes of splits in one dimension

Modules that are divided along a dimension have one split for each value of the
dimension. When they agree on the values, grouping the splits of all modules
gives one class for each value. The statements hold for architectures and for
density classes alike; `select` tells the dimension of a targeting, and `target`
makes the targeting of a value.
-/

namespace AppBundle

section Dimension

variable {κ : Type} [Ord κ]

/-- The coordinates of packages in a dimension: one for each value, or a single one
without a value if the dimension is not divided. -/
def coordinates (u : OrderedSet κ) : List (Option κ) :=
  if u.isEmpty then [none] else u.toList.map some

/-- The splits that serve the value of a coordinate; none serve no value. -/
def classAt [DecidableEq κ] (select : Targeting → Selection κ) (splits : List Split)
    (k? : Option κ) : List Split :=
  splits.filter fun s => k?.any (· ∈ (select s.targeting).values)

@[simp] theorem coordinates_empty : coordinates (∅ : OrderedSet κ) = [none] := rfl

theorem coordinates_of_ne {u : OrderedSet κ} (h : u ≠ ∅) :
    coordinates u = u.toList.map some := by
  rw [coordinates, if_neg (mt OrderedSet.isEmpty_iff.mp h)]

/-- The values of the coordinates are the values of the dimension. -/
@[simp] theorem some_mem_coordinates {u : OrderedSet κ} {k : κ} :
    some k ∈ coordinates u ↔ k ∈ u := by
  by_cases h : u = ∅
  · simp [h]
  · simp [coordinates_of_ne h]

/-- There is a coordinate without a value if the dimension is not divided. -/
@[simp] theorem none_mem_coordinates {u : OrderedSet κ} : none ∈ coordinates u ↔ u = ∅ := by
  by_cases h : u = ∅
  · simp [h]
  · simp [coordinates_of_ne h, h]

/-- No coordinate is listed twice. -/
theorem nodup_coordinates [Std.LawfulEqOrd κ] (u : OrderedSet κ) : (coordinates u).Nodup := by
  by_cases h : u = ∅
  · simp [h]
  · rw [coordinates_of_ne h]
    exact u.nodup_toList.map fun _ _ hab => Option.some.inj hab

variable {select : Targeting → Selection κ} {target : κ → OrderedSet κ → Targeting}

variable [DecidableEq κ]

@[simp] theorem classAt_none (splits : List Split) : classAt select splits none = [] := by
  simp [classAt]

theorem mem_classAt_some {splits : List Split} {s : Split} {k : κ} :
    s ∈ classAt select splits (some k) ↔ s ∈ splits ∧ k ∈ (select s.targeting).values := by
  simp [classAt]

/-- The splits of a class are targeted in the dimension. -/
theorem isEmpty_of_mem_classAt {splits : List Split} {k? : Option κ} {s : Split}
    (h : s ∈ classAt select splits k?) : (select s.targeting).isEmpty = false := by
  obtain ⟨_, hserves⟩ := List.mem_filter.mp h
  rw [Option.any_eq_true] at hserves
  obtain ⟨k, _, hk⟩ := hserves
  rw [Bool.eq_false_iff]
  intro hempty
  rw [Selection.isEmpty_iff.mp hempty] at hk
  exact absurd (of_decide_eq_true hk) (OrderedSet.not_mem_empty k)

/-- Splits that are not targeted in the dimension do not matter for its classes. -/
theorem classAt_filter {splits : List Split} {p : Split → Bool}
    (hp : ∀ s ∈ splits, (select s.targeting).isEmpty = false → p s) :
    classAt select (splits.filter p) = classAt select splits := by
  funext k?
  rw [classAt, classAt, List.filter_filter]
  refine List.filter_congr fun s hs => ?_
  cases hserves : k?.any (· ∈ (select s.targeting).values) with
  | false => rw [Bool.false_and]
  | true =>
    rw [hp s hs (isEmpty_of_mem_classAt (List.mem_filter.mpr ⟨hs, hserves⟩)), Bool.and_self]

variable {us : List (OrderedSet κ)} {u : OrderedSet κ} {splits : List Split}

/-- A split at a coordinate serves its value beside the other ones, if all splits do so with
their values. -/
theorem targeting_of_mem_classAt
    (hselect : ∀ k others, select (target k others) = .one k others)
    (hall : ∀ s ∈ splits, (select s.targeting).isEmpty = false → s.targeting ∈ targetsOf target u)
    {k : κ} {s : Split} (hs : s ∈ classAt select splits (some k)) :
    k ∈ u ∧ s.targeting = target k (u.filter (· ≠ k)) := by
  obtain ⟨hmem, hk⟩ := mem_classAt_some.mp hs
  obtain ⟨j, hj, ht⟩ := List.mem_map.mp (hall s hmem (isEmpty_of_mem_classAt hs))
  rw [← ht, hselect, Selection.one, OrderedSet.mem_singleton] at hk
  rw [hk]
  exact ⟨hj, ht.symm⟩

/-- At a coordinate its value is served and no other one. -/
theorem exists_mem_values_iff
    (hselect : ∀ k others, select (target k others) = .one k others)
    (hall : ∀ s ∈ splits, (select s.targeting).isEmpty = false → s.targeting ∈ targetsOf target u)
    (hsome : ∀ k ∈ u, ∃ s, s ∈ classAt select splits (some k)) {k? : Option κ}
    (hk? : k? ∈ coordinates u) {k : κ} :
    (∃ s ∈ classAt select splits k?, k ∈ (select s.targeting).values) ↔ k? = some k := by
  cases k? with
  | none => simp
  | some j =>
    rw [some_mem_coordinates] at hk?
    constructor
    · rintro ⟨s, hs, hk⟩
      rw [(targeting_of_mem_classAt hselect hall hs).2, hselect, Selection.one,
        OrderedSet.mem_singleton] at hk
      rw [hk]
    · intro hjk
      obtain rfl := Option.some.inj hjk
      obtain ⟨s, hs⟩ := hsome j hk?
      exact ⟨s, hs, (mem_classAt_some.mp hs).2⟩

/-- There is a split at every coordinate that has a value. -/
theorem exists_mem_classAt (hselect : ∀ k others, select (target k others) = .one k others)
    (hsplits : splits.map Split.targeting = us.flatMap (targetsOf target))
    {v : OrderedSet κ} (hv : v ∈ us) {k : κ} (hk : k ∈ v) :
    ∃ s, s ∈ classAt select splits (some k) := by
  have hmem : target k (v.filter (· ≠ k)) ∈ splits.map Split.targeting := by
    rw [hsplits]
    exact List.mem_flatMap.mpr ⟨v, hv, List.mem_map_of_mem hk⟩
  obtain ⟨s, hs, ht⟩ := List.mem_map.mp hmem
  refine ⟨s, mem_classAt_some.mpr ⟨hs, ?_⟩⟩
  rw [ht, hselect, Selection.one, OrderedSet.mem_singleton]

variable [Std.LawfulEqOrd κ]

/-- Of splits for the values of one module, the class of a value has its split only. -/
theorem targetings_classAt (hselect : ∀ k others, select (target k others) = .one k others)
    (hsplits : splits.map Split.targeting = targetsOf target u) (k : κ) :
    (classAt select splits (some k)).map Split.targeting =
      if k ∈ u then [target k (u.filter (· ≠ k))] else [] := by
  have hserves : (classAt select splits (some k)).map Split.targeting =
      (targetsOf target u).filter fun t => k ∈ (select t).values := by
    rw [← hsplits, List.filter_map]
    rfl
  rw [hserves]
  refine filter_targetsOf_eq fun j _ => ?_
  rw [decide_eq_true_eq, hselect, Selection.one, OrderedSet.mem_singleton, eq_comm]

/-- When the modules agree on the values, the splits of a dimension have the targetings of
one module, and their classes are selected by the values. -/
theorem targetingClasses_eq (hselect : ∀ k others, select (target k others) = .one k others)
    (hsplits : splits.map Split.targeting = us.flatMap (targetsOf target))
    (hu : ∀ k, k ∈ u ↔ ∃ v ∈ us, k ∈ v) (hagree : ∀ v ∈ us, v = ∅ ∨ v = u) :
    targetingClasses splits = (coordinates u).map (classAt select splits) := by
  by_cases hempty : u = ∅
  · have hnone : us.flatMap (targetsOf target) = [] := by
      refine List.flatMap_eq_nil_iff.mpr fun v hv => ?_
      have hv : v = ∅ := (hagree v hv).elim id fun h => h.trans hempty
      rw [hv]
      rfl
    rw [hnone, List.map_eq_nil_iff] at hsplits
    rw [hsplits, hempty, coordinates_empty, List.map_singleton, classAt_none]
    rfl
  · have hmem : u ∈ us := by
      obtain ⟨k, hk⟩ := List.exists_mem_of_ne_nil u.toList fun h =>
        hempty (OrderedSet.toList_injective h)
      obtain ⟨v, hv, hkv⟩ := (hu k).mp hk
      rcases hagree v hv with rfl | rfl
      · exact absurd hkv (OrderedSet.not_mem_empty k)
      · exact hv
    have htargetings : (splits.map Split.targeting).eraseDups = targetsOf target u := by
      rw [hsplits, List.flatMap_def]
      refine eraseDups_flatten_of_copies
        (nodup_targetsOf u fun h => injective_of_select hselect h) ?_ (List.mem_map_of_mem hmem)
      intro l hl
      obtain ⟨v, hv, rfl⟩ := List.mem_map.mp hl
      rcases hagree v hv with rfl | rfl
      · exact .inl rfl
      · exact .inr rfl
    have hne : targetsOf target u ≠ [] := fun h =>
      hempty (OrderedSet.toList_injective (List.map_eq_nil_iff.mp h))
    rw [targetingClasses_of_eraseDups hne htargetings, coordinates_of_ne hempty, targetsOf,
      List.map_map, List.map_map]
    refine List.map_congr_left fun k _ => List.filter_congr fun s hs => ?_
    have ht : s.targeting ∈ targetsOf target u := by
      rw [← htargetings]
      exact List.mem_eraseDups.mpr (List.mem_map_of_mem hs)
    obtain ⟨j, _, hj⟩ := List.mem_map.mp ht
    rw [← hj, hselect, Option.any_some]
    refine decide_eq_decide.mpr ?_
    rw [Selection.one, OrderedSet.mem_singleton]
    constructor
    · exact fun h => (injective_of_select hselect h).symm
    · exact fun h => by rw [h]

variable [Std.TransOrd κ]

/-- The universe of a targeting among siblings is made of all values. -/
theorem choices_of_mem_targetsOf (hselect : ∀ k others, select (target k others) = .one k others)
    {u : OrderedSet κ} {t : Targeting} (h : t ∈ targetsOf target u) : (select t).choices = u := by
  obtain ⟨k, hk, rfl⟩ := List.mem_map.mp h
  refine OrderedSet.ext fun j => ?_
  rw [hselect, Selection.mem_choices, Selection.one, OrderedSet.mem_singleton,
    OrderedSet.mem_filter]
  by_cases hj : j = k
  · simpa [hj] using hk
  · simp [hj]

/-- If the splits of a dimension have at most one universe, all modules that are
divided along the dimension agree on its values. -/
theorem eq_empty_or_eq_of_length (hselect : ∀ k others, select (target k others) = .one k others)
    (hsplits : splits.map Split.targeting = us.flatMap (targetsOf target))
    (hu : ∀ k, k ∈ u ↔ ∃ v ∈ us, k ∈ v)
    (hlength : ¬ 1 < (distinctUniverses (splits.map fun s => (select s.targeting).choices)).length)
    {v : OrderedSet κ} (hv : v ∈ us) : v = ∅ ∨ v = u := by
  have huniverse {w : OrderedSet κ} {k : κ} (hw : w ∈ us) (hk : k ∈ w) :
      w ∈ splits.map fun s => (select s.targeting).choices := by
    have ht : target k (w.filter (· ≠ k)) ∈ targetsOf target w := List.mem_map_of_mem hk
    have hmem : target k (w.filter (· ≠ k)) ∈ splits.map Split.targeting := by
      rw [hsplits]
      exact List.mem_flatMap.mpr ⟨w, hw, ht⟩
    obtain ⟨s, hs, hst⟩ := List.mem_map.mp hmem
    exact List.mem_map.mpr ⟨s, hs, by rw [hst, choices_of_mem_targetsOf hselect ht]⟩
  have hne {w : OrderedSet κ} {k : κ} (hk : k ∈ w) : w ≠ ∅ := by
    rintro rfl
    exact OrderedSet.not_mem_empty k hk
  by_cases hempty : v = ∅
  · exact .inl hempty
  · obtain ⟨j, hj⟩ := List.exists_mem_of_ne_nil v.toList fun h =>
      hempty (OrderedSet.toList_injective h)
    refine .inr (OrderedSet.ext fun k => ⟨fun hk => (hu k).mpr ⟨v, hv, hk⟩, fun hk => ?_⟩)
    obtain ⟨w, hw, hk⟩ := (hu k).mp hk
    have hvw := eq_of_length_distinctUniverses hlength (huniverse hv hj) (huniverse hw hk)
      (hne hj) (hne hk)
    rwa [hvw]

end Dimension

end AppBundle
