import AppBundle.Proofs.FirstOccurrences
import AppBundle.Proofs.Outcomes
import AppBundle.Shard

/-!
# Classes and universes of splits

Grouping puts splits of the same targeting into one class, and refuses splits of
one dimension that do not share one universe. This file says when there is one
class or one universe only, and what grouping returns when the splits keep the
assumptions that it checks.
-/

namespace AppBundle

/-- The classes of splits whose targetings are known are selected by them. -/
theorem targetingClasses_of_eraseDups {splits : List Split} {ts : List Targeting} (hne : ts ≠ [])
    (h : (splits.map Split.targeting).eraseDups = ts) :
    targetingClasses splits = ts.map fun t => splits.filter (·.targeting = t) := by
  rw [targetingClasses, h]
  cases ts with
  | nil => exact absurd rfl hne
  | cons t ts => rfl

/-- Splits that all have the same targeting form one class. -/
theorem targetingClasses_of_forall_eq {splits : List Split}
    (h : ∀ s ∈ splits, ∀ t ∈ splits, s.targeting = t.targeting) :
    targetingClasses splits = [splits] := by
  cases splits with
  | nil => rfl
  | cons s ss =>
    have hsame (t : Split) (ht : t ∈ s :: ss) : t.targeting = s.targeting :=
      h t ht s List.mem_cons_self
    have hothers : (ss.map Split.targeting).filter (fun b => !b == s.targeting) = [] := by
      refine List.filter_eq_nil_iff.mpr fun b hb => ?_
      obtain ⟨t, ht, rfl⟩ := List.mem_map.mp hb
      simp [hsame t (List.mem_cons_of_mem _ ht)]
    have htargetings : ((s :: ss).map Split.targeting).eraseDups = [s.targeting] := by
      rw [List.map_cons, List.eraseDups_cons, hothers, List.eraseDups_nil]
    have hall : (s :: ss).filter (·.targeting = s.targeting) = s :: ss :=
      List.filter_eq_self.mpr fun t ht => by simpa using hsame t ht
    rw [targetingClasses_of_eraseDups (List.cons_ne_nil _ _) htargetings, List.map_singleton, hall]

section Universes

variable {α : Type} [Ord α] [DecidableEq α] {universes : List (OrderedSet α)}

/-- A universe that is not empty is listed. -/
theorem mem_distinctUniverses {u : OrderedSet α} :
    u ∈ distinctUniverses universes ↔ u ∈ universes ∧ u ≠ ∅ := by
  rw [distinctUniverses, List.mem_eraseDups, List.mem_filter, ← OrderedSet.isEmpty_iff.ne]
  simp

/-- If at most one universe is listed, all universes that are not empty are equal. -/
theorem eq_of_length_distinctUniverses (h : ¬ 1 < (distinctUniverses universes).length)
    {u v : OrderedSet α} (hu : u ∈ universes) (hv : v ∈ universes) (hu' : u ≠ ∅) (hv' : v ≠ ∅) :
    u = v := by
  have hum : u ∈ distinctUniverses universes := mem_distinctUniverses.mpr ⟨hu, hu'⟩
  have hvm : v ∈ distinctUniverses universes := mem_distinctUniverses.mpr ⟨hv, hv'⟩
  cases hlist : distinctUniverses universes with
  | nil => simp [hlist] at hum
  | cons w ws =>
    have hws : ws = [] := by
      rw [hlist, List.length_cons] at h
      exact List.length_eq_zero_iff.mp (by omega)
    rw [hlist, hws, List.mem_singleton] at hum hvm
    rw [hum, hvm]

/-- Universes that are empty or equal to one of them are listed as at most one. -/
theorem length_distinctUniverses {v : OrderedSet α} (h : ∀ u ∈ universes, u = ∅ ∨ u = v) :
    ¬ 1 < (distinctUniverses universes).length := by
  have hsub (u : OrderedSet α) (hu : u ∈ distinctUniverses universes) : u = v := by
    obtain ⟨hu, hne⟩ := mem_distinctUniverses.mp hu
    exact (h u hu).resolve_left hne
  have hnodup : (distinctUniverses universes).Nodup := nodup_eraseDups _
  cases hlist : distinctUniverses universes with
  | nil => simp
  | cons w ws =>
    rw [hlist] at hsub hnodup
    have hws : ws = [] := by
      refine List.eq_nil_iff_forall_not_mem.mpr fun x hx => ?_
      have hxw : x = w := by rw [hsub x (List.mem_cons_of_mem _ hx), hsub w List.mem_cons_self]
      exact (List.nodup_cons.mp hnodup).1 (hxw ▸ hx)
    simp [hws]

end Universes

/-- Masters are accepted if there are some and all are untargeted. -/
theorem masterSplits_eq {splits : List Split} (hsome : splits.filter Split.isMaster ≠ [])
    (huntargeted : ∀ s ∈ splits, s.isMaster → s.targeting.isUntargeted) :
    masterSplits splits = .ok (splits.filter Split.isMaster) := by
  unfold masterSplits
  cases hmasters : splits.filter Split.isMaster with
  | nil => exact absurd hmasters hsome
  | cons s ss =>
    have hnone : (s :: ss).find? (!·.targeting.isUntargeted) = none := by
      rw [← hmasters, List.find?_eq_none]
      intro t ht
      obtain ⟨ht, hmaster⟩ := List.mem_filter.mp ht
      simp [huntargeted t ht hmaster]
    simp only [hnone]

/-- Grouping splits that keep its assumptions fails only if the architecture splits do not
share one universe, and else gives a shard for each pair of classes. -/
theorem groupSplits_eq {splits : List Split} (filter : Option DeviceFilter)
    (hdimensions : ∀ s ∈ splits, (s.targeting.hasAbi && s.targeting.hasDensity) = false)
    (hmasters : masterSplits splits = .ok (splits.filter Split.isMaster))
    (hdensities : ¬ 1 < (distinctUniverses
      ((densitySplits splits filter).map (·.targeting.density.choices))).length) :
    groupSplits splits filter =
      let abis := distinctUniverses ((abiSplits splits filter).map (·.targeting.abi.choices))
      if 1 < abis.length then .error (.abiMismatch abis)
      else .ok ((targetingClasses (abiSplits splits filter)).flatMap fun abiClass =>
        (targetingClasses (densitySplits splits filter)).map fun densityClass =>
          splits.filter Split.isMaster ++ languageSplits splits ++ abiClass ++ densityClass) := by
  have hany : (splits.any fun s => s.targeting.hasAbi && s.targeting.hasDensity) = false := by
    rw [List.any_eq_false]
    exact fun s hs => by simp [hdimensions s hs]
  unfold groupSplits
  simp only [hany, hmasters, if_neg hdensities, Bool.false_eq_true, if_false]
  split <;> rfl

end AppBundle
