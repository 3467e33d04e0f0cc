import AppBundle.Merge
import AppBundle.Proofs.FirstOccurrences
import AppBundle.Proofs.Merging
import AppBundle.Splitter.Division

/-!
# Parts of a divided split

Dividing a split by labels distributes its entries: every entry goes into the
part of its label and nowhere else. The file says which targetings the parts
have and which entries the part of a label holds.
-/

namespace AppBundle

section Division

variable {κ : Type} [Ord κ] [Std.TransOrd κ] [Std.LawfulEqOrd κ] [DecidableEq κ]
variable {labelled : List (Entry × Option κ)} {target : κ → OrderedSet κ → Targeting} {s : Split}

omit [Std.TransOrd κ] [Std.LawfulEqOrd κ] [DecidableEq κ] in
/-- The targeting of a value determines it. -/
theorem injective_of_select {select : Targeting → Selection κ}
    (hselect : ∀ k others, select (target k others) = .one k others)
    {j k : κ} {others others' : OrderedSet κ} (h : target j others = target k others') : j = k := by
  have hvalues := congrArg (fun t => (select t).values.toList) h
  simp only [hselect] at hvalues
  exact List.singleton_inj.mp hvalues

/-- The targetings made from some labels, each beside the other ones. -/
def targetsOf (target : κ → OrderedSet κ → Targeting) (labels : OrderedSet κ) : List Targeting :=
  labels.toList.map fun k => target k (labels.filter (· ≠ k))

omit [Std.TransOrd κ] [Std.LawfulEqOrd κ] in
/-- A property of the dimension selects all targetings. -/
theorem filter_targetsOf_eq_self {p : Targeting → Bool} {labels : OrderedSet κ}
    (h : ∀ k others, p (target k others) = true) :
    (targetsOf target labels).filter p = targetsOf target labels := by
  refine List.filter_eq_self.mpr fun t ht => ?_
  obtain ⟨k, _, rfl⟩ := List.mem_map.mp ht
  exact h k _

omit [Std.TransOrd κ] [Std.LawfulEqOrd κ] in
/-- A property of another dimension selects none of the targetings. -/
theorem filter_targetsOf_eq_nil {p : Targeting → Bool} {labels : OrderedSet κ}
    (h : ∀ k others, p (target k others) = false) : (targetsOf target labels).filter p = [] := by
  refine List.filter_eq_nil_iff.mpr fun t ht => ?_
  obtain ⟨k, _, rfl⟩ := List.mem_map.mp ht
  simp [h]

omit [Std.TransOrd κ] in
/-- A property of one label selects the targeting of that label, if there is one. -/
theorem filter_targetsOf_eq {p : Targeting → Bool} {labels : OrderedSet κ} {k : κ}
    (h : ∀ j ∈ labels, p (target j (labels.filter (· ≠ j))) ↔ j = k) :
    (targetsOf target labels).filter p =
      if k ∈ labels then [target k (labels.filter (· ≠ k))] else [] := by
  have hselect : labels.toList.filter (p ∘ fun j => target j (labels.filter (· ≠ j))) =
      labels.toList.filter (· = k) := by
    refine List.filter_congr fun j hj => ?_
    rw [Bool.eq_iff_iff, Function.comp_apply, h j hj, decide_eq_true_eq]
  rw [targetsOf, List.filter_map, hselect, List.filter_eq]
  by_cases hk : k ∈ labels
  · rw [if_pos hk, List.count_eq_one_of_mem labels.nodup_toList hk]
    rfl
  · rw [if_neg hk, List.count_eq_zero_of_not_mem hk]
    rfl

omit [Std.TransOrd κ] in
/-- Different labels have different targetings. -/
theorem nodup_targetsOf (labels : OrderedSet κ)
    (hinj : ∀ {j k others others'}, target j others = target k others' → j = k) :
    (targetsOf target labels).Nodup :=
  labels.nodup_toList.map fun _ _ h => hinj h

omit [Ord κ] [Std.TransOrd κ] [Std.LawfulEqOrd κ] [DecidableEq κ] in
/-- Selecting entries by their label selects them by what labels them. -/
theorem map_fst_filter_labelled (label : Entry → Option κ) (p : Option κ → Bool)
    (entries : List Entry) :
    ((entries.map fun e => (e, label e)).filter (p ·.2)).map Prod.fst =
      entries.filter fun e => p (label e) := by
  have hfst : (Prod.fst ∘ fun e => (e, label e)) = id := rfl
  rw [List.filter_map, List.map_map, hfst, List.map_id]
  rfl

omit [Ord κ] [Std.TransOrd κ] [Std.LawfulEqOrd κ] in
/-- The entries of a label are not lost when labels are selected and that label is. -/
theorem entriesLabelled_filter {p : Option κ → Bool} {label : Option κ} (h : p label = true) :
    entriesLabelled (labelled.filter (p ·.2)) label = entriesLabelled labelled label := by
  rw [entriesLabelled, entriesLabelled, List.filter_filter]
  congr 1
  refine List.filter_congr fun l _ => ?_
  by_cases hl : l.2 = label
  · simp [hl, h]
  · simp [hl]

/-- The first part is untargeted, and then every label that occurs has one part. -/
theorem targetings_divide :
    (s.divide labelled target).map Split.targeting =
      .untargeted :: targetsOf target (occurringLabels labelled) := by
  simp [Split.divide, targetsOf]

/-- The parts together hold the labelled entries, each once. -/
theorem entries_divide_perm :
    ((s.divide labelled target).flatMap Split.entries).Perm (labelled.map Prod.fst) := by
  let labels := occurringLabels labelled
  have hentries : (s.divide labelled target).flatMap Split.entries =
      ((none :: labels.toList.map some).flatMap fun l =>
        labelled.filter (·.2 = l)).map Prod.fst := by
    simp [Split.divide, labels, List.flatMap_map, List.map_flatMap, entriesLabelled]
  rw [hentries]
  refine (perm_flatMap_filter ?_ fun p hp => ?_).map Prod.fst
  · refine List.nodup_cons.mpr ⟨by simp, labels.nodup_toList.map fun _ _ h => ?_⟩
    exact Option.some.inj h
  · cases hlabel : p.2 with
    | none => exact List.mem_cons_self
    | some k =>
      refine List.mem_cons_of_mem _ (List.mem_map_of_mem ?_)
      exact mem_occurringLabels.mpr ⟨p.1, hlabel ▸ hp⟩

omit [Std.TransOrd κ] in
/-- Of splits for some labels, the one of a label gives its entries to the targeting of the
label, if different labels have different targetings. -/
theorem entriesFor_targets {labels : OrderedSet κ} {f : κ → List Entry} {k : κ} (hk : k ∈ labels)
    (hinj : ∀ {j k others others'}, target j others = target k others' → j = k) :
    entriesFor (labels.toList.map fun j => s.derive (f j) (target j (labels.filter (· ≠ j))))
      (target k (labels.filter (· ≠ k))) = f k := by
  have hpart : (labels.toList.map fun j => s.derive (f j)
      (target j (labels.filter (· ≠ j)))).filter (·.targeting = target k (labels.filter (· ≠ k))) =
      (labels.toList.filter (· = k)).map fun j =>
        s.derive (f j) (target j (labels.filter (· ≠ j))) := by
    rw [List.filter_map]
    congr 1
    refine List.filter_congr fun j _ => decide_eq_decide.mpr ⟨fun h => hinj h, fun hj => ?_⟩
    rw [hj]
    rfl
  rw [entriesFor, hpart, List.flatMap_map, List.filter_eq,
    List.count_eq_one_of_mem labels.nodup_toList hk]
  simp

/-- The part of a label holds the entries with that label, if different labels have different
targetings. -/
theorem entriesFor_divide {k : κ} (hk : k ∈ occurringLabels labelled)
    (htarget : ∀ k others, target k others ≠ .untargeted)
    (hinj : ∀ {j k others others'}, target j others = target k others' → j = k) :
    entriesFor (s.divide labelled target)
        (target k ((occurringLabels labelled).filter (· ≠ k))) =
      entriesLabelled labelled (some k) := by
  rw [Split.divide, entriesFor, List.filter_cons_of_neg (by simpa using (htarget k _).symm)]
  exact entriesFor_targets hk hinj

/-- Of the parts of a division only the first one is for all packages. -/
theorem entries_divide_of_untargeted {p : Targeting → Bool} (huntargeted : p .untargeted = true)
    (htarget : ∀ k others, p (target k others) = false) :
    ((s.divide labelled target).filter (p ·.targeting)).flatMap Split.entries =
      entriesLabelled labelled none := by
  let labels := occurringLabels labelled
  have hnone : (labels.toList.map fun k => s.derive (entriesLabelled labelled (some k))
      (target k (labels.filter (· ≠ k)))).filter (p ·.targeting) = [] := by
    refine List.filter_eq_nil_iff.mpr fun part hpart => ?_
    obtain ⟨k, _, rfl⟩ := List.mem_map.mp hpart
    simp [htarget]
  rw [Split.divide, List.filter_cons_of_pos (by simpa using huntargeted), hnone]
  simp

/-- The other parts of a division hold the entries with a label, each once. -/
theorem entries_divide_of_targeted {p : Targeting → Bool} (huntargeted : p .untargeted = false)
    (htarget : ∀ k others, p (target k others) = true) :
    (((s.divide labelled target).filter (p ·.targeting)).flatMap Split.entries).Perm
      ((labelled.filter (·.2.isSome)).map Prod.fst) := by
  let labels := occurringLabels labelled
  let others := labels.toList.map fun k => s.derive (entriesLabelled labelled (some k))
    (target k (labels.filter (· ≠ k)))
  have hall : others.filter (p ·.targeting) = others := by
    refine List.filter_eq_self.mpr fun part hpart => ?_
    obtain ⟨k, _, rfl⟩ := List.mem_map.mp hpart
    exact htarget k _
  have hparts : (s.divide labelled target).filter (p ·.targeting) = others := by
    rw [Split.divide, List.filter_cons_of_neg (by simp [huntargeted])]
    exact hall
  have hsome : (labelled.filter fun l => !decide (l.2 = none)) = labelled.filter (·.2.isSome) := by
    refine List.filter_congr fun l _ => ?_
    cases l.2 <;> simp
  have hlabelled := (List.filter_append_perm (fun l : Entry × Option κ => l.2 = none)
    labelled).map Prod.fst
  rw [hsome, List.map_append] at hlabelled
  have hdivide : (entriesLabelled labelled none ++ others.flatMap Split.entries).Perm
      (labelled.map Prod.fst) := entries_divide_perm
  rw [hparts]
  exact (List.perm_append_left_iff _).mp (hdivide.trans hlabelled.symm)

end Division

end AppBundle
