import AppBundle.Package
import Mathlib.Data.List.Induction

/-!
# The targeting of a package

The targeting of a package gathers what its splits serve. Alternatives are taken out after each
split, and may come back with the next one; in the end they are what some split names as an
alternative and no split serves. So neither the order nor the repetition of splits matters, and the
universe of the package is made up of those of its splits.
-/

namespace AppBundle

namespace OrderedSet

variable {α : Type} [Ord α] [Std.TransOrd α] [Std.LawfulEqOrd α]

/-- The elements of some sets. -/
def unions (sets : List (OrderedSet α)) : OrderedSet α := sets.foldr (· ∪ ·) ∅

@[simp] theorem mem_unions {a : α} {sets : List (OrderedSet α)} :
    a ∈ unions sets ↔ ∃ s ∈ sets, a ∈ s := by
  induction sets with
  | nil => simp [unions]
  | cons s sets ih =>
    have hrest : a ∈ sets.foldr (· ∪ ·) ∅ ↔ ∃ s ∈ sets, a ∈ s := ih
    rw [unions, List.foldr_cons, mem_union, hrest]
    simp

end OrderedSet

namespace Selection

variable {α : Type} [Ord α] [Std.TransOrd α] [Std.LawfulEqOrd α] [DecidableEq α]
variable {s t : Selection α} {ss ts : List (Selection α)} {a : α}

/-- What several selections select together. -/
def combine (ss : List (Selection α)) : Selection α := ss.foldl absorb ∅

theorem combine_concat (ss : List (Selection α)) (t : Selection α) :
    combine (ss ++ [t]) = (combine ss).absorb t := by
  rw [combine, List.foldl_append]
  rfl

theorem mem_values_absorb : a ∈ (s.absorb t).values ↔ a ∈ s.values ∨ a ∈ t.values := by
  simp [absorb]

theorem mem_alternatives_absorb :
    a ∈ (s.absorb t).alternatives ↔
      (a ∈ s.alternatives ∨ a ∈ t.alternatives) ∧ a ∉ s.values ∧ a ∉ t.values := by
  simp [absorb]

/-- Together is served what one of the selections serves. -/
theorem mem_values_combine : a ∈ (combine ss).values ↔ ∃ s ∈ ss, a ∈ s.values := by
  induction ss using List.reverseRecOn with
  | nil =>
    refine iff_of_false (OrderedSet.not_mem_empty a) ?_
    rintro ⟨s, hs, _⟩
    exact List.not_mem_nil hs
  | append_singleton ss t ih =>
    rw [combine_concat, mem_values_absorb, ih]
    simp [or_and_right, exists_or]

/-- Together the alternatives are those of the selections that none of them serves. -/
theorem mem_alternatives_combine :
    a ∈ (combine ss).alternatives ↔
      (∃ s ∈ ss, a ∈ s.alternatives) ∧ ∀ s ∈ ss, a ∉ s.values := by
  induction ss using List.reverseRecOn with
  | nil =>
    refine iff_of_false (OrderedSet.not_mem_empty a) ?_
    rintro ⟨⟨s, hs, _⟩, _⟩
    exact List.not_mem_nil hs
  | append_singleton ss t ih =>
    have hserved : a ∉ (combine ss).values ↔ ∀ s ∈ ss, a ∉ s.values := by
      rw [mem_values_combine]
      push Not
      rfl
    have hsome : (∃ s ∈ ss ++ [t], a ∈ s.alternatives) ↔
        (∃ s ∈ ss, a ∈ s.alternatives) ∨ a ∈ t.alternatives := by
      simp [or_and_right, exists_or]
    have hnone : (∀ s ∈ ss ++ [t], a ∉ s.values) ↔ (∀ s ∈ ss, a ∉ s.values) ∧ a ∉ t.values := by
      simp [or_imp, forall_and]
    rw [combine_concat, mem_alternatives_absorb, ih, hserved, hsome, hnone]
    -- what an earlier split serves is no alternative in the end, so one last removal is enough
    constructor
    · rintro ⟨⟨halternative, _⟩ | halternative, hserved⟩
      · exact ⟨.inl halternative, hserved⟩
      · exact ⟨.inr halternative, hserved⟩
    · rintro ⟨halternative | halternative, hserved⟩
      · exact ⟨.inl ⟨halternative, hserved.1⟩, hserved⟩
      · exact ⟨.inr halternative, hserved⟩

omit [Std.TransOrd α] [Std.LawfulEqOrd α] [DecidableEq α] in
/-- A selection of some value is targeted. -/
theorem isEmpty_eq_false (h : a ∈ s.values ∨ a ∈ s.alternatives) : s.isEmpty = false := by
  rw [Bool.eq_false_iff]
  intro hempty
  rw [isEmpty_iff.mp hempty] at h
  exact h.elim (OrderedSet.not_mem_empty a) (OrderedSet.not_mem_empty a)

/-- Neither the order nor the repetition of selections matters, nor selections that are not
targeted. -/
theorem combine_congr (h : ∀ s, s.isEmpty = false → (s ∈ ss ↔ s ∈ ts)) :
    combine ss = combine ts := by
  have hvalue (s : Selection α) (a : α) (ha : a ∈ s.values) : s ∈ ss ↔ s ∈ ts :=
    h s (isEmpty_eq_false (.inl ha))
  have hvalues : (combine ss).values = (combine ts).values := by
    refine OrderedSet.ext fun a => ?_
    rw [mem_values_combine, mem_values_combine]
    exact exists_congr fun s => and_congr_left fun ha => hvalue s a ha
  have halternatives : (combine ss).alternatives = (combine ts).alternatives := by
    refine OrderedSet.ext fun a => ?_
    rw [mem_alternatives_combine, mem_alternatives_combine]
    constructor
    · rintro ⟨⟨s, hs, ha⟩, hnone⟩
      exact ⟨⟨s, (h s (isEmpty_eq_false (.inr ha))).mp hs, ha⟩,
        fun t ht ha => hnone t ((hvalue t a ha).mpr ht) ha⟩
    · rintro ⟨⟨s, hs, ha⟩, hnone⟩
      exact ⟨⟨s, (h s (isEmpty_eq_false (.inr ha))).mpr hs, ha⟩,
        fun t ht ha => hnone t ((hvalue t a ha).mp ht) ha⟩
  exact congrArg₂ mk hvalues halternatives

/-- A selection is what some selections select together. -/
structure IsUnionOf (s : Selection α) (ss : List (Selection α)) : Prop where
  /-- The values are those of all selections. -/
  values : s.values = .unions (ss.map Selection.values)
  /-- The alternatives are those of all selections without all values. -/
  alternatives : s.alternatives = (OrderedSet.unions (ss.map Selection.alternatives)).filter
    (· ∉ OrderedSet.unions (ss.map Selection.values))
  /-- No value is an alternative. -/
  disjoint : ∀ a ∈ s.values, a ∉ s.alternatives
  /-- The universe consists of all universes. -/
  choices : s.choices = .unions (ss.map Selection.choices)

/-- Taking values out of the alternatives step by step is the same as taking them out once. -/
theorem isUnionOf_combine (ss : List (Selection α)) : (combine ss).IsUnionOf ss where
  values := OrderedSet.ext fun a => by simp [mem_values_combine]
  alternatives := OrderedSet.ext fun a => by simp [mem_alternatives_combine]
  disjoint a ha halternative := by
    obtain ⟨s, hs, hmem⟩ := mem_values_combine.mp ha
    exact (mem_alternatives_combine.mp halternative).2 s hs hmem
  choices := by
    refine OrderedSet.ext fun a => ?_
    rw [mem_choices, mem_values_combine, mem_alternatives_combine, OrderedSet.mem_unions]
    simp only [List.mem_map, exists_exists_and_eq_and, mem_choices]
    constructor
    · rintro (⟨s, hs, ha⟩ | ⟨⟨s, hs, ha⟩, _⟩)
      · exact ⟨s, hs, .inl ha⟩
      · exact ⟨s, hs, .inr ha⟩
    · rintro ⟨s, hs, ha | ha⟩
      · exact .inl ⟨s, hs, ha⟩
      · -- an alternative of one selection is in the universe, also if another one serves it
        by_cases hserved : ∃ t ∈ ss, a ∈ t.values
        · exact .inl hserved
        · exact .inr ⟨⟨s, hs, ha⟩, fun t ht hmem => hserved ⟨t, ht, hmem⟩⟩

end Selection

namespace Targeting

variable {ts us : List Targeting}

/-- Targetings are combined dimension by dimension. -/
theorem combine_eq (ts : List Targeting) :
    combine ts =
      { abi := .combine (ts.map abi)
        density := .combine (ts.map density)
        language := .combine (ts.map language)
        multiAbi := .combine (ts.map multiAbi) } := by
  induction ts using List.reverseRecOn with
  | nil => rfl
  | append_singleton ts t ih =>
    have hlast : combine (ts ++ [t]) = (combine ts).absorb t := by
      rw [combine, List.foldl_append]
      rfl
    simp only [hlast, ih, List.map_append, List.map_singleton, Selection.combine_concat]
    rfl

/-- Neither the order nor the repetition of targetings matters. -/
theorem combine_of_mem_iff (h : ∀ t, t ∈ ts ↔ t ∈ us) : combine ts = combine us := by
  have hmap {β : Type} (f : Targeting → β) (b : β) : b ∈ ts.map f ↔ b ∈ us.map f := by
    simp only [List.mem_map, h]
  rw [combine_eq, combine_eq, Selection.combine_congr fun s _ => hmap abi s,
    Selection.combine_congr fun s _ => hmap density s,
    Selection.combine_congr fun s _ => hmap language s,
    Selection.combine_congr fun s _ => hmap multiAbi s]

/-- A targeting is what some targetings target together, in each dimension. -/
structure IsUnionOf (t : Targeting) (ts : List Targeting) : Prop where
  abi : t.abi.IsUnionOf (ts.map Targeting.abi)
  density : t.density.IsUnionOf (ts.map Targeting.density)
  language : t.language.IsUnionOf (ts.map Targeting.language)
  multiAbi : t.multiAbi.IsUnionOf (ts.map Targeting.multiAbi)

/-- Targetings are combined to what they target together. Another list of the same targetings, in
another order or with other repetitions, is combined to the same. -/
theorem combine_closedForm (ts : List Targeting) :
    (combine ts).IsUnionOf ts ∧
      ∀ us : List Targeting, (∀ t, t ∈ us ↔ t ∈ ts) → combine us = combine ts := by
  refine ⟨?_, fun us h => combine_of_mem_iff h⟩
  rw [combine_eq]
  exact
    { abi := Selection.isUnionOf_combine _
      density := Selection.isUnionOf_combine _
      language := Selection.isUnionOf_combine _
      multiAbi := Selection.isUnionOf_combine _ }

/-- An alternative that a later targeting serves does not come back with the next one. -/
example :
    combine [forAbi .x86 (.singleton .mips), forAbi .mips ∅, forAbi .x86 (.singleton .mips)] =
      { abi := ⟨.ofList [.x86, .mips], ∅⟩ } := by
  decide

end Targeting

end AppBundle
