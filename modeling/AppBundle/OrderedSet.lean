/-!
# Finite sets in increasing order

A finite set is kept as its elements in strictly increasing order, so that two
sets with the same members are equal, and the elements come out sorted. The
main statements are `OrderedSet.ext` (a set is known by its members), the
membership lemmas of the operations, and the laws of the lexicographic order.
-/

namespace AppBundle

/-- A finite set, held as its elements in strictly increasing order. -/
structure OrderedSet (α : Type) [Ord α] where
  /-- The elements, from the least to the greatest. -/
  toList : List α
  /-- Every element is less than all elements after it. -/
  increasing : toList.Pairwise (compare · · = .lt)

namespace OrderedSet

variable {α β : Type} [Ord α]

/-- Two sets with the same list of elements are the same set. -/
theorem toList_injective {s t : OrderedSet α} (h : s.toList = t.toList) : s = t := by
  cases s; cases t; cases h; rfl

instance [DecidableEq α] : DecidableEq (OrderedSet α) := fun s t =>
  decidable_of_iff (s.toList = t.toList) ⟨toList_injective, fun h => h ▸ rfl⟩

/-- The set without elements. -/
def empty : OrderedSet α := ⟨[], .nil⟩

instance : EmptyCollection (OrderedSet α) := ⟨empty⟩

instance : Inhabited (OrderedSet α) := ⟨empty⟩

instance : Membership α (OrderedSet α) := ⟨fun s a => a ∈ s.toList⟩

instance [DecidableEq α] (a : α) (s : OrderedSet α) : Decidable (a ∈ s) :=
  inferInstanceAs (Decidable (a ∈ s.toList))

/-- Whether the set has no elements. -/
def isEmpty (s : OrderedSet α) : Bool := s.toList.isEmpty

/-- A set with one element. -/
def singleton (a : α) : OrderedSet α := ⟨[a], by simp⟩

/-- The elements that satisfy a test. -/
def filter (p : α → Bool) (s : OrderedSet α) : OrderedSet α :=
  ⟨s.toList.filter p, s.increasing.filter p⟩

/-- Puts an element into its place in an increasing list. -/
def insertSorted (a : α) : List α → List α
  | [] => [a]
  | b :: bs =>
    match compare a b with
    | .lt => a :: b :: bs
    | .eq => b :: bs
    | .gt => b :: insertSorted a bs

@[simp] theorem mem_toList {a : α} {s : OrderedSet α} : a ∈ s.toList ↔ a ∈ s := Iff.rfl

@[simp] theorem toList_empty : (∅ : OrderedSet α).toList = [] := rfl

@[simp] theorem not_mem_empty (a : α) : ¬ a ∈ (∅ : OrderedSet α) := by
  rw [← mem_toList, toList_empty]; exact List.not_mem_nil

@[simp] theorem mem_singleton {a b : α} : a ∈ singleton b ↔ a = b := by
  rw [← mem_toList]; exact List.mem_singleton

@[simp] theorem mem_filter {a : α} {p : α → Bool} {s : OrderedSet α} :
    a ∈ s.filter p ↔ a ∈ s ∧ p a := by
  rw [← mem_toList]; exact List.mem_filter

theorem isEmpty_iff {s : OrderedSet α} : s.isEmpty ↔ s = ∅ :=
  ⟨fun h => toList_injective (List.isEmpty_iff.mp h), fun h => h ▸ rfl⟩

section Lawful

variable [Std.TransOrd α] [Std.LawfulEqOrd α]

omit [Std.TransOrd α] in
/-- Insertion adds the element and nothing else. -/
theorem mem_insertSorted {a x : α} {l : List α} : x ∈ insertSorted a l ↔ x = a ∨ x ∈ l := by
  induction l with
  | nil => simp [insertSorted]
  | cons b bs ih =>
    unfold insertSorted
    split
    · simp
    · rename_i h
      obtain rfl := Std.LawfulEqOrd.eq_of_compare h
      simp
    · simp only [List.mem_cons, ih]
      constructor <;> rintro (h | h | h) <;> simp [h]

/-- Insertion keeps the list increasing. -/
theorem insertSorted_increasing {a : α} {l : List α} (hl : l.Pairwise (compare · · = .lt)) :
    (insertSorted a l).Pairwise (compare · · = .lt) := by
  induction l with
  | nil => simp [insertSorted]
  | cons b bs ih =>
    obtain ⟨hb, hbs⟩ := List.pairwise_cons.mp hl
    unfold insertSorted
    split
    · rename_i h
      refine List.pairwise_cons.mpr ⟨fun x hx => ?_, hl⟩
      rcases List.mem_cons.mp hx with rfl | hx
      · exact h
      · exact Std.TransCmp.lt_trans h (hb x hx)
    · exact hl
    · rename_i h
      refine List.pairwise_cons.mpr ⟨fun x hx => ?_, ih hbs⟩
      rcases mem_insertSorted.mp hx with rfl | hx
      · exact Std.OrientedCmp.lt_of_gt h
      · exact hb x hx

/-- The set with one more element. -/
def insert (a : α) (s : OrderedSet α) : OrderedSet α :=
  ⟨insertSorted a s.toList, insertSorted_increasing s.increasing⟩

/-- The set of the elements of a list. -/
def ofList (l : List α) : OrderedSet α := l.foldr insert ∅

/-- The elements of either set. -/
def union (s t : OrderedSet α) : OrderedSet α := s.toList.foldr insert t

instance : Union (OrderedSet α) := ⟨union⟩

@[simp] theorem mem_insert {a x : α} {s : OrderedSet α} : x ∈ s.insert a ↔ x = a ∨ x ∈ s :=
  mem_insertSorted

@[simp] theorem mem_ofList {x : α} {l : List α} : x ∈ ofList l ↔ x ∈ l := by
  induction l with
  | nil => simp [ofList]
  | cons a l ih =>
    rw [ofList, List.foldr_cons, mem_insert, List.mem_cons]
    exact or_congr Iff.rfl ih

@[simp] theorem mem_union {x : α} {s t : OrderedSet α} : x ∈ s ∪ t ↔ x ∈ s ∨ x ∈ t := by
  change x ∈ s.toList.foldr insert t ↔ x ∈ s.toList ∨ x ∈ t
  induction s.toList with
  | nil => simp
  | cons a l ih => rw [List.foldr_cons, mem_insert, List.mem_cons, ih, or_assoc]

/-- Two increasing lists with the same members are equal. -/
theorem eq_of_mem_iff {l m : List α} (hl : l.Pairwise (compare · · = .lt))
    (hm : m.Pairwise (compare · · = .lt)) (h : ∀ x, x ∈ l ↔ x ∈ m) : l = m := by
  induction l generalizing m with
  | nil =>
    cases m with
    | nil => rfl
    | cons b bs => exact absurd ((h b).mpr (by simp)) (by simp)
  | cons a as ih =>
    cases m with
    | nil => exact absurd ((h a).mp (by simp)) (by simp)
    | cons b bs =>
      obtain ⟨ha, has⟩ := List.pairwise_cons.mp hl
      obtain ⟨hb, hbs⟩ := List.pairwise_cons.mp hm
      have hirrefl (x : α) : compare x x ≠ .lt := by rw [Std.ReflOrd.compare_self]; simp
      have hab : a = b := by
        rcases List.mem_cons.mp ((h a).mp (by simp)) with hab | hab
        · exact hab
        · rcases List.mem_cons.mp ((h b).mpr (by simp)) with hba | hba
          · exact hba.symm
          · exact absurd (Std.TransCmp.lt_trans (ha b hba) (hb a hab)) (hirrefl a)
      subst hab
      congr 1
      refine ih has hbs fun x => ⟨fun hx => ?_, fun hx => ?_⟩
      · rcases List.mem_cons.mp ((h x).mp (List.mem_cons_of_mem _ hx)) with rfl | hx'
        · exact absurd (ha x hx) (hirrefl x)
        · exact hx'
      · rcases List.mem_cons.mp ((h x).mpr (List.mem_cons_of_mem _ hx)) with rfl | hx'
        · exact absurd (hb x hx) (hirrefl x)
        · exact hx'

/-- A set is known by its members. -/
theorem ext {s t : OrderedSet α} (h : ∀ x, x ∈ s ↔ x ∈ t) : s = t :=
  toList_injective (eq_of_mem_iff s.increasing t.increasing h)

omit [Std.TransOrd α] in
/-- No element is listed twice. -/
theorem nodup_toList (s : OrderedSet α) : s.toList.Nodup := by
  refine s.increasing.imp fun hlt heq => ?_
  rw [heq, Std.ReflOrd.compare_self] at hlt
  cases hlt

/-- Collecting the elements of a set gives the set back. -/
@[simp] theorem ofList_toList (s : OrderedSet α) : ofList s.toList = s :=
  ext fun _ => by rw [mem_ofList, mem_toList]

end Lawful

/-- Sets are compared as their increasing sequences, element by element. -/
instance : Ord (OrderedSet α) := ⟨compareOn toList⟩

instance [Std.TransOrd α] : Std.TransOrd (OrderedSet α) :=
  inferInstanceAs (Std.TransCmp (compareOn toList))

instance [Std.LawfulEqOrd α] : Std.LawfulEqOrd (OrderedSet α) where
  compare_self := Std.ReflOrd.compare_self (α := List α)
  eq_of_compare h := toList_injective (Std.LawfulEqOrd.eq_of_compare (α := List α) h)

end OrderedSet

end AppBundle
