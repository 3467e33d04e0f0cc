/-!
# Finite maps in increasing order of their keys

A finite map is kept as its pairs, with strictly increasing keys. The main
statements say what insertion does to look-up, and that collecting the pairs of
a map gives the map back.
-/

namespace AppBundle

/-- A finite map, held as its pairs in strictly increasing order of the keys. -/
structure OrderedMap (κ ν : Type) [Ord κ] where
  /-- The pairs, from the least key to the greatest. -/
  toList : List (κ × ν)
  /-- Every key is less than all keys after it. -/
  increasing : (toList.map Prod.fst).Pairwise (compare · · = .lt)

namespace OrderedMap

variable {κ ν : Type} [Ord κ]

/-- Two maps with the same list of pairs are the same map. -/
theorem toList_injective {m n : OrderedMap κ ν} (h : m.toList = n.toList) : m = n := by
  cases m; cases n; cases h; rfl

instance [DecidableEq κ] [DecidableEq ν] : DecidableEq (OrderedMap κ ν) := fun m n =>
  decidable_of_iff (m.toList = n.toList) ⟨toList_injective, fun h => h ▸ rfl⟩

/-- The map without pairs. -/
def empty : OrderedMap κ ν := ⟨[], by simp⟩

instance : EmptyCollection (OrderedMap κ ν) := ⟨empty⟩

instance : Inhabited (OrderedMap κ ν) := ⟨empty⟩

/-- The number of pairs. -/
def size (m : OrderedMap κ ν) : Nat := m.toList.length

/-- Whether the map has no pairs. -/
def isEmpty (m : OrderedMap κ ν) : Bool := m.toList.isEmpty

/-- The keys, in increasing order. -/
def keys (m : OrderedMap κ ν) : List κ := m.toList.map Prod.fst

/-- The value of a key. -/
def get? [DecidableEq κ] (m : OrderedMap κ ν) (k : κ) : Option ν :=
  (m.toList.find? (·.1 = k)).map Prod.snd

/-- Puts a pair into its place in an increasing list, in the place of a pair
with the same key. -/
def insertSorted (k : κ) (v : ν) : List (κ × ν) → List (κ × ν)
  | [] => [(k, v)]
  | p :: ps =>
    match compare k p.1 with
    | .lt => (k, v) :: p :: ps
    | .eq => (k, v) :: ps
    | .gt => p :: insertSorted k v ps

section Lawful

variable [Std.LawfulEqOrd κ]

/-- Insertion adds the key and no other. -/
theorem mem_keys_insertSorted {k x : κ} {v : ν} {l : List (κ × ν)} :
    x ∈ (insertSorted k v l).map Prod.fst ↔ x = k ∨ x ∈ l.map Prod.fst := by
  induction l with
  | nil => simp [insertSorted]
  | cons p ps ih =>
    unfold insertSorted
    split
    · simp
    · rename_i h
      have hk : k = p.1 := Std.LawfulEqOrd.eq_of_compare h
      simp [hk]
    · rw [List.map_cons, List.mem_cons, ih, List.map_cons, List.mem_cons]
      constructor <;> rintro (h | h | h) <;> simp [h]

variable [Std.TransOrd κ]

/-- Insertion keeps the keys increasing. -/
theorem insertSorted_increasing {k : κ} {v : ν} {l : List (κ × ν)}
    (hl : (l.map Prod.fst).Pairwise (compare · · = .lt)) :
    ((insertSorted k v l).map Prod.fst).Pairwise (compare · · = .lt) := by
  induction l with
  | nil => simp [insertSorted]
  | cons p ps ih =>
    obtain ⟨hp, hps⟩ := List.pairwise_cons.mp hl
    unfold insertSorted
    split
    · rename_i h
      refine List.pairwise_cons.mpr ⟨fun x hx => ?_, hl⟩
      rcases List.mem_cons.mp hx with rfl | hx
      · exact h
      · exact Std.TransCmp.lt_trans h (hp x hx)
    · rename_i h
      have hk : k = p.1 := Std.LawfulEqOrd.eq_of_compare h
      exact List.pairwise_cons.mpr ⟨fun x hx => hk ▸ hp x hx, hps⟩
    · rename_i h
      refine List.pairwise_cons.mpr ⟨fun x hx => ?_, ih hps⟩
      rcases mem_keys_insertSorted.mp hx with rfl | hx
      · exact Std.OrientedCmp.lt_of_gt h
      · exact hp x hx

/-- The map with one more pair; a pair with the same key gives way. -/
def insert (k : κ) (v : ν) (m : OrderedMap κ ν) : OrderedMap κ ν :=
  ⟨insertSorted k v m.toList, insertSorted_increasing m.increasing⟩

omit [Std.TransOrd κ] in
/-- Insertion gives the key its value, and leaves the values of all others. -/
theorem find?_insertSorted [DecidableEq κ] {k x : κ} {v : ν} {l : List (κ × ν)} :
    ((insertSorted k v l).find? (·.1 = x)).map Prod.snd =
      if k = x then some v else (l.find? (·.1 = x)).map Prod.snd := by
  induction l with
  | nil => by_cases hk : k = x <;> simp [insertSorted, hk]
  | cons p ps ih =>
    unfold insertSorted
    split
    · by_cases hk : k = x <;> simp [List.find?_cons, hk]
    · rename_i h
      have hp : k = p.1 := Std.LawfulEqOrd.eq_of_compare h
      by_cases hk : k = x <;> simp [← hp, hk]
    · rename_i h
      by_cases hp : p.1 = x
      · have hk : k ≠ x := by
          rintro rfl
          rw [hp, Std.ReflOrd.compare_self] at h
          cases h
        simp [hp, hk]
      · simp [hp, ih]

/-- The value of a key after insertion. -/
@[simp] theorem get?_insert [DecidableEq κ] (m : OrderedMap κ ν) (k x : κ) (v : ν) :
    (m.insert k v).get? x = if k = x then some v else m.get? x := find?_insertSorted

/-- The map of a list of pairs, in which the last pair of a key counts. -/
def ofList (l : List (κ × ν)) : OrderedMap κ ν :=
  l.foldl (fun m p => m.insert p.1 p.2) ∅

omit [Std.LawfulEqOrd κ] in
/-- A pair with a greater key than all others goes to the end. -/
theorem insertSorted_of_greater {k : κ} {v : ν} {l : List (κ × ν)}
    (h : ∀ x ∈ l.map Prod.fst, compare x k = .lt) : insertSorted k v l = l ++ [(k, v)] := by
  induction l with
  | nil => rfl
  | cons p ps ih =>
    have hp : compare k p.1 = .gt := Std.OrientedCmp.gt_of_lt (h p.1 (by simp))
    rw [insertSorted, hp, List.cons_append]
    exact congrArg _ (ih fun x hx => h x (List.mem_cons_of_mem _ hx))

/-- Collecting the pairs of a map gives the map back. -/
@[simp] theorem ofList_toList (m : OrderedMap κ ν) : ofList m.toList = m := by
  suffices h : ∀ (l : List (κ × ν)) (acc : OrderedMap κ ν),
      ((acc.toList ++ l).map Prod.fst).Pairwise (compare · · = .lt) →
      (l.foldl (fun m p => m.insert p.1 p.2) acc).toList = acc.toList ++ l from
    toList_injective (h m.toList ∅ m.increasing)
  intro l
  induction l with
  | nil => intro acc _; simp
  | cons p ps ih =>
    intro acc hacc
    have hstep : (acc.insert p.1 p.2).toList = acc.toList ++ [p] := by
      refine insertSorted_of_greater fun x hx => ?_
      rw [List.map_append, List.pairwise_append] at hacc
      exact hacc.2.2 x hx p.1 (by simp)
    rw [List.foldl_cons, ih _ (by rw [hstep]; simpa using hacc), hstep]
    simp

omit [Std.LawfulEqOrd κ] [Std.TransOrd κ] in
/-- Insertion makes up no other pair. -/
theorem mem_of_mem_insertSorted {k : κ} {v : ν} {l : List (κ × ν)} {p : κ × ν}
    (h : p ∈ insertSorted k v l) : p = (k, v) ∨ p ∈ l := by
  induction l with
  | nil => exact .inl (List.mem_singleton.mp h)
  | cons q qs ih =>
    unfold insertSorted at h
    split at h
    · exact List.mem_cons.mp h
    · rcases List.mem_cons.mp h with h | h
      · exact .inl h
      · exact .inr (List.mem_cons_of_mem _ h)
    · rcases List.mem_cons.mp h with rfl | h
      · exact .inr List.mem_cons_self
      · exact (ih h).imp_right (List.mem_cons_of_mem _)

omit [Std.TransOrd κ] in
/-- Insertion of a new key keeps all pairs. -/
theorem insertSorted_perm {k : κ} {v : ν} {l : List (κ × ν)} (h : k ∉ l.map Prod.fst) :
    (insertSorted k v l).Perm ((k, v) :: l) := by
  induction l with
  | nil => exact .refl _
  | cons p ps ih =>
    obtain ⟨hp, hps⟩ := not_or.mp (mt List.mem_cons.mpr h)
    unfold insertSorted
    split
    · exact .refl _
    · rename_i hk
      exact absurd (Std.LawfulEqOrd.eq_of_compare hk) hp
    · exact ((ih hps).cons p).trans (.swap ..)

/-- A collected pair was in the list. -/
theorem mem_of_mem_ofList {l : List (κ × ν)} {p : κ × ν} (h : p ∈ (ofList l).toList) : p ∈ l := by
  suffices hfold : ∀ acc : OrderedMap κ ν,
      p ∈ (l.foldl (fun m q => m.insert q.1 q.2) acc).toList → p ∈ acc.toList ∨ p ∈ l from
    (hfold ∅ h).resolve_left List.not_mem_nil
  clear h
  induction l with
  | nil => exact fun acc h => .inl h
  | cons q qs ih =>
    intro acc h
    rcases ih (acc.insert q.1 q.2) h with h | h
    · rcases mem_of_mem_insertSorted h with rfl | h
      · exact .inr List.mem_cons_self
      · exact .inl h
    · exact .inr (List.mem_cons_of_mem _ h)

/-- Pairs with different keys are all collected. -/
theorem ofList_perm {l : List (κ × ν)} (h : (l.map Prod.fst).Nodup) :
    (ofList l).toList.Perm l := by
  suffices hfold : ∀ acc : OrderedMap κ ν, ((acc.toList ++ l).map Prod.fst).Nodup →
      (l.foldl (fun m q => m.insert q.1 q.2) acc).toList.Perm (acc.toList ++ l) from
    hfold ∅ h
  clear h
  induction l with
  | nil => exact fun acc _ => by rw [List.append_nil]; exact .refl _
  | cons q qs ih =>
    intro acc hacc
    have hnew : q.1 ∉ acc.toList.map Prod.fst := by
      rw [List.map_append, List.nodup_append] at hacc
      exact fun hq => hacc.2.2 q.1 hq q.1 List.mem_cons_self rfl
    have hstep : ((acc.insert q.1 q.2).toList ++ qs).Perm (acc.toList ++ q :: qs) :=
      ((insertSorted_perm hnew).append_right qs).trans List.perm_middle.symm
    exact (ih (acc.insert q.1 q.2) ((hstep.map Prod.fst).nodup_iff.mpr hacc)).trans hstep

omit [Std.TransOrd κ] in
/-- No key is listed twice. -/
theorem nodup_keys (m : OrderedMap κ ν) : (m.toList.map Prod.fst).Nodup := by
  refine m.increasing.imp fun hlt heq => ?_
  rw [heq, Std.ReflOrd.compare_self] at hlt
  cases hlt

omit [Std.TransOrd κ] in
/-- The value of a key is the one it is listed with. -/
theorem get?_eq_some_iff [DecidableEq κ] {m : OrderedMap κ ν} {k : κ} {v : ν} :
    m.get? k = some v ↔ (k, v) ∈ m.toList := by
  have hnodup := m.nodup_keys
  rw [get?]
  generalize m.toList = l at hnodup ⊢
  induction l with
  | nil => simp
  | cons p ps ih =>
    obtain ⟨hp, hps⟩ := List.nodup_cons.mp hnodup
    by_cases hk : p.1 = k
    · have hnew : (k, v) ∉ ps := fun h => hp (hk ▸ List.mem_map_of_mem h)
      rw [List.find?_cons_of_pos (by simpa using hk), Option.map_some, Option.some.injEq,
        List.mem_cons, or_iff_left hnew, ← hk]
      exact ⟨fun h => by rw [← h], fun h => by rw [← h]⟩
    · have hne : (k, v) ≠ p := fun h => hk (by rw [← h])
      rw [List.find?_cons_of_neg (by simpa using hk), List.mem_cons, or_iff_right hne]
      exact ih hps

/-- A map is known by its pairs. -/
theorem ext {m n : OrderedMap κ ν} (h : ∀ p, p ∈ m.toList ↔ p ∈ n.toList) : m = n := by
  have hnodup (m : OrderedMap κ ν) : m.toList.Nodup :=
    (List.pairwise_map.mp m.nodup_keys).imp fun hne heq => hne (by rw [heq])
  have hperm : m.toList.Perm n.toList :=
    (List.perm_ext_iff_of_nodup (hnodup m) (hnodup n)).mpr h
  refine toList_injective (hperm.eq_of_pairwise (fun p q _ _ hpq hqp => ?_)
    (List.pairwise_map.mp m.increasing) (List.pairwise_map.mp n.increasing))
  have hlt := Std.TransCmp.lt_trans hpq hqp
  rw [Std.ReflOrd.compare_self] at hlt
  cases hlt

end Lawful

end OrderedMap

end AppBundle
