import Mathlib.Data.List.Induction
import Mathlib.Data.List.Nodup

/-!
# Lists without repetitions

Targetings and universes are listed in the order in which they occur first. The
main statements say that selecting elements and listing them once commute, that
copies of one list add nothing to it, and that a list taken class by class is a
permutation of the list.
-/

namespace AppBundle

variable {α : Type} [BEq α] [LawfulBEq α]

/-- One more element at the end is there already or comes last. -/
theorem eraseDups_concat (l : List α) (a : α) [Decidable (a ∈ l)] :
    (l ++ [a]).eraseDups = if a ∈ l then l.eraseDups else l.eraseDups ++ [a] := by
  rw [List.eraseDups_append]
  by_cases h : a ∈ l
  · simp [h, List.removeAll]
  · simp [h, List.removeAll, List.eraseDups_cons]

/-- Nothing is listed twice. -/
theorem nodup_eraseDups (l : List α) : l.eraseDups.Nodup := by
  classical
  induction l using List.reverseRecOn with
  | nil => exact List.nodup_nil
  | append_singleton l a ih =>
    rw [eraseDups_concat]
    by_cases h : a ∈ l
    · rwa [if_pos h]
    · have hnew : a ∉ l.eraseDups := fun ha => h (List.mem_eraseDups.mp ha)
      rw [if_neg h, List.nodup_append_comm]
      exact List.nodup_cons.mpr ⟨hnew, ih⟩

/-- A list without repetitions is listed as it is. -/
theorem eraseDups_of_nodup {l : List α} (h : l.Nodup) : l.eraseDups = l := by
  induction l with
  | nil => rfl
  | cons a l ih =>
    obtain ⟨ha, hl⟩ := List.nodup_cons.mp h
    have hfilter : l.filter (fun b => !b == a) = l := by
      refine List.filter_eq_self.mpr fun b hb => ?_
      have hne : b ≠ a := fun hba => ha (hba ▸ hb)
      simpa using hne
    rw [List.eraseDups_cons, hfilter, ih hl]

/-- Selecting elements and listing each once commute. -/
theorem filter_eraseDups (p : α → Bool) (l : List α) :
    l.eraseDups.filter p = (l.filter p).eraseDups := by
  classical
  induction l using List.reverseRecOn with
  | nil => rfl
  | append_singleton l a ih =>
    rw [eraseDups_concat, List.filter_append]
    by_cases hp : p a
    · have hmem : a ∈ l.filter p ↔ a ∈ l := by simp [hp]
      rw [List.filter_cons_of_pos hp, List.filter_nil, eraseDups_concat]
      by_cases h : a ∈ l
      · rw [if_pos h, if_pos (hmem.mpr h), ih]
      · rw [if_neg h, if_neg (mt hmem.mp h), List.filter_append, ih,
          List.filter_cons_of_pos hp, List.filter_nil]
    · rw [List.filter_cons_of_neg hp, List.filter_nil, List.append_nil]
      by_cases h : a ∈ l
      · rw [if_pos h, ih]
      · rw [if_neg h, List.filter_append, ih, List.filter_cons_of_neg hp, List.filter_nil,
          List.append_nil]

/-- Copies of a list without repetitions, with nothing else between them, list
its elements once. -/
theorem eraseDups_flatten_of_copies {u : List α} {ls : List (List α)} (hu : u.Nodup)
    (hcopies : ∀ l ∈ ls, l = [] ∨ l = u) (hsome : u ∈ ls) : ls.flatten.eraseDups = u := by
  induction ls with
  | nil => simp at hsome
  | cons l ls ih =>
    have hrest (l' : List α) (h : l' ∈ ls) : l' = [] ∨ l' = u :=
      hcopies l' (List.mem_cons_of_mem _ h)
    rw [List.flatten_cons]
    by_cases hl : l = u
    · have hnone : ls.flatten.removeAll l = [] := by
        refine List.filter_eq_nil_iff.mpr fun a ha => ?_
        obtain ⟨l', hl', ha⟩ := List.mem_flatten.mp ha
        rcases hrest l' hl' with rfl | rfl
        · simp at ha
        · simp [hl, ha]
      rw [List.eraseDups_append, hnone, hl, eraseDups_of_nodup hu, List.eraseDups_nil,
        List.append_nil]
    · obtain rfl := (hcopies l List.mem_cons_self).resolve_right hl
      exact ih hrest ((List.mem_cons.mp hsome).resolve_left fun h => hl h.symm)

omit [BEq α] [LawfulBEq α] in
/-- What is made from an element is selected with the element. -/
theorem filter_flatMap_eq {β : Type} {f : α → List β} {p : α → Bool} {q : β → Bool} {l : List α}
    (h : ∀ a ∈ l, ∀ b ∈ f a, q b = p a) : (l.flatMap f).filter q = (l.filter p).flatMap f := by
  induction l with
  | nil => rfl
  | cons a l ih =>
    have hrest := ih fun a' ha' => h a' (List.mem_cons_of_mem _ ha')
    rw [List.flatMap_cons, List.filter_append, hrest]
    by_cases hp : p a
    · have hall : (f a).filter q = f a :=
        List.filter_eq_self.mpr fun b hb => by rw [h a List.mem_cons_self b hb, hp]
      rw [hall, List.filter_cons_of_pos hp, List.flatMap_cons]
    · have hnone : (f a).filter q = [] :=
        List.filter_eq_nil_iff.mpr fun b hb => by rwa [h a List.mem_cons_self b hb]
      rw [hnone, List.filter_cons_of_neg hp, List.nil_append]

omit [BEq α] [LawfulBEq α] in
/-- An element is selected alone by what tells it from all others. -/
theorem filter_eq_singleton {β : Type} [DecidableEq β] {f : α → β} {l : List α}
    (h : (l.map f).Nodup) {a : α} (ha : a ∈ l) : l.filter (f · = f a) = [a] := by
  induction l with
  | nil => exact absurd ha List.not_mem_nil
  | cons b l ih =>
    obtain ⟨hb, hl⟩ := List.nodup_cons.mp h
    by_cases hba : f b = f a
    · have hnone : l.filter (f · = f a) = [] := by
        refine List.filter_eq_nil_iff.mpr fun c hc hca => hb ?_
        rw [hba, ← of_decide_eq_true hca]
        exact List.mem_map_of_mem hc
      rcases List.mem_cons.mp ha with rfl | ha
      · rw [List.filter_cons_of_pos (by simp), hnone]
      · exact absurd (hba ▸ List.mem_map_of_mem ha) hb
    · rcases List.mem_cons.mp ha with rfl | ha
      · exact absurd rfl hba
      · rw [List.filter_cons_of_neg (by simpa using hba), ih hl ha]

omit [BEq α] [LawfulBEq α] in
/-- What is selected alone is in the list. -/
theorem mem_of_filter_eq_singleton {p : α → Bool} {l : List α} {a : α} (h : l.filter p = [a]) :
    a ∈ l := by
  have ha : a ∈ l.filter p := h ▸ List.mem_singleton_self a
  exact (List.mem_filter.mp ha).1

omit [BEq α] [LawfulBEq α] in
/-- A list of elements with different keys has at most one element of a key. -/
theorem eq_nil_or_singleton_of_nodup {κ : Type} {f : α → κ} {l : List α} {k : κ}
    (hnodup : (l.map f).Nodup) (h : ∀ a ∈ l, f a = k) : l = [] ∨ ∃ a, l = [a] ∧ f a = k := by
  cases l with
  | nil => exact .inl rfl
  | cons a rest =>
    cases rest with
    | nil => exact .inr ⟨a, rfl, h a List.mem_cons_self⟩
    | cons b rest =>
      have hab : f a = f b := (h a (by simp)).trans (h b (by simp)).symm
      simp [hab] at hnodup

omit [BEq α] [LawfulBEq α] in
/-- The elements of a list, taken class by class, are the elements of the list. -/
theorem perm_flatMap_filter {β : Type} [DecidableEq β] {f : α → β} {keys : List β} {l : List α}
    (hkeys : keys.Nodup) (hall : ∀ a ∈ l, f a ∈ keys) :
    (keys.flatMap fun k => l.filter (f · = k)).Perm l := by
  induction keys generalizing l with
  | nil =>
    obtain rfl : l = [] := List.eq_nil_iff_forall_not_mem.mpr fun a ha => by simpa using hall a ha
    exact .refl _
  | cons k ks ih =>
    obtain ⟨hk, hks⟩ := List.nodup_cons.mp hkeys
    have hothers : (ks.flatMap fun j => l.filter (f · = j)) =
        ks.flatMap fun j => (l.filter (f · ≠ k)).filter (f · = j) := by
      refine List.flatMap_congr fun j hj => ?_
      have hjk : j ≠ k := fun h => hk (h ▸ hj)
      rw [List.filter_filter]
      refine List.filter_congr fun a _ => ?_
      by_cases hfa : f a = j
      · simp [hfa, hjk]
      · simp [hfa]
    have hrest : ∀ a ∈ l.filter (f · ≠ k), f a ∈ ks := by
      intro a ha
      obtain ⟨hal, hak⟩ := List.mem_filter.mp ha
      exact (List.mem_cons.mp (hall a hal)).resolve_left (by simpa using hak)
    have hsplit : (l.filter (f · = k) ++ l.filter (f · ≠ k)).Perm l := by
      simpa using List.filter_append_perm (f · = k) l
    rw [List.flatMap_cons, hothers]
    exact ((ih hks hrest).append_left _).trans hsplit

/-- If no two elements have the same value, and different values belong to different other ones,
no two elements have the same other one. -/
theorem nodup_map_of_imp {β γ δ : Type} {f : β → γ} {g : β → δ} {l : List β}
    (h : (l.map f).Nodup) (himp : ∀ a ∈ l, ∀ b ∈ l, g a = g b → f a = f b) : (l.map g).Nodup :=
  (List.Nodup.of_map f h).map_on fun a ha b hb hab =>
    List.inj_on_of_nodup_map h ha hb (himp a ha b hb hab)

/-- What stands beside a key is found under it if no other has the key. -/
theorem lookup_of_mem {β : Type} {pairs : List (α × β)} {p : α × β}
    (hkeys : (pairs.map Prod.fst).Nodup) (hp : p ∈ pairs) : pairs.lookup p.1 = some p.2 := by
  induction pairs with
  | nil => cases hp
  | cons q pairs ih =>
    obtain ⟨hq, hkeys⟩ := List.nodup_cons.mp hkeys
    rcases List.mem_cons.mp hp with rfl | hp
    · exact List.lookup_cons_self
    · have hne : (p.1 == q.1) = false := by
        rw [beq_eq_false_iff_ne]
        exact fun heq => hq (heq ▸ List.mem_map_of_mem hp)
      rw [List.lookup_cons, hne]
      exact ih hkeys hp

omit [BEq α] [LawfulBEq α] in
/-- Two values of elements take as many different values if they tell apart the same elements. -/
theorem length_eraseDups_map_eq {β γ : Type} [BEq β] [LawfulBEq β] [BEq γ] [LawfulBEq γ] {f : α → β}
    {g : α → γ} {l : List α} (h : ∀ a ∈ l, ∀ b ∈ l, f a = f b ↔ g a = g b) :
    (l.map f).eraseDups.length = (l.map g).eraseDups.length := by
  classical
  induction l using List.reverseRecOn with
  | nil => rfl
  | append_singleton l a ih =>
    have hlast : a ∈ l ++ [a] := by simp
    have hmem : f a ∈ l.map f ↔ g a ∈ l.map g := by
      rw [List.mem_map, List.mem_map]
      exact exists_congr fun b => and_congr_right fun hb => h b (List.mem_append_left _ hb) a hlast
    have hrest := ih fun b hb c hc => h b (List.mem_append_left _ hb) c (List.mem_append_left _ hc)
    rw [List.map_append, List.map_append, List.map_singleton, List.map_singleton, eraseDups_concat,
      eraseDups_concat]
    by_cases ha : f a ∈ l.map f
    · rw [if_pos ha, if_pos (hmem.mp ha), hrest]
    · rw [if_neg ha, if_neg (mt hmem.mpr ha), List.length_append, List.length_append, hrest,
        List.length_singleton, List.length_singleton]

end AppBundle
