import AppBundle.Density

/-!
# The density class that suits a screen best

The choice among some classes is the lowest one that is not below the screen,
else the highest one. The main statement says that rounding the screen to a
class first, and then choosing among some classes for that class, never gives
another result than choosing for the screen directly.
-/

namespace AppBundle.Density

variable {dpi : Nat} {candidates : List Density} {d : Density}

/-- A class is the best candidate: the lowest candidate that is not below the screen, or the
highest candidate if all are below. -/
def IsBestMatch (dpi : Nat) (candidates : List Density) (d : Density) : Prop :=
  d ∈ candidates ∧
    ((dpi ≤ d.dpi ∧ ∀ c ∈ candidates, dpi ≤ c.dpi → d.dpi ≤ c.dpi) ∨
      ∀ c ∈ candidates, c.dpi < dpi ∧ c.dpi ≤ d.dpi)

/-- There is only one best candidate. -/
theorem IsBestMatch.unique {d d' : Density} (h : IsBestMatch dpi candidates d)
    (h' : IsBestMatch dpi candidates d') : d = d' := by
  obtain ⟨hmem, h⟩ := h
  obtain ⟨hmem', h'⟩ := h'
  apply dpi_injective
  rcases h with ⟨habove, hleast⟩ | hbelow
  · rcases h' with ⟨habove', hleast'⟩ | hbelow'
    · have hle := hleast d' hmem' habove'
      have hge := hleast' d hmem habove
      omega
    · have hlt := (hbelow' d hmem).1
      omega
  · rcases h' with ⟨habove', _⟩ | hbelow'
    · have hlt := (hbelow d' hmem').1
      omega
    · have hle := (hbelow d' hmem').2
      have hge := (hbelow' d hmem).2
      omega

/-- The lower of two classes is not above them. -/
theorem dpi_lower (a b : Density) : (lower a b).dpi ≤ a.dpi ∧ (lower a b).dpi ≤ b.dpi := by
  unfold lower
  split <;> omega

/-- The higher of two classes is not below them. -/
theorem dpi_higher (a b : Density) : a.dpi ≤ (higher a b).dpi ∧ b.dpi ≤ (higher a b).dpi := by
  unfold higher
  split <;> omega

/-- The lowest class of a list is below no other one. -/
theorem foldl_lower_le (d : Density) (ds : List Density) :
    ∀ c ∈ d :: ds, (ds.foldl lower d).dpi ≤ c.dpi := by
  induction ds generalizing d with
  | nil => simp
  | cons e ds ih =>
    intro c hc
    rw [List.foldl_cons]
    have hstart := ih (lower d e) (lower d e) List.mem_cons_self
    have hlower := dpi_lower d e
    rcases List.mem_cons.mp hc with rfl | hc
    · omega
    · rcases List.mem_cons.mp hc with rfl | hc
      · omega
      · exact ih (lower d e) c (List.mem_cons_of_mem _ hc)

/-- The highest class of a list is above no other one. -/
theorem le_foldl_higher (d : Density) (ds : List Density) :
    ∀ c ∈ d :: ds, c.dpi ≤ (ds.foldl higher d).dpi := by
  induction ds generalizing d with
  | nil => simp
  | cons e ds ih =>
    intro c hc
    rw [List.foldl_cons]
    have hstart := ih (higher d e) (higher d e) List.mem_cons_self
    have hhigher := dpi_higher d e
    rcases List.mem_cons.mp hc with rfl | hc
    · omega
    · rcases List.mem_cons.mp hc with rfl | hc
      · omega
      · exact ih (higher d e) c (List.mem_cons_of_mem _ hc)

/-- The choice is the best candidate. -/
theorem isBestMatch_of_bestMatch (h : bestMatch dpi candidates = some d) :
    IsBestMatch dpi candidates d := by
  refine ⟨mem_of_bestMatch h, ?_⟩
  unfold bestMatch at h
  cases habove : candidates.filter (dpi ≤ ·.dpi) with
  | cons e es =>
    simp only [habove, lowest?, Option.some.injEq] at h
    have hmem := foldl_lower_mem e es
    rw [h, ← habove, List.mem_filter] at hmem
    refine .inl ⟨of_decide_eq_true hmem.2, fun c hc hdpi => ?_⟩
    have hleast := foldl_lower_le e es c
    rw [h, ← habove, List.mem_filter] at hleast
    exact hleast ⟨hc, decide_eq_true hdpi⟩
  | nil =>
    simp only [habove, lowest?] at h
    refine .inr fun c hc => ⟨?_, ?_⟩
    · have hnot := List.filter_eq_nil_iff.mp habove c hc
      simpa using hnot
    · cases candidates with
      | nil => simp at hc
      | cons e es =>
        rw [highest?, Option.some.injEq] at h
        rw [← h]
        exact le_foldl_higher e es c hc

/-- There is a choice if there is a candidate. -/
theorem exists_bestMatch (dpi : Nat) (h : candidates ≠ []) :
    ∃ d, bestMatch dpi candidates = some d := by
  unfold bestMatch
  cases habove : lowest? (candidates.filter (dpi ≤ ·.dpi)) with
  | some above => exact ⟨above, rfl⟩
  | none =>
    cases candidates with
    | nil => exact absurd rfl h
    | cons e es => exact ⟨_, rfl⟩

/-- What is chosen is the best candidate, and nothing else is. -/
theorem bestMatch_eq_some_iff :
    bestMatch dpi candidates = some d ↔ IsBestMatch dpi candidates d := by
  constructor
  · exact isBestMatch_of_bestMatch
  · intro h
    obtain ⟨d', hd'⟩ := exists_bestMatch dpi (List.ne_nil_of_mem h.1)
    rw [hd', (isBestMatch_of_bestMatch hd').unique h]

/-- There is no choice without candidates. -/
@[simp] theorem bestMatch_nil (dpi : Nat) : bestMatch dpi [] = none := rfl

/-- The best candidate for the class of a screen is the best candidate for the screen. -/
theorem IsBestMatch.of_rounded {bucket : Density} (hbucket : IsBestMatch dpi all bucket)
    (h : IsBestMatch bucket.dpi candidates d) : IsBestMatch dpi candidates d := by
  obtain ⟨_, hbucket⟩ := hbucket
  obtain ⟨hmem, h⟩ := h
  refine ⟨hmem, ?_⟩
  rcases hbucket with ⟨habove, hleast⟩ | hbelow
  · -- the screen is not above its class, and no class lies between them
    rcases h with ⟨hd, hbest⟩ | hall
    · refine .inl ⟨by omega, fun c hc hdpi => hbest c hc ?_⟩
      exact hleast c (mem_all c) hdpi
    · refine .inr fun c hc => ⟨?_, (hall c hc).2⟩
      have hlt := (hall c hc).1
      by_cases hdpi : c.dpi < dpi
      · exact hdpi
      · have hle := hleast c (mem_all c) (by omega)
        omega
  · -- the screen is above all classes, and its class is the highest one
    refine .inr fun c hc => ⟨(hbelow c (mem_all c)).1, ?_⟩
    rcases h with ⟨hd, _⟩ | hall
    · have hle := (hbelow c (mem_all c)).2
      omega
    · exact (hall c hc).2

/-- Rounding a screen to a class first and choosing for that class afterwards is choosing for
the screen. -/
theorem bestMatch_rounded (dpi : Nat) (candidates : List Density) :
    ((bestMatch dpi all).bind fun bucket => bestMatch bucket.dpi candidates) =
      bestMatch dpi candidates := by
  obtain ⟨bucket, hbucket⟩ := exists_bestMatch dpi (by decide : all ≠ [])
  rw [hbucket, Option.bind_some]
  by_cases hnone : candidates = []
  · rw [hnone, bestMatch_nil, bestMatch_nil]
  · obtain ⟨d, hd⟩ := exists_bestMatch bucket.dpi hnone
    have hround := (isBestMatch_of_bestMatch hbucket).of_rounded (isBestMatch_of_bestMatch hd)
    rw [hd, bestMatch_eq_some_iff.mpr hround]

end AppBundle.Density
