import AppBundle.Package.Dex

/-!
# Numbers of dex files

The name of a dex file can carry a number, by which the files of a module are ordered. This file
proves that a name carries one number at most, and that the number of a dex file is the one that
its name carries as far as it is less than a greatest number; the greatest number itself stands
for all other names.
-/

namespace AppBundle

/-- The last part of a path. -/
def lastName (path : String) : String := (Text.split '/' path).getLastD ""

/-- The number that the name of a dex file carries: `classes.dex` carries the number one, and
`classesN.dex` the number `N`, however great it is. -/
inductive CarriesNumber (path : String) : Nat → Prop
  | first (h : lastName path = "classes.dex") : CarriesNumber path 1
  | numbered {text : String} {limit n : Nat} (h : lastName path = "classes" ++ text ++ ".dex")
      (hn : Text.readNatural? limit text = some n) : CarriesNumber path n

/-- The number by which a dex file is ordered in its module: the one that its name carries, as far
as that is less than the greatest number, and else the greatest number. -/
def IsDexNumber (path : String) (n : Nat) : Prop :=
  (∃ k, CarriesNumber path k ∧ n = min k maxDexNumber) ∨
    (∀ k, ¬ CarriesNumber path k) ∧ n = maxDexNumber

/-- A text that is read as a number is read as the same number up to every limit that the number
does not exceed. -/
theorem Text.readNatural?_eq_of_some {limit limit' n : Nat} {text : String}
    (h : readNatural? limit text = some n) :
    readNatural? limit' text = if n ≤ limit' then some n else none := by
  have hdigits {digits : List Char} (h : readDigits? limit digits = some n) :
      readDigits? limit' digits = if n ≤ limit' then some n else none := by
    unfold readDigits? at h ⊢
    by_cases hempty : digits.isEmpty
    · rw [if_pos hempty] at h
      cases h
    · rw [if_neg hempty] at h ⊢
      rw [(Option.filter_eq_some_iff.mp h).1]
      by_cases hn : n ≤ limit' <;> simp [Option.filter, hn]
  unfold readNatural? at h ⊢
  split at h <;> exact hdigits h

/-- What stands between the beginning and the end of the name of a dex file. -/
theorem bind_before?_eq_some_iff {name text : String} :
    (Text.after? "classes" name).bind (Text.before? ".dex") = some text ↔
      name = "classes" ++ text ++ ".dex" := by
  simp only [Option.bind_eq_some_iff, Text.after?_eq_some_iff, Text.before?_eq_some_iff]
  constructor
  · rintro ⟨rest, rfl, rfl⟩
    rw [String.append_assoc]
  · rintro rfl
    exact ⟨text ++ ".dex", String.append_assoc .., rfl⟩

/-- A name carries one number at most. -/
theorem CarriesNumber.unique {path : String} {i j : Nat} (hi : CarriesNumber path i)
    (hj : CarriesNumber path j) : i = j := by
  have hfirst {text : String} {limit n : Nat} (h : "classes.dex" = "classes" ++ text ++ ".dex")
      (hn : Text.readNatural? limit text = some n) : 1 = n := by
    have hstem := bind_before?_eq_some_iff.mpr h
    have hempty : (Text.after? "classes" "classes.dex").bind (Text.before? ".dex") = some "" := by
      decide
    rw [hempty, Option.some.injEq] at hstem
    rw [← hstem] at hn
    cases hn
  cases hi with
  | first hi =>
    cases hj with
    | first => rfl
    | numbered hj hn => exact hfirst (hi.symm.trans hj) hn
  | numbered hi hm =>
    cases hj with
    | first hj => exact (hfirst (hj.symm.trans hi) hm).symm
    | numbered hj hn =>
      have htext := hi.symm.trans hj
      rw [String.append_left_inj, String.append_right_inj] at htext
      -- both are read from one text with a limit that neither of them exceeds
      have hleft : Text.readNatural? (max i j) _ = some i :=
        (Text.readNatural?_eq_of_some hm).trans (if_pos (Nat.le_max_left i j))
      have hright : Text.readNatural? (max i j) _ = some j :=
        (Text.readNatural?_eq_of_some hn).trans (if_pos (Nat.le_max_right i j))
      rw [htext, hright] at hleft
      exact (Option.some.inj hleft).symm

/-- The number of a dex file is the one its name carries, up to the greatest one. -/
theorem isDexNumber_dexNumber (path : String) : IsDexNumber path (dexNumber path) := by
  unfold dexNumber
  dsimp only
  rw [← lastName]
  split
  · rename_i hstem
    refine .inr ⟨fun k hk => ?_, rfl⟩
    cases hk with
    | first h =>
      rw [h] at hstem
      exact absurd hstem (by decide)
    | numbered h =>
      rw [bind_before?_eq_some_iff.mpr h] at hstem
      cases hstem
  · rename_i hstem
    exact .inl ⟨1, .first (bind_before?_eq_some_iff.mp hstem), rfl⟩
  · rename_i text hne hstem
    have hname := bind_before?_eq_some_iff.mp hstem
    cases hread : Text.readNatural? maxDexNumber text with
    | some k =>
      have hle := Text.le_of_readNatural? hread
      exact .inl ⟨k, .numbered hname hread, (Nat.min_eq_left hle).symm⟩
    | none =>
      by_cases hcarries : ∃ k, CarriesNumber path k
      · obtain ⟨k, hk⟩ := hcarries
        refine .inl ⟨k, hk, (Nat.min_eq_right ?_).symm⟩
        cases hk with
        | first h =>
          rw [h] at hstem
          exact absurd (Option.some.inj hstem).symm hne
        | numbered h hn =>
          -- the number is read with some limit, so it exceeds the one that fails
          rw [bind_before?_eq_some_iff.mpr h, Option.some.injEq] at hstem
          rw [← hstem, Text.readNatural?_eq_of_some hn] at hread
          by_cases hle : k ≤ maxDexNumber
          · rw [if_pos hle] at hread
            cases hread
          · exact Nat.le_of_not_le hle
      · exact .inr ⟨not_exists.mp hcarries, rfl⟩

/-- A path has exactly one number as the name of a dex file. -/
theorem isDexNumber_iff {path : String} {n : Nat} : IsDexNumber path n ↔ n = dexNumber path := by
  constructor
  · intro h
    rcases h with ⟨i, hi, rfl⟩ | ⟨hnone, rfl⟩
    · rcases isDexNumber_dexNumber path with ⟨j, hj, heq⟩ | ⟨hnone, _⟩
      · rw [heq, hi.unique hj]
      · exact absurd hi (hnone i)
    · rcases isDexNumber_dexNumber path with ⟨j, hj, _⟩ | ⟨_, heq⟩
      · exact absurd hj (hnone j)
      · exact heq.symm
  · rintro rfl
    exact isDexNumber_dexNumber path

end AppBundle
