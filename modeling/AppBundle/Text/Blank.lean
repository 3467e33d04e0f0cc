/-!
# Blank characters

The characters of Unicode's property `White_Space`, and the removal of blanks
from both ends of a text. The main statements are that core's blanks are among
them, and that a trimmed text has no blank at either end.
-/

namespace AppBundle.Text

/-- The characters with the Unicode property `White_Space`. -/
def isBlank (c : Char) : Bool :=
  (0x09 ≤ c.toNat && c.toNat ≤ 0x0D) || c.toNat == 0x20 || c.toNat == 0x85 ||
    c.toNat == 0xA0 || c.toNat == 0x1680 || (0x2000 ≤ c.toNat && c.toNat ≤ 0x200A) ||
    c.toNat == 0x2028 || c.toNat == 0x2029 || c.toNat == 0x202F || c.toNat == 0x205F ||
    c.toNat == 0x3000

/-- The text without the blanks at its two ends. -/
def trimChars (cs : List Char) : List Char :=
  ((cs.dropWhile isBlank).reverse.dropWhile isBlank).reverse

/-- The text without the blanks at its two ends. -/
def trim (s : String) : String := String.ofList (trimChars s.toList)

/-- The text with the letters `A` to `Z` in lower case; all other characters stay. -/
def lowercase (s : String) : String := String.ofList (s.toList.map Char.toLower)

/-- Every blank of core is a blank here. -/
theorem isBlank_of_isWhitespace {c : Char} (h : c.isWhitespace) : isBlank c := by
  simp only [Char.isWhitespace, Bool.or_eq_true, decide_eq_true_eq] at h
  rcases h with ((rfl | rfl) | rfl) | rfl <;> decide

/-- What remains after dropping blanks does not start with one. -/
theorem head?_dropWhile_isBlank {cs : List Char} {c : Char}
    (h : (cs.dropWhile isBlank).head? = some c) : isBlank c = false := by
  induction cs with
  | nil => simp at h
  | cons d cs ih =>
    by_cases hd : isBlank d
    · exact ih (by simpa [hd] using h)
    · simp only [List.dropWhile_cons, hd] at h
      cases h
      simpa using hd

/-- A trimmed text is a part at the beginning of the text without leading blanks. -/
theorem trimChars_isPrefix (cs : List Char) : trimChars cs <+: cs.dropWhile isBlank := by
  have h := (cs.dropWhile isBlank).reverse.dropWhile_suffix isBlank
  rw [← List.reverse_prefix, List.reverse_reverse] at h
  exact h

/-- A trimmed text does not begin with a blank. -/
theorem head?_trimChars {cs : List Char} {c : Char} (h : (trimChars cs).head? = some c) :
    isBlank c = false := by
  obtain ⟨rest, hrest⟩ := trimChars_isPrefix cs
  have hhead : (cs.dropWhile isBlank).head? = some c := by
    rw [← hrest, List.head?_append, h, Option.some_or]
  exact head?_dropWhile_isBlank hhead

/-- A trimmed text does not end with a blank. -/
theorem getLast?_trimChars {cs : List Char} {c : Char} (h : (trimChars cs).getLast? = some c) :
    isBlank c = false := by
  rw [trimChars, List.getLast?_reverse] at h
  exact head?_dropWhile_isBlank h

/-- A text without blanks stays as it is. -/
theorem trimChars_of_forall {cs : List Char} (h : ∀ c ∈ cs, isBlank c = false) :
    trimChars cs = cs := by
  have hdrop {ds : List Char} (hds : ∀ c ∈ ds, isBlank c = false) : ds.dropWhile isBlank = ds := by
    cases ds with
    | nil => rfl
    | cons d ds => simp [hds d List.mem_cons_self]
  rw [trimChars, hdrop h, hdrop (fun c hc => h c (List.mem_reverse.mp hc)), List.reverse_reverse]

end AppBundle.Text
