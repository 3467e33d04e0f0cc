/-!
# Columns of texts

Texts filled up with blanks to a width in characters. The main statements say
how wide a text is afterwards; it is never cut.
-/

namespace AppBundle.Text

/-- Some blanks. -/
def blanks (count : Nat) : String := String.ofList (List.replicate count ' ')

/-- A text at the left end of a column. -/
def padRight (width : Nat) (s : String) : String := s ++ blanks (width - s.length)

/-- A text at the right end of a column. -/
def padLeft (width : Nat) (s : String) : String := blanks (width - s.length) ++ s

@[simp] theorem length_blanks (count : Nat) : (blanks count).length = count := by simp [blanks]

/-- A text at the left end is as wide as the column, if it fits. -/
theorem length_padRight (width : Nat) (s : String) :
    (padRight width s).length = max width s.length := by
  simp only [padRight, String.length_append, length_blanks]
  omega

/-- A text at the right end is as wide as the column, if it fits. -/
theorem length_padLeft (width : Nat) (s : String) :
    (padLeft width s).length = max width s.length := by
  simp only [padLeft, String.length_append, length_blanks]
  omega

end AppBundle.Text
