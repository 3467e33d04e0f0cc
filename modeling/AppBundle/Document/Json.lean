import AppBundle.Document
import AppBundle.Text.Number

/-!
# JSON text

The text of a document in JSON, over several lines with two blanks for each
level. The main statement is that no quoted text holds a raw control character.
-/

namespace AppBundle.Document

/-- The characters that are written with a backslash and one more character. -/
def shortEscapes : List (Char × Char) :=
  [('"', '"'), ('\\', '\\'), ('\x08', 'b'), ('\t', 't'), ('\n', 'n'), ('\x0c', 'f'), ('\r', 'r')]

/-- A character within quotes. -/
def escapeChar (c : Char) : List Char :=
  match shortEscapes.find? (·.1 = c) with
  | some (_, short) => ['\\', short]
  | none =>
    if c.toNat < 32 then
      ['\\', 'u', '0', '0', Text.hexDigit (c.toNat / 16), Text.hexDigit (c.toNat % 16)]
    else [c]

/-- A text in quotes. -/
def quote (s : String) : String :=
  String.ofList ('"' :: s.toList.flatMap escapeChar ++ ['"'])

/-- The start of a line at some level. -/
def newline (level : Nat) : String := "\n" ++ String.ofList (List.replicate (2 * level) ' ')

theorem le_toNat_shortEscapes : ∀ p ∈ shortEscapes, 32 ≤ p.2.toNat := by decide

/-- No character within quotes is a raw control character. -/
theorem le_toNat_of_mem_escapeChar {c d : Char} (h : d ∈ escapeChar c) : 32 ≤ d.toNat := by
  unfold escapeChar at h
  split at h
  · rename_i p short hfind
    rcases List.mem_cons.mp h with rfl | h
    · decide
    · obtain rfl := List.mem_singleton.mp h
      exact le_toNat_shortEscapes _ (List.mem_of_find?_eq_some hfind)
  · split at h
    · simp only [List.mem_cons, List.not_mem_nil, or_false] at h
      rcases h with rfl | rfl | rfl | rfl | rfl | rfl
      any_goals decide
      · exact Text.le_toNat_hexDigit (by omega)
      · exact Text.le_toNat_hexDigit (by omega)
    · obtain rfl := List.mem_singleton.mp h
      omega

mutual

/-- The text of a value whose parts are at the level after the given one. -/
def renderAt (level : Nat) : Document → String
  | null => "null"
  | bool b => if b then "true" else "false"
  | int n => toString n
  | other scalar => scalar
  | text s => quote s
  | list [] => "[]"
  | list (item :: items) =>
    "[" ++ newline (level + 1) ++ renderAt (level + 1) item ++ renderItems (level + 1) items ++
      newline level ++ "]"
  | table [] => "\x7b\x7d"
  | table ((name, value) :: fields) =>
    "\x7b" ++ newline (level + 1) ++ quote name ++ ": " ++ renderAt (level + 1) value ++
      renderFields (level + 1) fields ++ newline level ++ "\x7d"

/-- The texts of the further items of a list. -/
def renderItems (level : Nat) : List Document → String
  | [] => ""
  | item :: items => "," ++ newline level ++ renderAt level item ++ renderItems level items

/-- The texts of the further fields of a table. -/
def renderFields (level : Nat) : List (String × Document) → String
  | [] => ""
  | (name, value) :: fields =>
    "," ++ newline level ++ quote name ++ ": " ++ renderAt level value ++ renderFields level fields

end

/-- The text of a document. -/
def render (d : Document) : String := d.renderAt 0

end AppBundle.Document
