import AppBundle.Document
import AppBundle.Text.Number
import AppBundle.Toml.Strings

/-!
# Reading JSON

From a text in JSON to its document. Blanks between the parts of the text do not count,
and neither does the order of the fields of a table; of several fields of one name the
last one counts. The main statement is that a table that was read has its fields in the
order of their names.
-/

namespace AppBundle.Json

open Toml (Piece push)

/-- A character that can stand between the parts of a text. -/
def isBlank (c : Char) : Bool := c = ' ' || c = '\t' || c = '\n' || c = '\r'

/-- The text after the blanks at its beginning. -/
def skipBlanks (cs : List Char) : List Char := cs.dropWhile isBlank

/-- The text after a mark that has only blanks before it. -/
def afterMark? (mark : Char) (cs : List Char) : Option (List Char) :=
  match skipBlanks cs with
  | c :: rest => if c = mark then some rest else none
  | [] => none

/-! ## Strings -/

/-- The character that a backslash and one more character stand for. -/
def shortEscape? (c : Char) : Option Char := if c = '/' then some c else Toml.shortEscape? c

/-- The number that hexadecimal digits give. -/
def codeUnit? (digits : List Char) : Option Nat := do
  return (← digits.mapM Toml.hexValue?).foldl (fun n v => 16 * n + v) 0

/-- The character whose code the digits of two escapes give together. -/
def pairChar? (leading trailing : List Char) : Option Char := do
  let high ← codeUnit? leading
  let low ← codeUnit? trailing
  if 0xd800 ≤ high && high < 0xdc00 && 0xdc00 ≤ low && low < 0xe000 then
    some (Char.ofNat (0x10000 + 0x400 * (high - 0xd800) + (low - 0xdc00)))
  else none

/-- A string after its opening quotes. -/
def stringBody : List Char → Option Piece
  | [] => none
  | '"' :: cs => some ([], cs)
  | '\\' :: 'u' :: a :: b :: c :: d :: cs =>
    match Toml.codeChar? [a, b, c, d] with
    | some char => push char (stringBody cs)
    | none =>
      match cs with
      | '\\' :: 'u' :: e :: f :: g :: h :: cs => do
        push (← pairChar? [a, b, c, d] [e, f, g, h]) (stringBody cs)
      | _ => none
  | '\\' :: c :: cs => do push (← shortEscape? c) (stringBody cs)
  | c :: cs => if c.toNat < 32 || c = '\\' then none else push c (stringBody cs)

/-- A string that has only blanks before it. -/
def quoted? (cs : List Char) : Option (String × List Char) := do
  let (content, rest) ← stringBody (← afterMark? '"' cs)
  return (String.ofList content, rest)

/-! ## Numbers -/

/-- The characters that numbers consist of. -/
def isNumberChar (c : Char) : Bool :=
  c.isDigit || c = '-' || c = '+' || c = '.' || c = 'e' || c = 'E'

/-- A decimal number without leading zeros. -/
def natural? : List Char → Option Nat
  | [] => none
  | ['0'] => some 0
  | '0' :: _ => none
  | digits => Text.digitsValue? 0 digits

/-- A whole number. Zero has no sign. -/
def whole? : List Char → Option Int
  | '-' :: digits => ((natural? digits).filter (· ≠ 0)).map fun n => -Int.ofNat n
  | digits => (natural? digits).map Int.ofNat

/-- Some digits and nothing else. -/
def areDigits (cs : List Char) : Bool := !cs.isEmpty && cs.all Char.isDigit

/-- An exponent, or nothing. -/
def isExponent : List Char → Bool
  | [] => true
  | mark :: sign :: digits =>
    (mark = 'e' || mark = 'E') &&
      (areDigits (sign :: digits) || (sign = '+' || sign = '-') && areDigits digits)
  | [_] => false

/-- A fraction with an exponent, one of both, or nothing. -/
def isFraction : List Char → Bool
  | '.' :: cs => areDigits (cs.takeWhile Char.isDigit) && isExponent (cs.dropWhile Char.isDigit)
  | cs => isExponent cs

/-- A number of any kind. -/
def isNumber (cs : List Char) : Bool :=
  let unsigned := if cs.head? = some '-' then cs.tail else cs
  (natural? (unsigned.takeWhile Char.isDigit)).isSome &&
    isFraction (unsigned.dropWhile Char.isDigit)

/-- The document of a number. -/
def number? (cs : List Char) : Option Document :=
  match whole? cs with
  | some n => some (.int n)
  | none => if isNumber cs then some (.other (String.ofList cs)) else none

/-! ## Values -/

/-- A value that is neither a string nor made of others. -/
def scalar? : List Char → Option (Document × List Char)
  | 'n' :: 'u' :: 'l' :: 'l' :: rest => some (.null, rest)
  | 't' :: 'r' :: 'u' :: 'e' :: rest => some (.bool true, rest)
  | 'f' :: 'a' :: 'l' :: 's' :: 'e' :: rest => some (.bool false, rest)
  | cs => do return (← number? (cs.takeWhile isNumberChar), cs.dropWhile isNumberChar)

mutual

/-- Reads a value. -/
def value : Nat → List Char → Option (Document × List Char)
  | 0, _ => none
  | fuel + 1, cs =>
    match skipBlanks cs with
    | '"' :: cs => do
      let (content, rest) ← stringBody cs
      return (.text (String.ofList content), rest)
    | '[' :: cs =>
      match afterMark? ']' cs with
      | some rest => some (.list [], rest)
      | none => do
        let (ds, rest) ← items fuel cs
        return (.list ds, rest)
    | '\x7b' :: cs =>
      match afterMark? '\x7d' cs with
      | some rest => some (.table [], rest)
      | none => do
        let (all, rest) ← fields fuel cs
        return (.table (OrderedMap.ofList all).toList, rest)
    | cs => scalar? cs

/-- Reads the items of a list up to the closing bracket, of which there must be one. -/
def items : Nat → List Char → Option (List Document × List Char)
  | 0, _ => none
  | fuel + 1, cs => do
    let (d, rest) ← value fuel cs
    match skipBlanks rest with
    | ',' :: rest =>
      let (ds, rest) ← items fuel rest
      return (d :: ds, rest)
    | ']' :: rest => return ([d], rest)
    | _ => none

/-- Reads the fields of a table up to the closing brace, of which there must be one. -/
def fields : Nat → List Char → Option (List (String × Document) × List Char)
  | 0, _ => none
  | fuel + 1, cs => do
    let (name, rest) ← quoted? cs
    let (d, rest) ← value fuel (← afterMark? ':' rest)
    match skipBlanks rest with
    | ',' :: rest =>
      let (more, rest) ← fields fuel rest
      return ((name, d) :: more, rest)
    | '\x7d' :: rest => return ([(name, d)], rest)
    | _ => none

end

/-- The document of a text; none if the text is no JSON. -/
def read? (s : String) : Option Document := do
  let cs := s.toList
  -- a step either goes on in the text or enters a list or a table from its opening
  let (d, rest) ← value (2 * cs.length) cs
  if (skipBlanks rest).isEmpty then some d else none

/-- A number is no table. -/
theorem number?_ne_table {cs : List Char} {fs : List (String × Document)} :
    number? cs ≠ some (.table fs) := by
  unfold number?
  split
  · simp
  · split <;> simp

/-- Neither is another value without parts. -/
theorem scalar?_ne_table {cs rest : List Char} {fs : List (String × Document)} :
    scalar? cs ≠ some (.table fs, rest) := by
  unfold scalar?
  split
  · simp
  · simp
  · simp
  · intro h
    simp only [Option.pure_def, Option.bind_eq_bind, Option.bind_eq_some_iff, Option.some.injEq,
      Prod.mk.injEq] at h
    obtain ⟨_, hnumber, rfl, _⟩ := h
    exact number?_ne_table hnumber

/-- The fields of a table that was read are those of a map. -/
theorem names_increasing_of_value {fuel : Nat} {cs rest : List Char}
    {fs : List (String × Document)} (h : value fuel cs = some (.table fs, rest)) :
    (fs.map Prod.fst).Pairwise (compare · · = .lt) := by
  cases fuel with
  | zero => cases h
  | succ fuel =>
    rw [value] at h
    split at h
    · simp [Option.bind_eq_some_iff] at h
    · split at h <;> simp [Option.bind_eq_some_iff] at h
    · split at h
      · simp only [Option.some.injEq, Prod.mk.injEq, Document.table.injEq] at h
        simp [← h.1]
      · simp only [Option.pure_def, Option.bind_eq_bind, Option.bind_eq_some_iff,
          Option.some.injEq, Prod.mk.injEq, Document.table.injEq] at h
        obtain ⟨⟨all, _⟩, _, hfields, _⟩ := h
        exact hfields ▸ (OrderedMap.ofList all).increasing
    · exact absurd h scalar?_ne_table

/-- A table that was read has its fields in the order of their names. -/
theorem names_increasing_of_read? {s : String} {fs : List (String × Document)}
    (h : read? s = some (.table fs)) : (fs.map Prod.fst).Pairwise (compare · · = .lt) := by
  simp only [read?, Option.bind_eq_bind, Option.bind_eq_some_iff] at h
  obtain ⟨⟨d, rest⟩, hvalue, h⟩ := h
  split at h
  · cases h
    exact names_increasing_of_value hvalue
  · cases h

end AppBundle.Json
