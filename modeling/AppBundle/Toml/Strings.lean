/-!
# Strings of TOML

The four forms of strings: on one line or on several, with escapes or without.
Each function reads the text after the opening quotes and gives the characters
of the string and the text after the closing quotes.
-/

namespace AppBundle.Toml

/-- The characters that may stand in strings and comments: a tab and all that is
no control character. -/
def isPlain (c : Char) : Bool := c = '\t' || (' ' ≤ c && c.toNat ≠ 127)

/-- A blank or a tab. -/
def isSpace (c : Char) : Bool := c = ' ' || c = '\t'

/-- The text after a line break, if there is one at the start. -/
def afterNewline? : List Char → Option (List Char)
  | '\n' :: cs => some cs
  | '\r' :: '\n' :: cs => some cs
  | _ => none

/-- The text after a line break, or the text itself. -/
def skipNewline (cs : List Char) : List Char := (afterNewline? cs).getD cs

/-- The value of a hexadecimal digit. -/
def hexValue? (c : Char) : Option Nat :=
  if '0' ≤ c && c ≤ '9' then some (c.toNat - '0'.toNat)
  else if 'a' ≤ c && c ≤ 'f' then some (c.toNat - 'a'.toNat + 10)
  else if 'A' ≤ c && c ≤ 'F' then some (c.toNat - 'A'.toNat + 10)
  else none

/-- The character whose code the hexadecimal digits give. -/
def codeChar? (digits : List Char) : Option Char := do
  let values ← digits.mapM hexValue?
  let code := values.foldl (fun n v => 16 * n + v) 0
  if h : code.isValidChar then some (Char.ofNatAux code h) else none

/-- The character that a backslash and one more character stand for. -/
def shortEscape? : Char → Option Char
  | 'b' => some '\x08'
  | 't' => some '\t'
  | 'n' => some '\n'
  | 'f' => some '\x0c'
  | 'r' => some '\r'
  | '"' => some '"'
  | '\\' => some '\\'
  | _ => none

/-- Characters that were read, and the text after them. -/
abbrev Piece := List Char × List Char

/-- Puts a character in front of those that were read. -/
def push (c : Char) (r : Option Piece) : Option Piece := r.map fun (cs, rest) => (c :: cs, rest)

/-- A string on one line with escapes. -/
def basicString : List Char → Option Piece
  | [] => none
  | '"' :: cs => some ([], cs)
  | '\\' :: 'u' :: a :: b :: c :: d :: cs => do push (← codeChar? [a, b, c, d]) (basicString cs)
  | '\\' :: 'U' :: a :: b :: c :: d :: e :: f :: g :: h :: cs =>
    do push (← codeChar? [a, b, c, d, e, f, g, h]) (basicString cs)
  | '\\' :: c :: cs => do push (← shortEscape? c) (basicString cs)
  | c :: cs => if isPlain c && c ≠ '\\' then push c (basicString cs) else none

/-- A string on one line without escapes. -/
def literalString : List Char → Option Piece
  | [] => none
  | '\'' :: cs => some ([], cs)
  | c :: cs => if isPlain c then push c (literalString cs) else none

/-- A string on several lines with escapes. One or two quotes belong to the string,
also before the closing three. After a backslash at the end of a line all blanks
and line breaks are skipped. -/
def multilineBasic (skipping : Bool) : List Char → Option Piece
  | [] => none
  | '\r' :: '\n' :: cs =>
    if skipping then multilineBasic true cs else push '\n' (multilineBasic false cs)
  | '\n' :: cs => if skipping then multilineBasic true cs else push '\n' (multilineBasic false cs)
  | '"' :: '"' :: '"' :: '"' :: '"' :: cs => some (['"', '"'], cs)
  | '"' :: '"' :: '"' :: '"' :: cs => some (['"'], cs)
  | '"' :: '"' :: '"' :: cs => some ([], cs)
  | '\\' :: 'u' :: a :: b :: c :: d :: cs =>
    do push (← codeChar? [a, b, c, d]) (multilineBasic false cs)
  | '\\' :: 'U' :: a :: b :: c :: d :: e :: f :: g :: h :: cs =>
    do push (← codeChar? [a, b, c, d, e, f, g, h]) (multilineBasic false cs)
  | '\\' :: c :: cs =>
    if (afterNewline? ((c :: cs).dropWhile isSpace)).isSome then multilineBasic true (c :: cs)
    else do push (← shortEscape? c) (multilineBasic false cs)
  | c :: cs =>
    if skipping && isSpace c then multilineBasic true cs
    else if isPlain c && c ≠ '\\' then push c (multilineBasic false cs)
    else none

/-- A string on several lines without escapes. One or two quotes belong to the
string, also before the closing three. -/
def multilineLiteral : List Char → Option Piece
  | [] => none
  | '\r' :: '\n' :: cs => push '\n' (multilineLiteral cs)
  | '\n' :: cs => push '\n' (multilineLiteral cs)
  | '\'' :: '\'' :: '\'' :: '\'' :: '\'' :: cs => some (['\'', '\''], cs)
  | '\'' :: '\'' :: '\'' :: '\'' :: cs => some (['\''], cs)
  | '\'' :: '\'' :: '\'' :: cs => some ([], cs)
  | c :: cs => if isPlain c then push c (multilineLiteral cs) else none

end AppBundle.Toml
