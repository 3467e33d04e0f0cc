import AppBundle.Toml.Scalar
import AppBundle.Toml.Tables

/-!
# Reading TOML

From the text of a TOML document to its value. A text is read line by line into
statements, and the statements build up the tables. The main statement is that a
text that was read is a table.
-/

namespace AppBundle.Toml

/-- Reads something at the start of a text and gives the text after it. -/
abbrev Reader (α : Type) := StateT (List Char) Option α

/-- Skips blanks and tabs. -/
def skipSpaces : Reader Unit := modify (·.dropWhile isSpace)

/-- Reads a given character. -/
def expect (c : Char) : Reader Unit := fun cs => (afterChar? c cs).map ((), ·)

/-- Reads a string after its opening quotes. -/
def stringAfter (body : List Char → Option Piece) : Reader String := fun cs =>
  (body cs).map fun (content, rest) => (String.ofList content, rest)

/-- Skips a comment, if there is one, up to the end of the line. -/
def skipComment : Reader Unit := fun cs =>
  match cs with
  | '#' :: rest => some ((), rest.dropWhile isPlain)
  | _ => some ((), cs)

/-- Reads the end of a line or of the text. -/
def endLine : Reader Unit := fun cs =>
  if cs.isEmpty then some ((), []) else (afterNewline? cs).map ((), ·)

/-- Skips blanks, line breaks and comments. -/
def skipLines : Nat → Reader Unit
  | 0 => pure ()
  | fuel + 1 => do
    skipSpaces
    skipComment
    match afterNewline? (← get) with
    | some rest =>
      set rest
      skipLines fuel
    | none => pure ()

/-- The characters of a key without quotes. -/
def isKeyChar (c : Char) : Bool := c.isAlphanum || c = '_' || c = '-'

/-- Reads one part of a key. -/
def keyPart : Reader String := fun cs =>
  match cs with
  | '"' :: rest => stringAfter basicString rest
  | '\'' :: rest => stringAfter literalString rest
  | _ =>
    match cs.takeWhile isKeyChar with
    | [] => none
    | name => some (String.ofList name, cs.dropWhile isKeyChar)

/-- Reads the further parts of a key, each after a dot. -/
def moreKeyParts : Nat → Reader (List String)
  | 0 => failure
  | fuel + 1 => do
    match ← get with
    | '.' :: rest =>
      set rest
      skipSpaces
      let part ← keyPart
      skipSpaces
      return part :: (← moreKeyParts fuel)
    | _ => return []

/-- The greatest number of parts of a key, and of lists and tables within each other. -/
def maxDepth : Nat := 79

/-- Reads a key: the parts before the last one, and the last one. -/
def key : Reader (List String × String) := do
  skipSpaces
  let first ← keyPart
  skipSpaces
  let more ← moreKeyParts ((← get).length + 1)
  let parts := first :: more
  if maxDepth < parts.length then failure
  return (parts.dropLast, parts.getLastD first)

/-- Reads a key and the equals sign after it. -/
def keyBeforeValue : Reader (List String × String) := do
  let parts ← key
  expect '='
  skipSpaces
  return parts

mutual

/-- Reads a value that has at most some lists and tables within each other. -/
def value : Nat → (depth : Nat) → Reader Document
  | 0, _ => failure
  | fuel + 1, depth => do
    match ← get with
    | '"' :: '"' :: '"' :: rest =>
      set (skipNewline rest)
      return .text (← stringAfter (multilineBasic false))
    | '"' :: rest =>
      set rest
      return .text (← stringAfter basicString)
    | '\'' :: '\'' :: '\'' :: rest =>
      set (skipNewline rest)
      return .text (← stringAfter multilineLiteral)
    | '\'' :: rest =>
      set rest
      return .text (← stringAfter literalString)
    | '[' :: rest =>
      if depth = 0 then failure
      set rest
      return .list (← items fuel (depth - 1))
    | '\x7b' :: rest =>
      if depth = 0 then failure
      set (rest.dropWhile isSpace)
      match ← get with
      | '\x7d' :: rest =>
        set rest
        return .table []
      | _ => return .table (fieldsToDocument (← fields fuel (depth - 1) []))
    | cs =>
      let (scalar, rest) := scalarSpan cs
      set rest
      match scalar? scalar with
      | some d => return d
      | none => failure

/-- Reads the items of a list up to the closing bracket. A comma may follow the
last item. -/
def items : Nat → (depth : Nat) → Reader (List Document)
  | 0, _ => failure
  | fuel + 1, depth => do
    skipLines fuel
    match ← get with
    | ']' :: rest =>
      set rest
      return []
    | _ =>
      let item ← value fuel depth
      skipLines fuel
      match ← get with
      | ',' :: rest =>
        set rest
        return item :: (← items fuel depth)
      | ']' :: rest =>
        set rest
        return [item]
      | _ => failure

/-- Reads the fields of a table on one line up to the closing brace, adding them to
those that were read before. -/
def fields : Nat → (depth : Nat) → Fields → Reader Fields
  | 0, _, _ => failure
  | fuel + 1, depth, before => do
    let (path, name) ← keyBeforeValue
    let d ← value fuel depth
    skipSpaces
    match insertValue path name d before with
    | none => failure
    | some known =>
      match ← get with
      | ',' :: rest =>
        set rest
        fields fuel depth known
      | '\x7d' :: rest =>
        set rest
        return known
      | _ => failure

end

/-- What a line says. -/
inductive Statement where
  | value (path : List String) (name : String) (d : Document)
  | table (path : List String) (name : String)
  | listedTable (path : List String) (name : String)

/-- Reads the rest of a line: a comment at most. -/
def restOfLine : Reader Unit := do
  skipSpaces
  skipComment
  endLine

/-- Reads a statement with the rest of its line. -/
def statement (fuel : Nat) : Reader Statement := do
  match ← get with
  | '[' :: '[' :: rest =>
    set rest
    let (path, name) ← key
    expect ']'
    expect ']'
    restOfLine
    return .listedTable path name
  | '[' :: rest =>
    set rest
    let (path, name) ← key
    expect ']'
    restOfLine
    return .table path name
  | _ =>
    let (path, name) ← keyBeforeValue
    let d ← value fuel maxDepth
    restOfLine
    return .value path name d

/-- Reads the statements of a text. -/
def statements : Nat → Reader (List Statement)
  | 0 => failure
  | fuel + 1 => do
    skipSpaces
    match ← get with
    | [] => return []
    | '#' :: _ =>
      restOfLine
      statements fuel
    | cs =>
      match afterNewline? cs with
      | some rest =>
        set rest
        statements fuel
      | none =>
        let s ← statement fuel
        return s :: (← statements fuel)

/-- The tables that some statements build up. The header says in which table the
values go. -/
def build (header : List String) (known : Fields) : List Statement → Option Fields
  | [] => some known
  | .value path name d :: rest => do
    build header (← inTable header (insertValue path name d) known) rest
  | .table path name :: rest => do
    build (path ++ [name]) (← declareTable path name known) rest
  | .listedTable path name :: rest => do
    build (path ++ [name]) (← appendTable path name known) rest

/-- The text without a byte order mark at the start. -/
def withoutMark : List Char → List Char
  | '\ufeff' :: cs => cs
  | cs => cs

/-- The document of a text; none if the text is no TOML. -/
def read? (s : String) : Option Document := do
  let cs := withoutMark s.toList
  let (all, _) ← statements (cs.length + 1) cs
  let known ← build [] [] all
  return .table (fieldsToDocument known)

/-- A text that was read is a table. -/
theorem exists_fields_of_read? {s : String} {d : Document} (h : read? s = some d) :
    ∃ fields, d = .table fields := by
  simp only [read?, Option.bind_eq_bind, Option.bind_eq_some_iff] at h
  obtain ⟨_, _, _, _, h⟩ := h
  exact ⟨_, (Option.some.inj h).symm⟩

end AppBundle.Toml
