/-!
# Texts on terminals

A terminal shows most characters of a text. Control sequences among them set apart
the text that follows, or do other things, and are not shown. The plain form of a
text is what is left without them. The main statement is that a plain text has no
control characters but tabs and ends of lines or pages.
-/

namespace AppBundle.Text

/-- The ways in which a text is set apart from others. -/
inductive Emphasis where
  | bold
  | dim
  | red
  | green
  | yellow
  | magenta
  | cyan
  deriving DecidableEq

/-- The number of a way in control sequences. -/
def Emphasis.code : Emphasis → Nat
  | bold => 1
  | dim => 2
  | red => 31
  | green => 32
  | yellow => 33
  | magenta => 35
  | cyan => 36

/-- The control sequence after which text is set apart in some way, or in none for
the number zero. -/
def styleStart (code : Nat) : String := "\x1b[" ++ toString code ++ "m"

/-- A text that is set apart. -/
def emphasize (e : Emphasis) (s : String) : String := styleStart e.code ++ s ++ styleStart 0

/-- What a terminal is in the middle of. -/
inductive Sequence where
  /-- Text that is shown. -/
  | text
  /-- A sequence that began with an escape character, without more of it. -/
  | escape
  /-- An escape sequence whose last character is still to come. -/
  | escapeEnd
  /-- A control sequence whose last character is still to come. -/
  | control
  /-- A string for a device, before its parameters. -/
  | device
  /-- A string for a device, in its parameters. -/
  | deviceParameters
  /-- A string for a device, after its parameters. -/
  | deviceEnd
  /-- A string up to its terminator. -/
  | string
  /-- A command to the system around the terminal, up to a bell. -/
  | command
  deriving DecidableEq

/-- A tab or an end of a line or page. -/
def isLayout (c : Char) : Bool := c = '\t' || c = '\n' || c = '\x0c' || c = '\r'

/-- A control character of ASCII. -/
def isControl (c : Char) : Bool := c < ' ' || c = '\x7f'

/-- A character that is shown, or that sets where others are shown. -/
def isVisible (c : Char) : Bool := !isControl c || isLayout c

namespace Sequence

/-- Whether a character is between two others. -/
def between (low high c : Char) : Bool := low ≤ c && c ≤ high

/-- Whether a character with a code beyond ASCII ends a string: one of its bytes has
the value of a string terminator. -/
def isTerminator (c : Char) : Bool := 0x9c ∈ String.utf8EncodeChar c

/-- What an escape character and one more character begin. -/
def afterEscape (c : Char) : Sequence :=
  if c = '[' then control
  else if c = ']' then command
  else if c = 'P' then device
  else if c = 'X' || c = '^' || c = '_' then string
  else if between ' ' '/' c then escapeEnd
  else if between '0' '~' c then text
  else escape

/-- What a character in a string for a device leads to, before the string itself. -/
def afterDevice (s : Sequence) (c : Char) : Sequence :=
  if between '@' '~' c then string
  else if between ' ' '/' c then deviceEnd
  else if between '0' ';' c then if s = deviceEnd then string else deviceParameters
  else if between '<' '?' c then if s = device then deviceParameters else string
  else s

/-- What a terminal is in the middle of after a character. -/
def next (s : Sequence) (c : Char) : Sequence :=
  if c = '\x1b' then escape
  else if c = '\x18' || c = '\x1a' then text
  else
    match s with
    | text => text
    | escape => afterEscape c
    | escapeEnd => if between '0' '~' c then text else escapeEnd
    | control => if between '@' '~' c then text else control
    | device | deviceParameters | deviceEnd => afterDevice s c
    | string => if isTerminator c then text else string
    | command => if c = '\x07' then text else command

/-- Whether a character is kept. Tabs and ends of lines are kept also where a
sequence goes on after them. -/
def keeps (s : Sequence) (c : Char) : Bool :=
  match s with
  | text => isVisible c
  | escape | escapeEnd | control => isLayout c
  | _ => false

/-- The characters that are kept. After one that is kept in the middle of a sequence,
all visible characters are kept up to the next one that is not; there the sequence
goes on, unless a character beyond ASCII has come between. -/
def kept (s : Sequence) (showing : Bool) : List Char → List Char
  | [] => []
  | c :: cs =>
    if (if showing then isVisible c else s.keeps c) then
      c :: kept (if c ≤ '~' then s else text) true cs
    else kept (s.next c) false cs

end Sequence

/-- The text without control sequences and other control characters. -/
def plain (s : String) : String := String.ofList (Sequence.text.kept false s.toList)

theorem isVisible_of_keeps {s : Sequence} {c : Char} (h : s.keeps c = true) :
    isVisible c = true := by
  cases s <;> simp_all [Sequence.keeps, isVisible]

/-- Every character that is kept is visible. -/
theorem isVisible_of_mem_kept {s : Sequence} {showing : Bool} {cs : List Char} {c : Char}
    (h : c ∈ s.kept showing cs) : isVisible c = true := by
  induction cs generalizing s showing with
  | nil => simp [Sequence.kept] at h
  | cons d cs ih =>
    rw [Sequence.kept] at h
    by_cases hd : (if showing then isVisible d else s.keeps d) = true
    · rw [if_pos hd] at h
      rcases List.mem_cons.mp h with rfl | h
      · cases showing with
        | true => exact hd
        | false => exact isVisible_of_keeps hd
      · exact ih h
    · rw [if_neg hd] at h
      exact ih h

/-- A plain text has no control characters but tabs and ends of lines or pages. -/
theorem isVisible_of_mem_plain {s : String} {c : Char} (h : c ∈ (plain s).toList) :
    isVisible c = true := by
  rw [plain, String.toList_ofList] at h
  exact isVisible_of_mem_kept h

/-- A text of visible characters is plain. -/
theorem plain_of_forall {s : String} (h : ∀ c ∈ s.toList, isVisible c = true) :
    plain s = s := by
  have hkept {cs : List Char} {showing : Bool} (hcs : ∀ c ∈ cs, isVisible c = true) :
      Sequence.text.kept showing cs = cs := by
    induction cs generalizing showing with
    | nil => rfl
    | cons c cs ih =>
      have hc := hcs c List.mem_cons_self
      have hrest := fun d hd => hcs d (List.mem_cons_of_mem c hd)
      cases showing <;> simp [Sequence.kept, Sequence.keeps, hc, ih hrest]
  rw [plain, hkept h, String.ofList_toList]

end AppBundle.Text
