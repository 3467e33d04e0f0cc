import AppBundle.Document
import AppBundle.Text.Number
import AppBundle.Text.Pieces

/-!
# Dates and times of TOML

A date, a time of day, or both; with both, the distance from universal time can be
given. Each has one text in normal form, and in a document it is a table with that
text in a field of a reserved name. The main statement is that the digits of a
number are read back as that number.
-/

namespace AppBundle.Toml

/-- A day of the calendar. -/
structure Date where
  year : Nat
  month : Nat
  day : Nat
  deriving DecidableEq

/-- A time of day. A minute can have the second 60. -/
structure Time where
  hour : Nat
  minute : Nat
  second : Nat
  /-- The part of a second, in billionths. -/
  billionths : Nat
  deriving DecidableEq

/-- How far a time of day is from universal time. -/
inductive Offset where
  /-- It is universal time. -/
  | universal
  /-- Some minutes ahead of universal time, or behind it. -/
  | minutes (ahead : Int)
  deriving DecidableEq

/-- A date, a time of day, or both. -/
inductive DateTime where
  | date (d : Date)
  | time (t : Time)
  | both (d : Date) (t : Time) (offset : Option Offset)
  deriving DecidableEq

/-! ## Reading -/

/-- A number of exactly some decimal digits, and the text after it. -/
def fixed? : Nat → Nat → List Char → Option (Nat × List Char)
  | 0, value, cs => some (value, cs)
  | n + 1, value, c :: cs => do fixed? n (10 * value + (← Text.digitValue? c)) cs
  | _ + 1, _, [] => none

/-- The text after a given character. -/
def afterChar? (c : Char) : List Char → Option (List Char)
  | d :: cs => if d = c then some cs else none
  | [] => none

/-- The number of days of a month. -/
def daysOf (year month : Nat) : Nat :=
  if month = 2 then
    if year % 4 = 0 && (year % 100 ≠ 0 || year % 400 = 0) then 29 else 28
  else if month = 4 || month = 6 || month = 9 || month = 11 then 30
  else 31

/-- A date, and the text after it. -/
def date? (cs : List Char) : Option (Date × List Char) := do
  let (year, cs) ← fixed? 4 0 cs
  let (month, cs) ← fixed? 2 0 (← afterChar? '-' cs)
  let (day, cs) ← fixed? 2 0 (← afterChar? '-' cs)
  if 1 ≤ month && month ≤ 12 && 1 ≤ day && day ≤ daysOf year month then
    return ({ year, month, day }, cs)
  else none

/-- An hour and a minute, and the text after them. -/
def hourAndMinute? (cs : List Char) : Option ((Nat × Nat) × List Char) := do
  let (hour, cs) ← fixed? 2 0 cs
  let (minute, cs) ← fixed? 2 0 (← afterChar? ':' cs)
  if hour ≤ 23 && minute ≤ 59 then return ((hour, minute), cs) else none

/-- The billionths that the digits after a decimal point stand for. Digits after the
ninth one do not count. -/
def billionths? (digits : List Char) : Option Nat :=
  Text.digitsValue? 0 ((digits ++ List.replicate 9 '0').take 9)

/-- A part of a second, if there is one, and the text after it. -/
def fraction? : List Char → Option (Nat × List Char)
  | '.' :: cs =>
    match cs.takeWhile Char.isDigit with
    | [] => none
    | digits => do return (← billionths? digits, cs.dropWhile Char.isDigit)
  | cs => some (0, cs)

/-- A time of day, and the text after it. -/
def time? (cs : List Char) : Option (Time × List Char) := do
  let ((hour, minute), cs) ← hourAndMinute? cs
  let (second, cs) ← fixed? 2 0 (← afterChar? ':' cs)
  let (billionths, cs) ← fraction? cs
  if second ≤ 60 then return ({ hour, minute, second, billionths }, cs) else none

/-- The distance from universal time, if one is given. -/
def offset? : List Char → Option (Option Offset)
  | [] => some none
  | ['Z'] | ['z'] => some (some .universal)
  | sign :: cs => do
    let ((hour, minute), []) ← hourAndMinute? cs | none
    match sign with
    | '+' => return some (.minutes (60 * hour + minute))
    | '-' => return some (.minutes (-(60 * hour + minute)))
    | _ => none

/-- The date, the time of day, or both, that a text stands for. -/
def DateTime.parse? (cs : List Char) : Option DateTime :=
  match date? cs with
  | some (d, []) => some (.date d)
  | some (d, c :: cs) =>
    if c = 'T' || c = 't' || c = ' ' then do
      let (t, cs) ← time? cs
      return .both d t (← offset? cs)
    else none
  | none => do
    let (t, []) ← time? cs | none
    return .time t

/-- Whether a text is a date without a time of day. -/
def isDate (cs : List Char) : Bool := (date? cs).any (·.2.isEmpty)

/-! ## Writing -/

/-- The last decimal digits of a number. -/
def decimalDigits : (count : Nat) → Nat → List Char
  | 0, _ => []
  | count + 1, n => decimalDigits count (n / 10) ++ [Nat.digitChar (n % 10)]

/-- A number in some digits. -/
def digitsText (count n : Nat) : String := String.ofList (decimalDigits count n)

/-- The normal form of a date. -/
def Date.text (d : Date) : String :=
  Text.join "-" [digitsText 4 d.year, digitsText 2 d.month, digitsText 2 d.day]

/-- A part of a second without zeros at its end; nothing, if it is zero. -/
def fractionText (billionths : Nat) : String :=
  match (decimalDigits 9 billionths).reverse.dropWhile (· = '0') with
  | [] => ""
  | digits => String.ofList ('.' :: digits.reverse)

/-- The normal form of a time of day. -/
def Time.text (t : Time) : String :=
  Text.join ":" [digitsText 2 t.hour, digitsText 2 t.minute, digitsText 2 t.second] ++
    fractionText t.billionths

/-- The normal form of a distance from universal time. No distance counts as ahead. -/
def Offset.text : Offset → String
  | universal => "Z"
  | minutes ahead =>
    (if ahead < 0 then "-" else "+") ++
      Text.join ":" [digitsText 2 (ahead.natAbs / 60), digitsText 2 (ahead.natAbs % 60)]

/-- The normal form of a date, a time of day, or both. -/
def DateTime.text : DateTime → String
  | date d => d.text
  | time t => t.text
  | both d t offset => d.text ++ "T" ++ t.text ++ (offset.map Offset.text).getD ""

/-- The reserved name of the field with the text of a date or a time of day. -/
def dateTimeField : String := "$__toml_private_datetime"

/-- The table that a date or a time of day stands for. -/
def DateTime.toDocument (m : DateTime) : Document := .table [(dateTimeField, .text m.text)]

/-! ## Reading what was written -/

theorem digitValue?_digitChar (n : Nat) :
    Text.digitValue? (Nat.digitChar (n % 10)) = some (n % 10) := by
  have hall : ∀ m : Fin 10, Text.digitValue? (Nat.digitChar m) = some m.val := by decide
  exact hall ⟨n % 10, Nat.mod_lt n (by decide)⟩

/-- One more digit is read after those before it. -/
theorem fixed?_succ {count value before d : Nat} {cs rest : List Char} {c : Char}
    (h : fixed? count value cs = some (before, c :: rest)) (hc : Text.digitValue? c = some d) :
    fixed? (count + 1) value cs = some (10 * before + d, rest) := by
  induction count generalizing value cs with
  | zero =>
    obtain ⟨rfl, rfl⟩ := Prod.mk.inj (Option.some.inj h)
    simp [fixed?, hc]
  | succ count ih =>
    cases cs with
    | nil => simp [fixed?] at h
    | cons e cs =>
      rw [fixed?, Option.bind_eq_bind, Option.bind_eq_some_iff] at h
      obtain ⟨v, hv, h⟩ := h
      rw [fixed?, hv]
      exact ih h

/-- The digits of a number are read back as that number, if it has no more of them. -/
theorem fixed?_decimalDigits {count n : Nat} (h : n < Nat.pow 10 count) (rest : List Char) :
    fixed? count 0 (decimalDigits count n ++ rest) = some (n, rest) := by
  induction count generalizing n rest with
  | zero => simp_all [fixed?, decimalDigits]
  | succ count ih =>
    have hdiv : n / 10 < Nat.pow 10 count := by
      have hn : n < Nat.pow 10 count * 10 := h
      omega
    rw [decimalDigits, List.append_assoc, List.singleton_append,
      fixed?_succ (ih hdiv _) (digitValue?_digitChar n)]
    congr 2
    omega

end AppBundle.Toml
