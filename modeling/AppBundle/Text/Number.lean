/-!
# Numbers in texts

Reading of decimal numbers up to a limit, and hexadecimal digits. The main
statement is that a number that was read is within the limit.
-/

namespace AppBundle.Text

/-- The value of a decimal digit. -/
def digitValue? (c : Char) : Option Nat :=
  if '0' ≤ c && c ≤ '9' then some (c.toNat - '0'.toNat) else none

/-- The number that a list of decimal digits stands for, after a number of
leading digits. -/
def digitsValue? (before : Nat) : List Char → Option Nat
  | [] => some before
  | c :: cs => (digitValue? c).bind fun d => digitsValue? (10 * before + d) cs

/-- Reads a list of decimal digits, of which there must be some; none if the
number is greater than the limit. -/
def readDigits? (limit : Nat) (digits : List Char) : Option Nat :=
  if digits.isEmpty then none else (digitsValue? 0 digits).filter (· ≤ limit)

/-- Reads a decimal number without sign or with a plus sign; none if it is
greater than the limit. -/
def readNatural? (limit : Nat) (s : String) : Option Nat :=
  match s.toList with
  | '+' :: digits => readDigits? limit digits
  | digits => readDigits? limit digits

/-- The hexadecimal digit of a value below sixteen. -/
def hexDigit (n : Nat) : Char :=
  if n < 10 then Char.ofNat (n + 48) else Char.ofNat (n + 87)

/-- A hexadecimal digit is no control character. -/
theorem le_toNat_hexDigit {n : Nat} (h : n < 16) : 32 ≤ (hexDigit n).toNat := by
  have hall : ∀ m : Fin 16, 32 ≤ (hexDigit m).toNat := by decide
  exact hall ⟨n, h⟩

theorem le_of_readDigits? {limit n : Nat} {digits : List Char}
    (h : readDigits? limit digits = some n) : n ≤ limit := by
  unfold readDigits? at h
  split at h
  · simp at h
  · exact of_decide_eq_true (Option.filter_eq_some_iff.mp h).2

/-- A number that was read is within the limit. -/
theorem le_of_readNatural? {limit n : Nat} {s : String} (h : readNatural? limit s = some n) :
    n ≤ limit := by
  unfold readNatural? at h
  split at h <;> exact le_of_readDigits? h

end AppBundle.Text
