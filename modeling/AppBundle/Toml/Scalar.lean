import AppBundle.Toml.DateTime
import AppBundle.Toml.Strings

/-!
# Scalars of TOML

Numbers, truth values and dates. A scalar is first cut out of the text as a run of
the characters that such values consist of, and then recognized as a whole. The
main statement is that a number that was recognized fits into 64 bits.
-/

namespace AppBundle.Toml

/-- The value of a digit in a radix. -/
def radixValue? (radix : Nat) (c : Char) : Option Nat := (hexValue? c).filter (· < radix)

/-- The number that digits stand for. Underscores may stand between two digits;
`afterDigit` tells whether the text so far ends with a digit. -/
def digits? (radix : Nat) (afterDigit : Bool) (value : Nat) : List Char → Option Nat
  | [] => if afterDigit then some value else none
  | '_' :: cs => if afterDigit then digits? radix false value cs else none
  | c :: cs => do digits? radix true (radix * value + (← radixValue? radix c)) cs

/-- A decimal number without leading zeros. -/
def decimal? : List Char → Option Nat
  | ['0'] => some 0
  | '0' :: _ => none
  | cs => digits? 10 false 0 cs

/-- A number of 64 bits with its sign. -/
def signed? (n : Int) : Option Int :=
  if -9223372036854775808 ≤ n ∧ n ≤ 9223372036854775807 then some n else none

/-- A whole number: decimal with or without sign, or with a mark of its radix. -/
def integer? : List Char → Option Int
  | '0' :: 'x' :: cs => do signed? (← digits? 16 false 0 cs)
  | '0' :: 'o' :: cs => do signed? (← digits? 8 false 0 cs)
  | '0' :: 'b' :: cs => do signed? (← digits? 2 false 0 cs)
  | '+' :: cs => do signed? (← decimal? cs)
  | '-' :: cs => do signed? (-(← decimal? cs))
  | cs => do signed? (← decimal? cs)

/-- The text without a sign at the start. -/
def unsigned : List Char → List Char
  | '+' :: cs => cs
  | '-' :: cs => cs
  | cs => cs

/-- A number with a fraction or an exponent: a whole number times a power of ten. -/
structure Scaled where
  digits : Nat
  exponent : Int

/-- The exponent after its mark; zero, if there is none. -/
def exponent? : List Char → Option Int
  | [] => some 0
  | _ :: '-' :: cs => do return -(← digits? 10 false 0 cs)
  | _ :: cs => do return (← digits? 10 false 0 (unsigned cs))

/-- A whole number after which there is a fraction. Each of its digits makes the
exponent smaller. -/
def withFraction? (whole : Nat) : List Char → Option Scaled
  | [] => some { digits := whole, exponent := 0 }
  | '.' :: cs => do
    let count := (cs.filter Char.isDigit).length
    return { digits := whole * Nat.pow 10 count + (← digits? 10 false 0 cs), exponent := -count }
  | _ => none

/-- A number without sign that has a fraction, an exponent, or both. -/
def scaled? (cs : List Char) : Option Scaled := do
  let isWhole (c : Char) : Bool := c.isDigit || c = '_'
  let isMark (c : Char) : Bool := c = 'e' || c = 'E'
  let rest := cs.dropWhile isWhole
  if rest.isEmpty then none
  let whole ← decimal? (cs.takeWhile isWhole)
  let s ← withFraction? whole (rest.takeWhile (!isMark ·))
  return { s with exponent := s.exponent + (← exponent? (rest.dropWhile (!isMark ·))) }

/-- The least number that is rounded to infinity in 64 bits. -/
def leastInfinite : Nat := Nat.pow 2 1024 - Nat.pow 2 970

/-- Whether a number is too great for 64 bits. Powers of ten are worked out only where
the number of digits leaves it open. -/
def Scaled.isInfinite (s : Scaled) : Bool :=
  match s.exponent with
  | .ofNat e => s.digits ≠ 0 && (310 < e || leastInfinite ≤ s.digits * Nat.pow 10 e)
  | .negSucc e => 3 * e < s.digits.log2 && leastInfinite * Nat.pow 10 (e + 1) ≤ s.digits

/-- A number with a fraction or an exponent, or one that is not finite. Without a
minus sign it must not be too great. -/
def isFloat (cs : List Char) : Bool :=
  let number := unsigned cs
  number = ['i', 'n', 'f'] || number = ['n', 'a', 'n'] ||
    (scaled? number).any fun s => cs.head? = some '-' || !s.isInfinite

/-- The value of a scalar. -/
def scalar? (cs : List Char) : Option Document :=
  if cs = ['t', 'r', 'u', 'e'] then some (.bool true)
  else if cs = ['f', 'a', 'l', 's', 'e'] then some (.bool false)
  else
    match integer? cs with
    | some n => some (.int n)
    | none =>
      if isFloat cs then some (.other (String.ofList cs))
      else (DateTime.parse? cs).map DateTime.toDocument

/-- The characters that scalars consist of. -/
def isScalarChar (c : Char) : Bool :=
  c.isAlphanum || c = '_' || c = '+' || c = '-' || c = '.' || c = ':'

/-- Cuts a scalar out of the text. A date and a time of day may be apart by a
blank. -/
def scalarSpan (cs : List Char) : List Char × List Char :=
  let first := cs.takeWhile isScalarChar
  match cs.dropWhile isScalarChar with
  | ' ' :: c :: rest =>
    if c.isDigit && isDate first then
      (first ++ ' ' :: (c :: rest).takeWhile isScalarChar, (c :: rest).dropWhile isScalarChar)
    else (first, ' ' :: c :: rest)
  | rest => (first, rest)

/-- A number that was recognized fits into 64 bits. -/
theorem le_of_signed? {m n : Int} (h : signed? m = some n) :
    -9223372036854775808 ≤ n ∧ n ≤ 9223372036854775807 := by
  unfold signed? at h
  split at h
  · cases h
    assumption
  · cases h

end AppBundle.Toml
