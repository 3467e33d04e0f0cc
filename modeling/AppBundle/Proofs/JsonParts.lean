import AppBundle.Document.Json
import AppBundle.Document.JsonReading
import Mathlib.Data.List.Basic

/-!
# Parts of texts in JSON

Blanks, strings and numbers, the parts that the texts of documents are made of. The main statements
are that a string is read up to its closing quotes, whatever characters it holds, and that a whole
number is read up to the first character that cannot go on with it.
-/

namespace AppBundle.Json

open Document (quote escapeChar shortEscapes)
open Toml (push)

variable {cs rest : List Char} {c : Char}

/-! ## Blanks -/

/-- Only blanks stand before the rest of a text. -/
def BlanksTo (cs rest : List Char) : Prop :=
  ∃ blanks : List Char, blanks.all isBlank ∧ cs = blanks ++ rest

theorem BlanksTo.refl (cs : List Char) : BlanksTo cs cs := ⟨[], rfl, rfl⟩

theorem BlanksTo.length_le (h : BlanksTo cs rest) : rest.length ≤ cs.length := by
  obtain ⟨blanks, _, rfl⟩ := h
  simp

/-- The same is found behind blanks with or without them. -/
theorem BlanksTo.skipBlanks_eq (h : BlanksTo cs rest) : skipBlanks cs = skipBlanks rest := by
  obtain ⟨blanks, hblanks, rfl⟩ := h
  exact List.dropWhile_append_of_pos (List.all_eq_true.mp hblanks)

theorem skipBlanks_blank {b : Char} (hb : isBlank b) : skipBlanks (b :: cs) = skipBlanks cs :=
  List.dropWhile_cons_of_pos hb

/-- Skipping ends at what is no blank. -/
theorem skipBlanks_cons (hc : isBlank c = false) : skipBlanks (c :: rest) = c :: rest :=
  List.dropWhile_cons_of_neg (by simp [hc])

theorem BlanksTo.skipBlanks_cons (h : BlanksTo cs (c :: rest)) (hc : isBlank c = false) :
    skipBlanks cs = c :: rest :=
  h.skipBlanks_eq.trans (Json.skipBlanks_cons hc)

/-- What stands behind a mark that has only blanks before it. -/
theorem BlanksTo.afterMark?_eq (h : BlanksTo cs (c :: rest)) (hc : isBlank c = false) (d : Char) :
    afterMark? d cs = if c = d then some rest else none := by
  rw [afterMark?, h.skipBlanks_cons hc]

/-! ## Strings -/

/-- A character is read from its code. -/
theorem stringBody_code {a b c d char : Char} (h : Toml.codeChar? [a, b, c, d] = some char)
    (cs : List Char) :
    stringBody ('\\' :: 'u' :: a :: b :: c :: d :: cs) = push char (stringBody cs) := by
  rw [stringBody.eq_def]
  simp only [h]

/-- A character that needs no escape is read as it is. -/
theorem stringBody_plain (hquote : c ≠ '"') (hslash : c ≠ '\\') (hcontrol : ¬ c.toNat < 32)
    (cs : List Char) : stringBody (c :: cs) = push c (stringBody cs) := by
  rw [stringBody.eq_def]
  split
  · rename_i heq
    cases heq
  · rename_i heq
    exact absurd (List.cons.inj heq).1 hquote
  · rename_i heq
    exact absurd (List.cons.inj heq).1 hslash
  · rename_i heq
    exact absurd (List.cons.inj heq).1 hslash
  · rename_i heq
    obtain ⟨rfl, rfl⟩ := List.cons.inj heq
    rw [if_neg]
    simp [hcontrol, hslash]

/-- An escape is read as the character that it stands for. -/
theorem stringBody_escapeChar (c : Char) (cs : List Char) :
    stringBody (escapeChar c ++ cs) = push c (stringBody cs) := by
  unfold escapeChar
  split
  · rename_i p short hfind
    have hmem := List.mem_of_find?_eq_some hfind
    obtain rfl : p = c := by simpa using List.find?_some hfind
    simp only [shortEscapes, List.mem_cons, Prod.mk.injEq, List.not_mem_nil, or_false] at hmem
    rcases hmem with ⟨rfl, rfl⟩ | ⟨rfl, rfl⟩ | ⟨rfl, rfl⟩ | ⟨rfl, rfl⟩ | ⟨rfl, rfl⟩ | ⟨rfl, rfl⟩ |
      ⟨rfl, rfl⟩ <;> rfl
  · rename_i hfind
    split
    · rename_i hcontrol
      have hall : ∀ n : Fin 32, Toml.codeChar? ['0', '0', Text.hexDigit (n.val / 16),
          Text.hexDigit (n.val % 16)] = some (Char.ofNat n.val) := by decide
      have hcode := hall ⟨c.toNat, hcontrol⟩
      rw [Char.ofNat_toNat] at hcode
      exact stringBody_code hcode cs
    · rename_i hcontrol
      refine stringBody_plain ?_ ?_ hcontrol cs
      · rintro rfl
        exact absurd hfind (by decide)
      · rintro rfl
        exact absurd hfind (by decide)

/-- A string is read up to its closing quotes. -/
theorem stringBody_flatMap (s rest : List Char) :
    stringBody (s.flatMap escapeChar ++ '"' :: rest) = some (s, rest) := by
  induction s with
  | nil => rfl
  | cons c s ih =>
    rw [List.flatMap_cons, List.append_assoc, stringBody_escapeChar, ih]
    rfl

theorem toList_quote (s : String) (rest : List Char) :
    (quote s).toList ++ rest = '"' :: (s.toList.flatMap escapeChar ++ '"' :: rest) := by
  rw [quote, String.toList_ofList]
  simp

/-! ## Numbers -/

/-- A number is at its end where no further character of numbers follows. -/
def EndsNumber (rest : List Char) : Prop := ∀ c ∈ rest.head?, isNumberChar c = false

theorem ne_of_isNumberChar {d : Char} (hc : isNumberChar c) (hd : isNumberChar d = false) :
    c ≠ d := by
  rintro rfl
  rw [hd] at hc
  cases hc

/-- A character of numbers is no blank. -/
theorem isBlank_of_isNumberChar (hc : isNumberChar c) : isBlank c = false := by
  rw [Bool.eq_false_iff]
  intro hblank
  simp only [isBlank, Bool.or_eq_true, decide_eq_true_eq] at hblank
  rcases hblank with ((rfl | rfl) | rfl) | rfl <;> exact absurd hc (by decide)

/-- The digits of a number are read after those before them. -/
theorem digitsValue?_eq {digits : List Char} (h : ∀ c ∈ digits, c.isDigit) (before : Nat) :
    Text.digitsValue? before digits = some (Nat.ofDigitChars 10 digits before) := by
  induction digits generalizing before with
  | nil => rfl
  | cons c digits ih =>
    have hc : Text.digitValue? c = some (c.toNat - '0'.toNat) := by
      have hdigit := h c List.mem_cons_self
      rw [Char.isDigit, Bool.and_eq_true, decide_eq_true_eq, decide_eq_true_eq] at hdigit
      rw [Text.digitValue?, if_pos]
      rw [Bool.and_eq_true, decide_eq_true_eq, decide_eq_true_eq]
      exact hdigit
    rw [Text.digitsValue?, hc, Option.bind_some, ih fun d hd => h d (List.mem_cons_of_mem c hd),
      Nat.ofDigitChars_cons]

/-- Only zero begins with the digit zero. -/
theorem head?_toDigits {n : Nat} (h : (Nat.toDigits 10 n).head? = some '0') : n = 0 := by
  induction n using Nat.strongRecOn with
  | ind n ih =>
    rcases Nat.lt_or_ge n 10 with hlt | hge
    · rw [Nat.toDigits_of_lt_base hlt, List.head?_cons, Option.some.injEq] at h
      have hall : ∀ m : Fin 10, Nat.digitChar m = '0' → m = 0 := by decide
      exact congrArg Fin.val (hall ⟨n, hlt⟩ h)
    · rw [Nat.toDigits_of_base_le (by decide) hge,
        List.head?_append_of_ne_nil _ Nat.toDigits_ne_nil] at h
      have hzero := ih (n / 10) (by omega) h
      omega

/-- A number is read from its digits. -/
theorem natural?_toDigits (n : Nat) : natural? (Nat.toDigits 10 n) = some n := by
  have hdigits : ∀ c ∈ Nat.toDigits 10 n, c.isDigit := fun c hc =>
    Nat.isDigit_of_mem_toDigits (by decide) (by decide) hc
  have hvalue := digitsValue?_eq hdigits 0
  rw [Nat.ofDigitChars_ten_toDigits] at hvalue
  unfold natural?
  split
  · rename_i hnil
    exact absurd hnil Nat.toDigits_ne_nil
  · rename_i hzero
    rw [hzero] at hvalue
    exact hvalue
  · rename_i tail hne hhead
    obtain rfl := head?_toDigits (n := n) (by rw [hhead, List.head?_cons])
    exact absurd (List.cons.inj hhead).2.symm hne
  · exact hvalue

theorem toString_negSucc (n : Nat) :
    (toString (Int.negSucc n)).toList = '-' :: Nat.toDigits 10 (n + 1) := by
  have hminus : toString (Int.negSucc n) = "-" ++ (n + 1).repr := rfl
  rw [hminus, String.toList_append, Nat.toList_repr]
  rfl

/-- A whole number is read from its text. -/
theorem whole?_toString (n : Int) : whole? (toString n).toList = some n := by
  cases n with
  | ofNat n =>
    have htext : (toString (Int.ofNat n)).toList = Nat.toDigits 10 n := Nat.toList_repr
    rw [htext]
    unfold whole?
    split
    · rename_i digits hminus
      have hdigit : '-'.isDigit := by
        refine Nat.isDigit_of_mem_toDigits (b := 10) (n := n) (by decide) (by decide) ?_
        rw [hminus]
        exact List.mem_cons_self
      exact absurd hdigit (by decide)
    · rw [natural?_toDigits]
      rfl
  | negSucc n =>
    rw [toString_negSucc, whole?, natural?_toDigits]
    rfl

/-- The text of a whole number consists of characters of numbers, and there are some. -/
theorem exists_toString_eq (n : Int) :
    ∃ c cs, (toString n).toList = c :: cs ∧ ∀ d ∈ c :: cs, isNumberChar d := by
  have hnumber (m : Nat) : ∀ c ∈ Nat.toDigits 10 m, isNumberChar c := by
    intro c hc
    have hdigit := Nat.isDigit_of_mem_toDigits (by decide) (by decide) hc
    simp [isNumberChar, hdigit]
  cases n with
  | ofNat n =>
    obtain ⟨c, cs, hcs⟩ := List.exists_cons_of_ne_nil (Nat.toDigits_ne_nil (n := n) (b := 10))
    have htext : (toString (Int.ofNat n)).toList = Nat.toDigits 10 n := Nat.toList_repr
    exact ⟨c, cs, htext.trans hcs, hcs ▸ hnumber n⟩
  | negSucc n =>
    refine ⟨'-', Nat.toDigits 10 (n + 1), toString_negSucc n, ?_⟩
    exact List.forall_mem_cons.mpr ⟨by decide, hnumber (n + 1)⟩

/-- A whole number is read up to its end. -/
theorem scalar?_int (n : Int) (h : EndsNumber rest) :
    scalar? ((toString n).toList ++ rest) = some (.int n, rest) := by
  obtain ⟨c, cs, htext, hall⟩ := exists_toString_eq n
  have hc := hall c List.mem_cons_self
  have hnone : rest.takeWhile isNumberChar = [] ∧ rest.dropWhile isNumberChar = rest := by
    cases rest with
    | nil => exact ⟨rfl, rfl⟩
    | cons d rest =>
      have hd := h d rfl
      simp [hd]
  have htake : ((toString n).toList ++ rest).takeWhile isNumberChar = (toString n).toList := by
    rw [htext, List.takeWhile_append_of_pos hall, hnone.1, List.append_nil]
  have hdrop : ((toString n).toList ++ rest).dropWhile isNumberChar = rest := by
    rw [htext, List.dropWhile_append_of_pos hall, hnone.2]
  have hscalar : scalar? ((toString n).toList ++ rest) =
      (number? (((toString n).toList ++ rest).takeWhile isNumberChar)).bind fun d =>
        some (d, ((toString n).toList ++ rest).dropWhile isNumberChar) := by
    rw [htext, List.cons_append]
    unfold scalar?
    split
    · rename_i heq
      exact absurd (List.cons.inj heq).1 (ne_of_isNumberChar hc rfl)
    · rename_i heq
      exact absurd (List.cons.inj heq).1 (ne_of_isNumberChar hc rfl)
    · rename_i heq
      exact absurd (List.cons.inj heq).1 (ne_of_isNumberChar hc rfl)
    · rfl
  rw [hscalar, htake, hdrop, number?, whole?_toString]
  rfl

end AppBundle.Json
