import AppBundle.OrderedSet
import AppBundle.Text.Blank
import AppBundle.Text.Pieces
import AppBundle.ValueError

/-!
# Languages

A language is known by its code of two or three lower-case letters. Codes are
read with blanks around them and in either case. The main statements are that
reading gives a code of that shape, and that such a code reads as itself.
-/

namespace AppBundle

/-- A language, known by its code. -/
structure Language where
  /-- The code, such as `fr`. -/
  code : String
  deriving DecidableEq, Inhabited

namespace Language

instance : Ord Language := ⟨compareOn code⟩

instance : Std.TransOrd Language := inferInstanceAs (Std.TransCmp (compareOn code))

instance : Std.LawfulEqOrd Language where
  compare_self := Std.ReflOrd.compare_self (α := String)
  eq_of_compare {a b} h := by
    cases a; cases b
    exact congrArg mk (Std.LawfulEqOrd.eq_of_compare (α := String) h)

/-- A letter from `a` to `z`. -/
def isCodeLetter (c : Char) : Bool := 'a' ≤ c && c ≤ 'z'

/-- Two or three letters from `a` to `z`. -/
def isCode (s : String) : Bool :=
  (s.toList.length == 2 || s.toList.length == 3) && s.toList.all isCodeLetter

/-- Reads a code, without regard to case and to blanks around it. -/
def parse (s : String) : Except ValueError Language :=
  let code := Text.lowercase (Text.trim s)
  if isCode code then .ok ⟨code⟩ else .error (.invalidLanguage code)

/-- The language of a code; none if the text is no code. -/
def parse? (s : String) : Option Language := (parse s).toOption

/-- The language of a locale such as `en-US` or `pt_BR`, the part before the
first hyphen or underscore. -/
def ofLocale (locale : String) : Except ValueError Language :=
  parse (String.ofList (locale.toList.takeWhile fun c => c ≠ '-' && c ≠ '_'))

/-- A language that was read has a code of the right shape. -/
theorem isCode_of_parse {s : String} {l : Language} (h : parse s = .ok l) : isCode l.code := by
  unfold parse at h
  dsimp only at h
  split at h
  · rename_i hc
    rw [← Except.ok.inj h]
    exact hc
  · simp at h

/-- A letter of a code is no blank, and it is in lower case. -/
theorem isCodeLetter_spec {c : Char} (h : isCodeLetter c) :
    Text.isBlank c = false ∧ c.toLower = c := by
  simp only [isCodeLetter, Bool.and_eq_true, decide_eq_true_eq, Char.le_def] at h
  have hall : ∀ n : Fin 26, Text.isBlank (Char.ofNat (97 + n)) = false ∧
      (Char.ofNat (97 + n)).toLower = Char.ofNat (97 + n) := by decide
  have hlow : 97 ≤ c.toNat := h.1
  have hhigh : c.toNat ≤ 122 := h.2
  have hc := hall ⟨c.toNat - 97, by omega⟩
  rwa [Nat.add_sub_cancel' hlow, Char.ofNat_toNat] at hc

/-- A code reads as itself. -/
theorem parse_of_isCode {s : String} (h : isCode s) : parse s = .ok ⟨s⟩ := by
  have hletters : ∀ c ∈ s.toList, isCodeLetter c := by
    simp only [isCode, Bool.and_eq_true, List.all_eq_true] at h
    exact h.2
  have htrim : Text.trim s = s := by
    rw [Text.trim, Text.trimChars_of_forall fun c hc => (isCodeLetter_spec (hletters c hc)).1,
      String.ofList_toList]
  have hlower : Text.lowercase s = s := by
    have hmap : s.toList.map Char.toLower = s.toList := by
      conv => rhs; rw [← List.map_id s.toList]
      exact List.map_congr_left fun c hc => (isCodeLetter_spec (hletters c hc)).2
    rw [Text.lowercase, hmap, String.ofList_toList]
  simp [parse, htrim, hlower, h]

end Language

end AppBundle
