import AppBundle.OrderedSet
import AppBundle.ValueError

/-!
# Screen density buckets

The density classes of resources, from low to high, and the choice of the class
that serves a screen best. The main statements are that the dots per inch
determine the class, and that the choice is made among the candidates.
-/

namespace AppBundle

/-- A class of screen densities. -/
inductive Density where
  | ldpi
  | mdpi
  | tvdpi
  | hdpi
  | xhdpi
  | xxhdpi
  | xxxhdpi
  deriving DecidableEq, Inhabited

namespace Density

/-- All classes from the lowest to the highest. -/
def all : List Density := [ldpi, mdpi, tvdpi, hdpi, xhdpi, xxhdpi, xxxhdpi]

/-- The dots per inch a class stands for. -/
def dpi : Density → Nat
  | ldpi => 120
  | mdpi => 160
  | tvdpi => 213
  | hdpi => 240
  | xhdpi => 320
  | xxhdpi => 480
  | xxxhdpi => 640

/-- The name of the class, as it qualifies a resource directory. -/
def name : Density → String
  | ldpi => "ldpi"
  | mdpi => "mdpi"
  | tvdpi => "tvdpi"
  | hdpi => "hdpi"
  | xhdpi => "xhdpi"
  | xxhdpi => "xxhdpi"
  | xxxhdpi => "xxxhdpi"

/-- The name with a capital letter, as defect reports show it. -/
def title : Density → String
  | ldpi => "Ldpi"
  | mdpi => "Mdpi"
  | tvdpi => "Tvdpi"
  | hdpi => "Hdpi"
  | xhdpi => "Xhdpi"
  | xxhdpi => "Xxhdpi"
  | xxxhdpi => "Xxxhdpi"

/-- The class of a name. -/
def ofName? (s : String) : Option Density := all.find? (·.name = s)

/-- Reads the name of a class. -/
def parse (s : String) : Except ValueError Density :=
  match ofName? s with
  | some d => .ok d
  | none => .error (.unknownDensity s)

instance : Ord Density := ⟨compareOn dpi⟩

instance : Std.TransOrd Density := inferInstanceAs (Std.TransCmp (compareOn dpi))

/-- The dots per inch determine the class. -/
theorem dpi_injective {a b : Density} (h : a.dpi = b.dpi) : a = b := by
  revert h; cases a <;> cases b <;> decide

instance : Std.LawfulEqOrd Density where
  compare_self := Std.ReflOrd.compare_self (α := Nat)
  eq_of_compare h := dpi_injective (Std.LawfulEqOrd.eq_of_compare (α := Nat) h)

@[simp] theorem mem_all (d : Density) : d ∈ all := by cases d <;> decide

/-- The classes are listed in their order. -/
@[simp] theorem toList_ofList_all : (OrderedSet.ofList all).toList = all := by decide

theorem name_injective {a b : Density} (h : a.name = b.name) : a = b := by
  revert h; cases a <;> cases b <;> decide

/-- A name belongs to the class it reads as, and to no other. -/
theorem ofName?_eq_some_iff {s : String} {d : Density} : ofName? s = some d ↔ s = d.name := by
  constructor
  · intro h
    have hname := List.find?_some h
    exact (of_decide_eq_true hname).symm
  · rintro rfl
    cases d <;> decide

/-- The lower of two classes. -/
def lower (a b : Density) : Density := if b.dpi < a.dpi then b else a

/-- The higher of two classes. -/
def higher (a b : Density) : Density := if a.dpi < b.dpi then b else a

/-- The class with the least dots per inch in a list. -/
def lowest? : List Density → Option Density
  | [] => none
  | d :: ds => some (ds.foldl lower d)

/-- The class with the most dots per inch in a list. -/
def highest? : List Density → Option Density
  | [] => none
  | d :: ds => some (ds.foldl higher d)

/-- The candidate that serves a screen of `dpi` dots per inch best: the lowest
one that is not below the screen, else the highest one. -/
def bestMatch (dpi : Nat) (candidates : List Density) : Option Density :=
  match lowest? (candidates.filter (dpi ≤ ·.dpi)) with
  | some above => some above
  | none => highest? candidates

theorem lower_eq (a b : Density) : lower a b = a ∨ lower a b = b := by
  unfold lower; split <;> simp

theorem higher_eq (a b : Density) : higher a b = a ∨ higher a b = b := by
  unfold higher; split <;> simp

theorem foldl_lower_mem (d : Density) (ds : List Density) : ds.foldl lower d ∈ d :: ds := by
  induction ds generalizing d with
  | nil => simp
  | cons e ds ih =>
    rw [List.foldl_cons]
    rcases List.mem_cons.mp (ih (lower d e)) with h | h
    · rcases lower_eq d e with h' | h' <;> rw [h, h'] <;> simp
    · exact List.mem_cons_of_mem _ (List.mem_cons_of_mem _ h)

theorem foldl_higher_mem (d : Density) (ds : List Density) : ds.foldl higher d ∈ d :: ds := by
  induction ds generalizing d with
  | nil => simp
  | cons e ds ih =>
    rw [List.foldl_cons]
    rcases List.mem_cons.mp (ih (higher d e)) with h | h
    · rcases higher_eq d e with h' | h' <;> rw [h, h'] <;> simp
    · exact List.mem_cons_of_mem _ (List.mem_cons_of_mem _ h)

/-- The choice is one of the candidates. -/
theorem mem_of_bestMatch {dpi : Nat} {candidates : List Density} {d : Density}
    (h : bestMatch dpi candidates = some d) : d ∈ candidates := by
  unfold bestMatch at h
  split at h
  · rename_i above heq
    cases hf : candidates.filter (dpi ≤ ·.dpi) with
    | nil => simp [hf, lowest?] at heq
    | cons e es =>
      rw [hf, lowest?, Option.some.injEq] at heq
      have hmem := foldl_lower_mem e es
      rw [heq, ← hf] at hmem
      cases h
      exact (List.mem_filter.mp hmem).1
  · cases candidates with
    | nil => simp [highest?] at h
    | cons e es =>
      rw [highest?, Option.some.injEq] at h
      exact h ▸ foldl_higher_mem e es

end Density

end AppBundle
