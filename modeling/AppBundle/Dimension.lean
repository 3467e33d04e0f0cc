import AppBundle.OrderedSet
import AppBundle.Text.Blank

/-!
# Dimensions of optimization

The dimensions along which the content of a module can be divided, and the
options of the division. The main statement is that the name of a dimension
reads back as that dimension.
-/

namespace AppBundle

/-- A dimension along which packages can differ. -/
inductive Dimension where
  | abi
  | screenDensity
  | language
  deriving DecidableEq, Inhabited

/-- The refusal of a text that names no dimension, with the name as it was read. -/
structure UnknownDimension where
  /-- The refused name. -/
  name : String
  deriving DecidableEq

/-- The wording of the refusal. -/
def UnknownDimension.message (e : UnknownDimension) : String :=
  "unknown optimization dimension '" ++ e.name ++
    "', expected one of: abi, screen_density, language"

namespace Dimension

/-- All dimensions in their order. -/
def all : List Dimension := [abi, screenDensity, language]

/-- The name of the dimension. -/
def name : Dimension → String
  | abi => "abi"
  | screenDensity => "screen_density"
  | language => "language"

/-- The place in the order. -/
def rank : Dimension → Nat
  | abi => 0
  | screenDensity => 1
  | language => 2

instance : Ord Dimension := ⟨compareOn rank⟩

instance : Std.TransOrd Dimension := inferInstanceAs (Std.TransCmp (compareOn rank))

theorem rank_injective {a b : Dimension} (h : a.rank = b.rank) : a = b := by
  cases a <;> cases b <;> first | rfl | cases h

instance : Std.LawfulEqOrd Dimension where
  compare_self := Std.ReflOrd.compare_self (α := Nat)
  eq_of_compare h := rank_injective (Std.LawfulEqOrd.eq_of_compare (α := Nat) h)

/-- The dimension of exactly this name. -/
def ofName? (s : String) : Option Dimension := all.find? (·.name = s)

/-- The common form of the spellings of a name: blanks at the ends removed,
lower case, underscores for hyphens. -/
def normalName (s : String) : String :=
  String.ofList ((Text.lowercase (Text.trim s)).toList.map fun c => if c = '-' then '_' else c)

/-- Reads the name of a dimension in any of its spellings; `density` stands for
`screen_density`. -/
def parse (s : String) : Except UnknownDimension Dimension :=
  let name := normalName s
  if name = "density" then .ok screenDensity
  else
    match ofName? name with
    | some d => .ok d
    | none => .error ⟨name⟩

/-- A name belongs to the dimension it reads as, and to no other. -/
theorem ofName?_eq_some_iff {s : String} {d : Dimension} : ofName? s = some d ↔ s = d.name := by
  constructor
  · intro h
    have hname := List.find?_some h
    exact (of_decide_eq_true hname).symm
  · rintro rfl
    cases d <;> decide

end Dimension

/-- The options of the division into splits. -/
structure ShardingOptions where
  /-- Whether content of different languages is divided. -/
  splitByLanguage : Bool := true
  /-- Whether native libraries of 64-bit architectures are kept. -/
  generate64Bit : Bool := true
  deriving DecidableEq, Inhabited

end AppBundle
