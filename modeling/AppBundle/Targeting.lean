import AppBundle.Abi
import AppBundle.Density
import AppBundle.Language
import AppBundle.Text.Pieces

/-!
# Targeting

What configurations a split or a package is meant for. In each dimension a
targeting has the values that are served and the values that its siblings
serve; together they are the universe of the dimension. The main statements say
when a targeting is the untargeted one, and what is in a universe.
-/

namespace AppBundle

/-- The targeting in one dimension. -/
structure Selection (α : Type) [Ord α] where
  /-- The values that are served. -/
  values : OrderedSet α
  /-- The values that siblings serve. -/
  alternatives : OrderedSet α
  deriving DecidableEq

namespace Selection

variable {α : Type} [Ord α]

/-- No targeting in the dimension. -/
def empty : Selection α := ⟨∅, ∅⟩

instance : EmptyCollection (Selection α) := ⟨empty⟩

instance : Inhabited (Selection α) := ⟨empty⟩

/-- Whether the dimension is not targeted at all. -/
def isEmpty (s : Selection α) : Bool := s.values.isEmpty && s.alternatives.isEmpty

/-- One served value beside the values of the siblings. -/
def one (a : α) (alternatives : OrderedSet α) : Selection α := ⟨.singleton a, alternatives⟩

theorem isEmpty_iff {s : Selection α} : s.isEmpty ↔ s = ∅ := by
  obtain ⟨v, a⟩ := s
  rw [isEmpty, Bool.and_eq_true, OrderedSet.isEmpty_iff, OrderedSet.isEmpty_iff]
  constructor
  · rintro ⟨rfl, rfl⟩; rfl
  · intro h; cases h; exact ⟨rfl, rfl⟩

/-- Selections are compared by their values, then by their alternatives. -/
instance : Ord (Selection α) :=
  ⟨fun s t => (compare s.values t.values).then (compare s.alternatives t.alternatives)⟩

section Lawful

variable [Std.TransOrd α] [Std.LawfulEqOrd α]

instance : Std.TransOrd (Selection α) :=
  inferInstanceAs (Std.TransCmp (compareLex (compareOn values) (compareOn alternatives)))

instance : Std.LawfulEqOrd (Selection α) where
  compare_self := Std.ReflOrd.compare_self
  eq_of_compare {s t} h := by
    obtain ⟨hv, ha⟩ := Ordering.then_eq_eq.mp h
    cases s; cases t
    simp only [mk.injEq]
    exact ⟨Std.LawfulEqOrd.eq_of_compare hv, Std.LawfulEqOrd.eq_of_compare ha⟩

/-- The universe of the dimension: all values, served here or by siblings. -/
def choices (s : Selection α) : OrderedSet α := s.values ∪ s.alternatives

/-- A value is in the universe if it is served here or by a sibling. -/
theorem mem_choices {s : Selection α} {a : α} :
    a ∈ s.choices ↔ a ∈ s.values ∨ a ∈ s.alternatives := OrderedSet.mem_union

end Lawful

end Selection

/-- A set of architectures that one image is built for. -/
abbrev AbiSet := OrderedSet Abi

/-- The targeting in all dimensions. -/
structure Targeting where
  /-- The architectures. -/
  abi : Selection Abi := ∅
  /-- The classes of screen density. -/
  density : Selection Density := ∅
  /-- The languages. -/
  language : Selection Language := ∅
  /-- The sets of architectures of system images. -/
  multiAbi : Selection AbiSet := ∅
  deriving DecidableEq

namespace Targeting

/-- The targeting that is served on every device. -/
def untargeted : Targeting := {}

instance : Inhabited Targeting := ⟨untargeted⟩

/-- Whether nothing is targeted in any dimension. -/
def isUntargeted (t : Targeting) : Bool := t = untargeted

/-- The targeting of one architecture. -/
def forAbi (a : Abi) (alternatives : OrderedSet Abi) : Targeting :=
  { abi := .one a alternatives }

/-- The targeting of one class of screen density. -/
def forDensity (d : Density) (alternatives : OrderedSet Density) : Targeting :=
  { density := .one d alternatives }

/-- The targeting of one language. -/
def forLanguage (l : Language) : Targeting := { language := .one l ∅ }

/-- The targeting of one set of architectures. -/
def forAbiSet (s : AbiSet) (alternatives : OrderedSet AbiSet) : Targeting :=
  { multiAbi := .one s alternatives }

/-- Whether the architecture is targeted. -/
def hasAbi (t : Targeting) : Bool := !t.abi.isEmpty

/-- Whether the screen density is targeted. -/
def hasDensity (t : Targeting) : Bool := !t.density.isEmpty

/-- Whether the language is targeted. -/
def hasLanguage (t : Targeting) : Bool := !t.language.isEmpty

/-- Whether sets of architectures are targeted. -/
def hasMultiAbi (t : Targeting) : Bool := !t.multiAbi.isEmpty

/-- Targetings are compared dimension by dimension. -/
instance : Ord Targeting :=
  ⟨fun s t =>
    (compare s.abi t.abi).then <| (compare s.density t.density).then <|
      (compare s.language t.language).then (compare s.multiAbi t.multiAbi)⟩

instance : Std.TransOrd Targeting :=
  inferInstanceAs (Std.TransCmp (compareLex (compareOn abi)
    (compareLex (compareOn density) (compareLex (compareOn language) (compareOn multiAbi)))))

instance : Std.LawfulEqOrd Targeting where
  compare_self := Std.ReflOrd.compare_self
  eq_of_compare {s t} h := by
    obtain ⟨ha, h⟩ := Ordering.then_eq_eq.mp h
    obtain ⟨hd, h⟩ := Ordering.then_eq_eq.mp h
    obtain ⟨hl, hm⟩ := Ordering.then_eq_eq.mp h
    cases s; cases t
    simp only [mk.injEq]
    exact ⟨Std.LawfulEqOrd.eq_of_compare ha, Std.LawfulEqOrd.eq_of_compare hd,
      Std.LawfulEqOrd.eq_of_compare hl, Std.LawfulEqOrd.eq_of_compare hm⟩

/-- A part of the label: the name of a dimension and its values, if there are any. -/
def labelPart (name sep : String) (values : List String) : List String :=
  if values.isEmpty then [] else [name ++ "=" ++ Text.join sep values]

/-- The parts of the label, one for each dimension with values and one for each
set of architectures. -/
def labelParts (t : Targeting) : List String :=
  labelPart "abi" "+" (t.abi.values.toList.map Abi.name) ++
    labelPart "density" "+" (t.density.values.toList.map Density.name) ++
    labelPart "lang" "+" (t.language.values.toList.map Language.code) ++
    t.multiAbi.values.toList.map fun s =>
      "multi_abi=" ++ Text.join "." (s.toList.map Abi.name)

/-- The text that shows what is targeted. -/
def label (t : Targeting) : String :=
  if t.isUntargeted then "master"
  else
    match t.labelParts with
    | [] => "alternatives-only"
    | parts => Text.join "," parts

/-- A targeting is the untargeted one if no dimension is targeted. -/
theorem isUntargeted_iff {t : Targeting} :
    t.isUntargeted ↔ ¬ t.hasAbi ∧ ¬ t.hasDensity ∧ ¬ t.hasLanguage ∧ ¬ t.hasMultiAbi := by
  obtain ⟨a, d, l, m⟩ := t
  simp only [isUntargeted, hasAbi, hasDensity, hasLanguage, hasMultiAbi, decide_eq_true_eq,
    Bool.not_eq_true', Bool.not_eq_false, Selection.isEmpty_iff, untargeted, mk.injEq]

/-- Untargeted content has no dimension. -/
@[simp] theorem dimensions_untargeted :
    untargeted.hasAbi = false ∧ untargeted.hasDensity = false ∧
      untargeted.hasLanguage = false ∧ untargeted.hasMultiAbi = false := ⟨rfl, rfl, rfl, rfl⟩

/-- The targeting of an architecture has no other dimension. -/
@[simp] theorem dimensions_forAbi (a : Abi) (others : OrderedSet Abi) :
    (forAbi a others).hasAbi = true ∧ (forAbi a others).hasDensity = false ∧
      (forAbi a others).hasLanguage = false ∧ (forAbi a others).hasMultiAbi = false :=
  ⟨rfl, rfl, rfl, rfl⟩

/-- The targeting of a density has no other dimension. -/
@[simp] theorem dimensions_forDensity (d : Density) (others : OrderedSet Density) :
    (forDensity d others).hasAbi = false ∧ (forDensity d others).hasDensity = true ∧
      (forDensity d others).hasLanguage = false ∧ (forDensity d others).hasMultiAbi = false :=
  ⟨rfl, rfl, rfl, rfl⟩

/-- The targeting of a language has no other dimension. -/
@[simp] theorem dimensions_forLanguage (l : Language) :
    (forLanguage l).hasAbi = false ∧ (forLanguage l).hasDensity = false ∧
      (forLanguage l).hasLanguage = true ∧ (forLanguage l).hasMultiAbi = false :=
  ⟨rfl, rfl, rfl, rfl⟩

/-- The targeting of a set of architectures has no other dimension. -/
@[simp] theorem dimensions_forAbiSet (s : AbiSet) (others : OrderedSet AbiSet) :
    (forAbiSet s others).hasAbi = false ∧ (forAbiSet s others).hasDensity = false ∧
      (forAbiSet s others).hasLanguage = false ∧ (forAbiSet s others).hasMultiAbi = true :=
  ⟨rfl, rfl, rfl, rfl⟩

/-- The targeting of an architecture selects it. -/
@[simp] theorem abi_forAbi (a : Abi) (others : OrderedSet Abi) :
    (forAbi a others).abi = .one a others := rfl

/-- The targeting of a density selects it. -/
@[simp] theorem density_forDensity (d : Density) (others : OrderedSet Density) :
    (forDensity d others).density = .one d others := rfl

/-- The untargeted targeting is told from all others by its dimensions. -/
theorem isUntargeted_eq (t : Targeting) :
    t.isUntargeted = (!t.hasAbi && !t.hasDensity && !t.hasLanguage && !t.hasMultiAbi) := by
  rw [Bool.eq_iff_iff, isUntargeted_iff]
  simp [and_assoc]

end Targeting

end AppBundle
