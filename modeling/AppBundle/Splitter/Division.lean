import AppBundle.Split

/-!
# Division of a split by labels

Every entry of a split carries at most one label. The entries without a label
stay together, and every label that occurs gets a split of its own. The main
statements say which entries are in which part.
-/

namespace AppBundle

section Labels

variable {κ : Type} [DecidableEq κ]

/-- The entries that carry a given label, or that carry none. -/
def entriesLabelled (labelled : List (Entry × Option κ)) (label : Option κ) : List Entry :=
  (labelled.filter (·.2 = label)).map Prod.fst

/-- An entry is in the part of the label that it carries. -/
theorem mem_entriesLabelled {labelled : List (Entry × Option κ)} {label : Option κ} {e : Entry} :
    e ∈ entriesLabelled labelled label ↔ (e, label) ∈ labelled := by
  simp [entriesLabelled]

end Labels

section Occurring

variable {κ : Type} [Ord κ] [Std.TransOrd κ] [Std.LawfulEqOrd κ]

/-- The labels that occur. -/
def occurringLabels (labelled : List (Entry × Option κ)) : OrderedSet κ :=
  .ofList (labelled.filterMap Prod.snd)

/-- A label occurs if some entry carries it. -/
theorem mem_occurringLabels {labelled : List (Entry × Option κ)} {k : κ} :
    k ∈ occurringLabels labelled ↔ ∃ e, (e, some k) ∈ labelled := by
  simp [occurringLabels, List.mem_filterMap, Prod.exists]

/-- The parts of a split: first the entries without a label, then those of each
label that occurs, in the order of the labels. The targeting of a part is made
from its label and the other labels. -/
def Split.divide [DecidableEq κ] (s : Split) (labelled : List (Entry × Option κ))
    (target : κ → OrderedSet κ → Targeting) : List Split :=
  let labels := occurringLabels labelled
  s.derive (entriesLabelled labelled none) .untargeted ::
    labels.toList.map fun k =>
      s.derive (entriesLabelled labelled (some k)) (target k (labels.filter (· ≠ k)))

end Occurring

end AppBundle
