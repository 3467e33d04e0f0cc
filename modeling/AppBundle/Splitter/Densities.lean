import AppBundle.Splitter.ResourcePath
import AppBundle.Split

/-!
# Resources by screen density

Each density class gets a split that holds, of every resource with variants for
different densities, the variant that serves the class best. The main statement
is that a chosen variant is an entry of the divided split.
-/

namespace AppBundle

/-- A resource for one density class. -/
structure DensityVariant where
  /-- What the resource is regardless of its density. -/
  key : String
  /-- The density class it is meant for. -/
  density : Density
  /-- The entry itself. -/
  entry : Entry
  deriving DecidableEq

namespace DensityVariant

/-- The variant that an entry is, if it is a resource qualified by a density. -/
def ofEntry? (e : Entry) : Option DensityVariant := do
  let path ← ResourcePath.parse? e.path
  let density ← path.density?
  return { key := path.key, density, entry := e }

/-- The keys of the variants. -/
def keys (variants : List DensityVariant) : OrderedSet String :=
  .ofList (variants.map key)

/-- The density classes for which there is a variant of the key. -/
def densities (variants : List DensityVariant) (key : String) : OrderedSet Density :=
  .ofList ((variants.filter (·.key = key)).map density)

/-- The entry of the key for a density class; the last one counts. -/
def entry? (variants : List DensityVariant) (key : String) (d : Density) : Option Entry :=
  ((variants.filter fun v => v.key = key && v.density = d).getLast?).map entry

/-- The entry of the key that serves a density class best. -/
def best? (variants : List DensityVariant) (d : Density) (key : String) : Option Entry := do
  let best ← Density.bestMatch d.dpi (densities variants key).toList
  entry? variants key best

end DensityVariant

/-- One split per density class, after the split of all that is not qualified by
a density; no split but the latter if nothing is. -/
def Split.byDensity (s : Split) : List Split :=
  let variants := s.entries.filterMap DensityVariant.ofEntry?
  let rest := s.entries.filter fun e => (DensityVariant.ofEntry? e).isNone
  s.derive rest .untargeted ::
    if variants.isEmpty then []
    else
      Density.all.map fun d =>
        s.derive ((DensityVariant.keys variants).toList.filterMap (DensityVariant.best? variants d))
          (.forDensity d ((OrderedSet.ofList Density.all).filter (· ≠ d)))

/-- A variant is made from the entry it holds. -/
theorem DensityVariant.entry_of_ofEntry? {e : Entry} {v : DensityVariant}
    (h : DensityVariant.ofEntry? e = some v) : v.entry = e := by
  simp only [DensityVariant.ofEntry?, Option.bind_eq_bind, Option.bind_eq_some_iff] at h
  obtain ⟨_, _, _, _, h⟩ := h
  cases h
  rfl

/-- A chosen variant is one of the variants. -/
theorem DensityVariant.mem_of_best? {variants : List DensityVariant} {d : Density} {key : String}
    {e : Entry} (h : DensityVariant.best? variants d key = some e) :
    ∃ v ∈ variants, v.entry = e ∧ v.key = key := by
  simp only [DensityVariant.best?, Option.bind_eq_bind, Option.bind_eq_some_iff,
    DensityVariant.entry?, Option.map_eq_some_iff] at h
  obtain ⟨best, _, v, hv, rfl⟩ := h
  have hmem := List.mem_filter.mp (List.mem_of_getLast? hv)
  simp only [Bool.and_eq_true, decide_eq_true_eq] at hmem
  exact ⟨v, hmem.1, rfl, hmem.2.1⟩

end AppBundle
