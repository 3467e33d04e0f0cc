import AppBundle.Proofs.DensityMatch
import AppBundle.Proofs.ModuleParts

/-!
# The variants of resources for a density class

For each density class a module has one variant of every resource that has
variants: the variant whose density suits the class best among the densities
that the resource has in the module.
-/

namespace AppBundle

/-- The rows of some keys, of which each bears its key, hold the row of one key once. -/
theorem filter_filterMap_of_key {κ ρ : Type} [DecidableEq κ] {row : κ → Option ρ} {key : ρ → κ}
    (hrow : ∀ k r, row k = some r → key r = k) (keys : List κ) (k : κ) :
    (keys.filterMap row).filter (key · = k) = (keys.filter (· = k)).filterMap row := by
  induction keys with
  | nil => rfl
  | cons j keys ih =>
    by_cases hjk : j = k
    · rw [List.filter_cons_of_pos (by simpa using hjk)]
      cases hr : row j with
      | none => rw [List.filterMap_cons_none hr, List.filterMap_cons_none hr, ih]
      | some r =>
        have hkey : key r = k := (hrow j r hr).trans hjk
        rw [List.filterMap_cons_some hr, List.filterMap_cons_some hr,
          List.filter_cons_of_pos (by simpa using hkey), ih]
    · rw [List.filter_cons_of_neg (by simpa using hjk)]
      cases hr : row j with
      | none => rw [List.filterMap_cons_none hr, ih]
      | some r =>
        have hkey : key r ≠ k := by rwa [hrow j r hr]
        rw [List.filterMap_cons_some hr, List.filter_cons_of_neg (by simpa using hkey), ih]

namespace DensityVariant

variable {variants : List DensityVariant} {d : Density} {k : String}

/-- What a resource is regardless of its density is told by its path. -/
theorem key_eq_of_path_eq {e f : Entry} {v w : DensityVariant} (hv : ofEntry? e = some v)
    (hw : ofEntry? f = some w) (hpath : e.path = f.path) : v.key = w.key := by
  simp only [DensityVariant.ofEntry?, Option.bind_eq_bind, Option.bind_eq_some_iff] at hv hw
  obtain ⟨r, hr, dv, _, hv⟩ := hv
  obtain ⟨r', hr', dw, _, hw⟩ := hw
  rw [hpath, hr'] at hr
  obtain rfl := Option.some.inj hr
  rw [← Option.some.inj hv, ← Option.some.inj hw]

/-- A resource with variants has one for every density class: the one that suits it best. -/
theorem exists_best (d : Density) (hk : k ∈ keys variants) :
    ∃ v ∈ variants, v.key = k ∧
      Density.bestMatch d.dpi (densities variants k).toList = some v.density ∧
      best? variants d k = some v.entry := by
  obtain ⟨u, hu, huk⟩ := List.mem_map.mp (OrderedSet.mem_ofList.mp hk)
  have hdensity : u.density ∈ (densities variants k).toList :=
    OrderedSet.mem_ofList.mpr
      (List.mem_map_of_mem (List.mem_filter.mpr ⟨hu, decide_eq_true huk⟩))
  obtain ⟨best, hbest⟩ := Density.exists_bestMatch d.dpi (List.ne_nil_of_mem hdensity)
  have hmem : best ∈ (variants.filter (·.key = k)).map density :=
    OrderedSet.mem_ofList.mp (Density.mem_of_bestMatch hbest)
  obtain ⟨w, hw, hwbest⟩ := List.mem_map.mp hmem
  obtain ⟨hw, hwk⟩ := List.mem_filter.mp hw
  have hfound : w ∈ variants.filter fun v => v.key = k && v.density = best := by
    rw [List.mem_filter, hwbest]
    exact ⟨hw, by simpa using hwk⟩
  obtain ⟨v, hv⟩ : ∃ v, (variants.filter fun v => v.key = k && v.density = best).getLast? =
      some v := ⟨_, List.getLast?_eq_some_getLast (List.ne_nil_of_mem hfound)⟩
  obtain ⟨hvmem, hvbest⟩ := List.mem_filter.mp (List.mem_of_getLast? hv)
  obtain ⟨hvk, hvd⟩ : v.key = k ∧ v.density = best := by simpa using hvbest
  refine ⟨v, hvmem, hvk, by rw [hbest, hvd], ?_⟩
  rw [best?, hbest, Option.bind_eq_bind, Option.bind_some, entry?, hv, Option.map_some]

end DensityVariant

namespace AppModule

variable {m : AppModule} {d : Density} {k : String}

/-- The variant of a resource that a module has for a density class. -/
def chosenVariant (m : AppModule) (d : Density) (k : String) : Option DensityVariant :=
  (DensityVariant.best? m.variants d k).bind DensityVariant.ofEntry?

/-- A resource with variants has a variant for every density class: the one that suits it
best. -/
theorem exists_chosenVariant (d : Density) (hk : k ∈ DensityVariant.keys m.variants) :
    ∃ v ∈ m.variants, v.key = k ∧
      Density.bestMatch d.dpi (DensityVariant.densities m.variants k).toList = some v.density ∧
      m.chosenVariant d k = some v := by
  obtain ⟨v, hv, hkey, hbest, hchosen⟩ := DensityVariant.exists_best d hk
  refine ⟨v, hv, hkey, hbest, ?_⟩
  obtain ⟨e, _, hev⟩ := mem_variants.mp hv
  rw [chosenVariant, hchosen, Option.bind_some, DensityVariant.entry_of_ofEntry? hev, hev]

/-- The variant of a resource is a variant of that resource. -/
theorem key_of_chosenVariant {v : DensityVariant} (h : m.chosenVariant d k = some v) :
    v.key = k := by
  obtain ⟨e, he, hev⟩ := Option.bind_eq_some_iff.mp h
  obtain ⟨w, hw, hwe, hwk⟩ := DensityVariant.mem_of_best? he
  obtain ⟨e', _, he'⟩ := mem_variants.mp hw
  obtain rfl : e' = e := (DensityVariant.entry_of_ofEntry? he').symm.trans hwe
  rw [← hwk, Option.some.inj (hev.symm.trans he')]

/-- The entries for a density class are the variants of all resources for that class. -/
theorem filterMap_densityEntries (m : AppModule) (d : Density) :
    (m.densityEntries d).filterMap DensityVariant.ofEntry? =
      (DensityVariant.keys m.variants).toList.filterMap (m.chosenVariant d) := by
  rw [densityEntries, List.filterMap_filterMap]
  rfl

/-- Among the entries for a density class there is exactly one variant of each resource. -/
theorem filter_key_densityEntries (d : Density) (hk : k ∈ DensityVariant.keys m.variants) :
    ∃ v ∈ m.variants, v.key = k ∧
      Density.bestMatch d.dpi (DensityVariant.densities m.variants k).toList = some v.density ∧
      ((m.densityEntries d).filterMap DensityVariant.ofEntry?).filter (·.key = k) = [v] := by
  obtain ⟨v, hv, hkey, hbest, hchosen⟩ := exists_chosenVariant d hk
  refine ⟨v, hv, hkey, hbest, ?_⟩
  rw [filterMap_densityEntries,
    filter_filterMap_of_key (fun j w hw => key_of_chosenVariant hw), List.filter_eq,
    List.count_eq_one_of_mem (OrderedSet.nodup_toList _) hk, List.replicate_one,
    List.filterMap_cons_some hchosen, List.filterMap_nil]

/-- The entries for a density class have different paths. -/
theorem nodup_paths_densityEntries (m : AppModule) (d : Density) :
    ((m.densityEntries d).map Entry.path).Nodup := by
  rw [densityEntries, List.map_filterMap]
  refine (OrderedSet.nodup_toList _).filterMap fun j k path hj hk => ?_
  obtain ⟨e, he, hepath⟩ := Option.map_eq_some_iff.mp hj
  obtain ⟨f, hf, hfpath⟩ := Option.map_eq_some_iff.mp hk
  obtain ⟨v, hv, hve, hvk⟩ := DensityVariant.mem_of_best? he
  obtain ⟨w, hw, hwe, hwk⟩ := DensityVariant.mem_of_best? hf
  obtain ⟨e', _, he'⟩ := mem_variants.mp hv
  obtain ⟨f', _, hf'⟩ := mem_variants.mp hw
  obtain rfl : e' = e := (DensityVariant.entry_of_ofEntry? he').symm.trans hve
  obtain rfl : f' = f := (DensityVariant.entry_of_ofEntry? hf').symm.trans hwe
  rw [← hvk, ← hwk]
  exact DensityVariant.key_eq_of_path_eq he' hf' (hepath.trans hfpath.symm)

end AppModule

end AppBundle
