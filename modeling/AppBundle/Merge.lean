import AppBundle.ShardError
import AppBundle.Split

/-!
# Merging of splits with the same targeting

The splits of a module that serve the same targeting become one split. Splits
and entries keep the order of their first occurrence. The main statement says
what merging one more split does to the targetings.
-/

namespace AppBundle

/-- Adds entries at the end, leaving out those that are already there. Fails at
the first entry whose path is there with another content. -/
def addEntries (moduleName : String) (present : List Entry) :
    List Entry → Except Defect (List Entry)
  | [] => .ok present
  | e :: es =>
    match present.find? (·.path = e.path) with
    | none => addEntries moduleName (present ++ [e]) es
    | some p =>
      if p.content = e.content then addEntries moduleName present es
      else .error (.twoContents e.path moduleName)

/-- Merges a split into the one of the same targeting, or puts it at the end. -/
def mergeInto : List Split → Split → Except Defect (List Split)
  | [], s => do
    let entries ← addEntries s.moduleName [] s.entries
    return [{ s with entries }]
  | m :: ms, s =>
    if m.targeting = s.targeting then
      if m.moduleName = s.moduleName then do
        let entries ← addEntries m.moduleName m.entries s.entries
        return { m with entries } :: ms
      else .error (.mixedModules m.moduleName s.moduleName)
    else do return m :: (← mergeInto ms s)

/-- One split per targeting, in the order in which the targetings occur first. -/
def mergeSameTargeting (splits : List Split) : Except Defect (List Split) :=
  splits.foldlM mergeInto []

/-- Merging one split adds its targeting if it is not there yet. -/
theorem targetings_mergeInto {merged result : List Split} {s : Split}
    (h : mergeInto merged s = .ok result) :
    result.map Split.targeting =
      if s.targeting ∈ merged.map Split.targeting then merged.map Split.targeting
      else merged.map Split.targeting ++ [s.targeting] := by
  induction merged generalizing result with
  | nil =>
    cases hes : addEntries s.moduleName [] s.entries with
    | error d => simp [mergeInto, hes, bind, Except.bind] at h
    | ok es =>
      simp only [mergeInto, hes, bind, Except.bind, pure, Except.pure, Except.ok.injEq] at h
      subst h
      rfl
  | cons m ms ih =>
    by_cases ht : m.targeting = s.targeting
    · by_cases hm : m.moduleName = s.moduleName
      · cases hes : addEntries s.moduleName m.entries s.entries with
        | error d => simp [mergeInto, ht, hm, hes, bind, Except.bind] at h
        | ok es =>
          simp only [mergeInto, ht, hm, hes, if_true, bind, Except.bind, pure, Except.pure,
            Except.ok.injEq] at h
          subst h
          simp [ht]
      · simp [mergeInto, ht, hm] at h
    · cases hms : mergeInto ms s with
      | error d => simp [mergeInto, ht, hms, bind, Except.bind] at h
      | ok rest =>
        simp only [mergeInto, ht, hms, if_false, bind, Except.bind, pure, Except.pure,
          Except.ok.injEq] at h
        subst h
        have hne : ¬ s.targeting = m.targeting := fun h => ht h.symm
        by_cases hmem : s.targeting ∈ ms.map Split.targeting <;>
          simp [ih hms, hmem, hne]

end AppBundle
