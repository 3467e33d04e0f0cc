import AppBundle.Proofs.DexNumbers
import AppBundle.Proofs.FusedEntries
import Mathlib.Data.List.Pairwise

/-!
# The order of dex files

The dex files of several modules are put in an order before they get new numbers: the files of the
base module come first, and the files of each module stand by the numbers of their names, then by
their paths, then by their places in the shard. This file proves that this is an order of all dex
files of the shard, in which none is lost, and that sorting each module by itself gives it.
-/

namespace AppBundle

section Sorting

variable {α : Type} {l : List α}

/-- Elements are listed once in the order of the places where they occur first. -/
theorem pairwise_idxOf_eraseDups [BEq α] [LawfulBEq α] (l : List α) :
    l.eraseDups.Pairwise fun a b => l.idxOf a < l.idxOf b := by
  classical
  induction l using List.reverseRecOn with
  | nil => exact .nil
  | append_singleton l c ih =>
    have hold {a : α} (ha : a ∈ l.eraseDups) : (l ++ [c]).idxOf a = l.idxOf a :=
      List.idxOf_append_of_mem (List.mem_eraseDups.mp ha)
    have hkept : l.eraseDups.Pairwise fun a b => (l ++ [c]).idxOf a < (l ++ [c]).idxOf b :=
      ih.imp_of_mem fun ha hb hab => by rwa [hold ha, hold hb]
    rw [eraseDups_concat]
    by_cases hc : c ∈ l
    · rwa [if_pos hc]
    · rw [if_neg hc, List.pairwise_append]
      refine ⟨hkept, List.pairwise_singleton _ _, fun a ha b hb => ?_⟩
      obtain rfl := List.mem_singleton.mp hb
      rw [hold ha, List.idxOf_append_of_notMem hc]
      exact Nat.lt_add_right _ (List.idxOf_lt_length_of_mem (List.mem_eraseDups.mp ha))

/-- Two elements of a list stand in it one before the other. -/
theorem pair_sublist_or_pair_sublist {a b : α} (ha : a ∈ l) (hb : b ∈ l) (hne : a ≠ b) :
    [a, b].Sublist l ∨ [b, a].Sublist l := by
  have : Std.Symm fun a b : α => [a, b].Sublist l ∨ [b, a].Sublist l := ⟨fun _ _ => Or.symm⟩
  have hpairs : l.Pairwise fun a b => [a, b].Sublist l ∨ [b, a].Sublist l :=
    List.pairwise_iff_forall_sublist.mpr .inl
  exact hpairs.forall ha hb hne

/-- Sorting keeps the order of elements that may stand in either order. -/
theorem pairwise_mergeSort_stable {before : α → α → Bool} {R : α → α → Prop}
    (htrans : ∀ a b c, before a b → before b c → before a c)
    (htotal : ∀ a b, (before a b || before b a) = true) (hirrefl : ∀ a, ¬ R a a)
    (hl : l.Pairwise R) :
    (l.mergeSort before).Pairwise fun a b => before a b ∧ (before b a → R a b) := by
  classical
  have hnodup : l.Nodup := by
    refine List.Pairwise.imp (fun {a b} hab (heq : a = b) => hirrefl a ?_) hl
    rwa [← heq] at hab
  have hsorted := (l.mergeSort_perm before).nodup_iff.mpr hnodup
  have hplaces := pairwise_idxOf_eraseDups (l.mergeSort before)
  rw [eraseDups_of_nodup hsorted, List.pairwise_iff_forall_sublist] at hplaces
  rw [List.pairwise_iff_forall_sublist]
  intro a b hab
  have hbefore : before a b := List.pairwise_iff_forall_sublist.mp
    (List.pairwise_mergeSort htrans htotal l) hab
  refine ⟨hbefore, fun hback => ?_⟩
  have ha : a ∈ l := List.mem_mergeSort.mp (hab.subset List.mem_cons_self)
  have hb : b ∈ l := List.mem_mergeSort.mp (hab.subset (by simp))
  have hlt := hplaces hab
  have hne : a ≠ b := by
    rintro rfl
    exact Nat.lt_irrefl _ hlt
  rcases pair_sublist_or_pair_sublist ha hb hne with hkept | hswapped
  · exact List.pairwise_iff_forall_sublist.mp hl hkept
  · have hba := List.pair_sublist_mergeSort htrans htotal hback hswapped
    exact absurd hlt (Nat.lt_asymm (hplaces hba))

end Sorting

variable {shard : Shard}

/-- A dex file of a shard. -/
structure PlacedDex where
  /-- The module that has the file. -/
  moduleName : String
  /-- The file. -/
  entry : Entry
  /-- The number of dex files before it in the shard. -/
  place : Nat

/-- The dex files of a shard with their modules, split by split. -/
def dexWithModules (shard : Shard) : List (String × Entry) :=
  shard.flatMap fun s => (s.entries.filter (·.category = .dex)).map fun e => (s.moduleName, e)

/-- The dex files of a shard with their modules and places. -/
def placedDex (shard : Shard) : List PlacedDex :=
  (dexWithModules shard).zipIdx.map fun x => ⟨x.1.1, x.1.2, x.2⟩

/-- The rank of a module in a shard: the base module comes first, then the other modules by the
places of their first splits. -/
def moduleRank (shard : Shard) (name : String) : Nat :=
  if name = baseName then 0 else (shard.map Split.moduleName).idxOf name + 1

/-- One dex file of a shard comes before another one: it belongs to an earlier module, or in one
module it has a lesser number, or for one number a lesser path, or for one path an earlier
place. -/
inductive DexPrecedes (shard : Shard) (a b : PlacedDex) : Prop
  | module (h : moduleRank shard a.moduleName < moduleRank shard b.moduleName)
  | number {i j : Nat} (hmodule : a.moduleName = b.moduleName) (hi : IsDexNumber a.entry.path i)
      (hj : IsDexNumber b.entry.path j) (h : i < j)
  | path {i : Nat} (hmodule : a.moduleName = b.moduleName) (ha : IsDexNumber a.entry.path i)
      (hb : IsDexNumber b.entry.path i) (h : compare a.entry.path b.entry.path = .lt)
  | place (hmodule : a.moduleName = b.moduleName) (hpath : a.entry.path = b.entry.path)
      (h : a.place < b.place)

/-- Placed dex files are sorted like the files alone. -/
def PlacedDex.before (a b : PlacedDex) : Bool := dexBefore a.entry b.entry

/-- The dex files of a shard in the order in which they get new numbers. -/
def orderedDex (shard : Shard) : List PlacedDex :=
  (modulesBaseFirst shard).flatMap fun name =>
    ((placedDex shard).filter (·.moduleName = name)).mergeSort PlacedDex.before

/-- The order of the dex files in terms of the numbers that sorting compares. -/
theorem dexPrecedes_iff {a b : PlacedDex} :
    DexPrecedes shard a b ↔ moduleRank shard a.moduleName < moduleRank shard b.moduleName ∨
      a.moduleName = b.moduleName ∧ (dexNumber a.entry.path < dexNumber b.entry.path ∨
        dexNumber a.entry.path = dexNumber b.entry.path ∧
          compare a.entry.path b.entry.path = .lt ∨
        a.entry.path = b.entry.path ∧ a.place < b.place) := by
  constructor
  · intro h
    cases h with
    | module h => exact .inl h
    | number hmodule hi hj h =>
      rw [isDexNumber_iff.mp hi, isDexNumber_iff.mp hj] at h
      exact .inr ⟨hmodule, .inl h⟩
    | path hmodule ha hb h =>
      have hnumber := (isDexNumber_iff.mp ha).symm.trans (isDexNumber_iff.mp hb)
      exact .inr ⟨hmodule, .inr (.inl ⟨hnumber, h⟩)⟩
    | place hmodule hpath h => exact .inr ⟨hmodule, .inr (.inr ⟨hpath, h⟩)⟩
  · rintro (h | ⟨hmodule, h | ⟨heq, h⟩ | ⟨hpath, h⟩⟩)
    · exact .module h
    · exact .number hmodule (isDexNumber_dexNumber _) (isDexNumber_dexNumber _) h
    · exact .path hmodule (isDexNumber_dexNumber _) (isDexNumber_iff.mpr heq) h
    · exact .place hmodule hpath h

/-- No two dex files come before each other. -/
theorem DexPrecedes.asymm {a b : PlacedDex} (hab : DexPrecedes shard a b) :
    ¬ DexPrecedes shard b a := by
  have hirrefl (path : String) : compare path path ≠ .lt := by
    rw [Std.ReflOrd.compare_self]
    decide
  intro hba
  rw [dexPrecedes_iff] at hab hba
  rcases hab with hab | ⟨hmodule, hab⟩
  · rcases hba with hba | ⟨hmodule, _⟩
    · exact Nat.lt_asymm hab hba
    · rw [hmodule] at hab
      exact Nat.lt_irrefl _ hab
  · rw [hmodule] at hba
    replace hba := (hba.resolve_left (Nat.lt_irrefl _)).2
    rcases hab with hab | ⟨hnumber, hab⟩ | ⟨hpath, hab⟩
    · rcases hba with hba | ⟨hnumber, _⟩ | ⟨hpath, _⟩
      · exact Nat.lt_asymm hab hba
      · exact Nat.ne_of_gt hab hnumber
      · rw [hpath] at hab
        exact Nat.lt_irrefl _ hab
    · rcases hba with hba | ⟨_, hba⟩ | ⟨hpath, _⟩
      · exact Nat.ne_of_gt hba hnumber
      · have hswap : compare a.entry.path b.entry.path =
            (compare b.entry.path a.entry.path).swap := Std.OrientedCmp.eq_swap
        rw [hswap, hba] at hab
        cases hab
      · rw [hpath] at hab
        exact hirrefl _ hab
    · rw [hpath] at hba
      rcases hba with hba | ⟨_, hba⟩ | ⟨_, hba⟩
      · exact Nat.lt_irrefl _ hba
      · exact hirrefl _ hba
      · exact Nat.lt_asymm hab hba

/-- Without their places the files are the dex files with their modules. -/
theorem map_placedDex (shard : Shard) :
    (placedDex shard).map (fun a => (a.moduleName, a.entry)) = dexWithModules shard := by
  rw [placedDex, List.map_map]
  exact List.zipIdx_map_fst 0 (dexWithModules shard)

/-- The places increase. -/
theorem pairwise_place_placedDex (shard : Shard) :
    (placedDex shard).Pairwise fun a b => a.place < b.place := by
  have hplaces : (placedDex shard).map PlacedDex.place =
      List.range' 0 (dexWithModules shard).length := by
    rw [placedDex, List.map_map]
    exact List.zipIdx_map_snd 0 (dexWithModules shard)
  rw [← List.pairwise_map (f := PlacedDex.place), hplaces]
  exact List.pairwise_lt_range'

/-- The files are the dex files of the splits. -/
theorem entry_placedDex (shard : Shard) :
    (placedDex shard).map PlacedDex.entry =
      (shard.flatMap Split.entries).filter (·.category = .dex) := by
  have hentries : (placedDex shard).map PlacedDex.entry =
      ((placedDex shard).map fun a => (a.moduleName, a.entry)).map Prod.snd := by
    rw [List.map_map]
    rfl
  rw [hentries, map_placedDex, dexWithModules, List.map_flatMap, List.filter_flatMap]
  simp only [List.map_map, Function.comp_def, List.map_id']

/-- The files of one module are its dex files. -/
theorem entry_filter_placedDex (shard : Shard) (name : String) :
    ((placedDex shard).filter (·.moduleName = name)).map PlacedDex.entry =
      moduleDex shard name := by
  have hfilter : ((placedDex shard).filter (·.moduleName = name)).map PlacedDex.entry =
      (((placedDex shard).map fun a => (a.moduleName, a.entry)).filter (·.1 = name)).map
        Prod.snd := by
    rw [List.filter_map, List.map_map]
    rfl
  have hsplits : (dexWithModules shard).filter (·.1 = name) =
      (shard.filter (·.moduleName = name)).flatMap fun s =>
        (s.entries.filter (·.category = .dex)).map fun e => (s.moduleName, e) := by
    refine filter_flatMap_eq fun s _ x hx => ?_
    obtain ⟨e, _, rfl⟩ := List.mem_map.mp hx
    rfl
  rw [hfilter, map_placedDex, hsplits, List.map_flatMap, moduleDex]
  simp only [List.map_map, Function.comp_def, List.map_id']

/-- Every file belongs to a module of the shard. -/
theorem moduleName_mem_of_mem_placedDex {a : PlacedDex} (h : a ∈ placedDex shard) :
    a.moduleName ∈ modulesBaseFirst shard := by
  have hmem : (a.moduleName, a.entry) ∈ dexWithModules shard := by
    rw [← map_placedDex]
    exact List.mem_map_of_mem h
  obtain ⟨s, hs, hmem⟩ := List.mem_flatMap.mp hmem
  obtain ⟨e, _, heq⟩ := List.mem_map.mp hmem
  rw [(modulesBaseFirst_perm shard).mem_iff, shardModules, List.mem_eraseDups,
    ← (Prod.mk.inj heq).1]
  exact List.mem_map_of_mem hs

/-- The modules are taken by their ranks. -/
theorem pairwise_moduleRank (shard : Shard) :
    (modulesBaseFirst shard).Pairwise fun m n => moduleRank shard m < moduleRank shard n := by
  have hplaces := pairwise_idxOf_eraseDups (shard.map Split.moduleName)
  rw [← shardModules] at hplaces
  have hbase {m : String} (hm : m ∈ (shardModules shard).filter (· = baseName)) :
      m = baseName := of_decide_eq_true (List.mem_filter.mp hm).2
  have hother {m : String} (hm : m ∈ (shardModules shard).filter (· ≠ baseName)) :
      moduleRank shard m = (shard.map Split.moduleName).idxOf m + 1 :=
    if_neg (of_decide_eq_true (List.mem_filter.mp hm).2)
  rw [modulesBaseFirst, List.pairwise_append]
  refine ⟨?_, ?_, ?_⟩
  · refine (hplaces.filter _).imp_of_mem fun hm hn hlt => ?_
    rw [hbase hm, hbase hn] at hlt
    exact absurd hlt (Nat.lt_irrefl _)
  · refine (hplaces.filter _).imp_of_mem fun hm hn hlt => ?_
    rw [hother hm, hother hn]
    exact Nat.succ_lt_succ hlt
  · intro m hm n hn
    rw [hbase hm, hother hn, moduleRank, if_pos rfl]
    exact Nat.succ_pos _

/-- Dex files are compared by their numbers, then by their paths. -/
def compareDex : Entry → Entry → Ordering :=
  compareLex (compareOn fun e => dexNumber e.path) (compareOn Entry.path)

instance transCmp_compareDex : Std.TransCmp compareDex :=
  inferInstanceAs (Std.TransCmp (compareLex (compareOn _) (compareOn _)))

/-- A file may come before another one if it is not greater. -/
theorem dexBefore_eq (a b : Entry) : dexBefore a b = (compareDex a b).isLE := rfl

/-- What may come before a file that may come before another one may come before that. -/
theorem dexBefore_trans {a b c : Entry} (hab : dexBefore a b) (hbc : dexBefore b c) :
    dexBefore a c := by
  rw [dexBefore_eq] at hab hbc ⊢
  exact Std.TransCmp.isLE_trans hab hbc

/-- Of two files one may come before the other. -/
theorem dexBefore_total (a b : Entry) : (dexBefore a b || dexBefore b a) = true := by
  have hswap : compareDex b a = (compareDex a b).swap := Std.OrientedCmp.eq_swap
  rw [dexBefore_eq, dexBefore_eq, hswap]
  cases compareDex a b <;> rfl

/-- Files of one path may stand in either order. -/
theorem dexBefore_of_path_eq {a b : Entry} (h : a.path = b.path) : dexBefore a b := by
  rw [dexBefore, h, Std.ReflOrd.compare_self, Std.ReflOrd.compare_self]
  rfl

/-- A file that may come before another one has a lesser number or path, or the same path. -/
theorem cases_of_dexBefore {a b : Entry} (h : dexBefore a b) :
    dexNumber a.path < dexNumber b.path ∨
      dexNumber a.path = dexNumber b.path ∧ compare a.path b.path = .lt ∨ a.path = b.path := by
  unfold dexBefore at h
  cases hnumber : compare (dexNumber a.path) (dexNumber b.path) with
  | lt => exact .inl (Nat.compare_eq_lt.mp hnumber)
  | gt =>
    rw [hnumber] at h
    cases h
  | eq =>
    cases hpath : compare a.path b.path with
    | lt => exact .inr (.inl ⟨Nat.compare_eq_eq.mp hnumber, rfl⟩)
    | eq => exact .inr (.inr (Std.LawfulEqOrd.eq_of_compare hpath))
    | gt =>
      rw [hnumber, hpath] at h
      cases h

/-- No dex file is lost or repeated. -/
theorem orderedDex_perm (shard : Shard) : (orderedDex shard).Perm (placedDex shard) := by
  have hnodup := (modulesBaseFirst_perm shard).nodup_iff.mpr (nodup_eraseDups _)
  have hmodules := perm_flatMap_filter (f := PlacedDex.moduleName) (l := placedDex shard) hnodup
    fun a ha => moduleName_mem_of_mem_placedDex ha
  exact (List.Perm.flatMap_left _ fun name _ => List.mergeSort_perm _ _).trans hmodules

/-- The files stand in their order. -/
theorem pairwise_orderedDex (shard : Shard) :
    (orderedDex shard).Pairwise (DexPrecedes shard) := by
  rw [orderedDex, List.pairwise_flatMap]
  have hmodule {a : PlacedDex} {name : String}
      (ha : a ∈ ((placedDex shard).filter (·.moduleName = name)).mergeSort PlacedDex.before) :
      a.moduleName = name :=
    of_decide_eq_true (List.mem_filter.mp (List.mem_mergeSort.mp ha)).2
  constructor
  · intro name _
    have hplaces := (pairwise_place_placedDex shard).filter (·.moduleName = name)
    have htrans (a b c : PlacedDex) (hab : a.before b) (hbc : b.before c) : a.before c :=
      dexBefore_trans hab hbc
    have hsorted := pairwise_mergeSort_stable htrans
      (fun a b => dexBefore_total a.entry b.entry) (fun a => Nat.lt_irrefl a.place) hplaces
    refine hsorted.imp_of_mem fun {a b} ha hb hab => ?_
    have hsame : a.moduleName = b.moduleName := (hmodule ha).trans (hmodule hb).symm
    refine dexPrecedes_iff.mpr (.inr ⟨hsame, ?_⟩)
    rcases cases_of_dexBefore hab.1 with hlt | hlt | hpath
    · exact .inl hlt
    · exact .inr (.inl hlt)
    · exact .inr (.inr ⟨hpath, hab.2 (dexBefore_of_path_eq hpath.symm)⟩)
  · refine (pairwise_moduleRank shard).imp fun hlt a ha b hb => .module ?_
    rwa [hmodule ha, hmodule hb]

/-- The new numbers are given to the dex files in their order. -/
theorem entry_orderedDex (shard : Shard) :
    (orderedDex shard).map PlacedDex.entry =
      (dexByModule shard).flatMap (·.mergeSort dexBefore) := by
  have hsort (name : String) :
      (((placedDex shard).filter (·.moduleName = name)).mergeSort PlacedDex.before).map
        PlacedDex.entry = (moduleDex shard name).mergeSort dexBefore := by
    rw [List.map_mergeSort (r := PlacedDex.before) (s := dexBefore) fun _ _ _ _ => rfl,
      entry_filter_placedDex]
  have hnonempty : (fun files : List Entry => !files.isEmpty) =
      (fun files => !files.isEmpty) ∘ (·.mergeSort dexBefore) := by
    funext files
    rw [Function.comp_apply, (files.mergeSort_perm dexBefore).isEmpty_eq]
  rw [orderedDex, List.map_flatMap, dexByModule, List.flatMap_def (l := List.filter _ _),
    hnonempty, ← List.filter_map, List.flatten_filter_not_isEmpty, List.map_map,
    ← List.flatMap_def]
  exact List.flatMap_congr fun name _ => hsort name

end AppBundle
