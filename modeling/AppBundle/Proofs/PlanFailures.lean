import AppBundle.Proofs.Plan
import AppBundle.Proofs.RefusedPaths

/-!
# When there is no plan

A bundle whose modules are consistent in themselves has a plan unless a path is refused or two
modules have native libraries for different architectures. The main statement gives all outcomes,
and what a disagreement reports: the sets of architectures of the modules, without empty ones, each
once and in the order of the modules.
-/

namespace AppBundle

/-- Copies of each element, with at least one of each, list the elements once. -/
theorem eraseDups_flatMap_of_copies {α : Type} [BEq α] [LawfulBEq α] {l : List α}
    {f : α → List α} (hne : ∀ a ∈ l, f a ≠ []) (hcopies : ∀ a ∈ l, ∀ b ∈ f a, b = a) :
    (l.flatMap f).eraseDups = l.eraseDups := by
  classical
  induction l using List.reverseRecOn with
  | nil => rfl
  | append_singleton l a ih =>
    have ih := ih (fun b hb => hne b (List.mem_append_left _ hb))
      fun b hb => hcopies b (List.mem_append_left _ hb)
    have ha : a ∈ l ++ [a] := by simp
    have hmem : a ∈ l.flatMap f ↔ a ∈ l := by
      rw [List.mem_flatMap]
      constructor
      · rintro ⟨b, hb, hab⟩
        rwa [hcopies b (List.mem_append_left _ hb) a hab]
      · intro hal
        obtain ⟨b, hb⟩ := List.exists_mem_of_ne_nil _ (hne a ha)
        exact ⟨a, hal, hcopies a ha b hb ▸ hb⟩
    rw [List.flatMap_append, List.flatMap_singleton, List.eraseDups_append, ih, eraseDups_concat]
    by_cases h : a ∈ l
    · have hnone : (f a).removeAll (l.flatMap f) = [] := by
        refine List.filter_eq_nil_iff.mpr fun b hb => ?_
        simpa [hcopies a ha b hb] using hmem.mpr h
      rw [if_pos h, hnone, List.eraseDups_nil, List.append_nil]
    · have hall : (f a).removeAll (l.flatMap f) = f a := by
        refine List.filter_eq_self.mpr fun b hb => ?_
        simpa [hcopies a ha b hb] using mt hmem.mp h
      have hone : (f a).eraseDups = [a] := by
        obtain ⟨b, bs, hbs⟩ := List.exists_cons_of_ne_nil (hne a ha)
        have hb : b = a := hcopies a ha b (hbs ▸ List.mem_cons_self)
        have hrest : bs.filter (fun c => !c == b) = [] := by
          refine List.filter_eq_nil_iff.mpr fun c hc => ?_
          simp [hcopies a ha c (hbs ▸ List.mem_cons_of_mem _ hc), hb]
        rw [hbs, List.eraseDups_cons, hrest, hb, List.eraseDups_nil]
      rw [if_neg h, hall, hone]

section Universes

variable {α : Type} [Ord α] [DecidableEq α] {universes : List (OrderedSet α)}

/-- Universes that are listed several times in a row are listed as they are. -/
theorem distinctUniverses_flatMap {f : OrderedSet α → List (OrderedSet α)}
    (hne : ∀ u ∈ universes, u ≠ ∅ → f u ≠ []) (hcopies : ∀ u ∈ universes, ∀ v ∈ f u, v = u) :
    distinctUniverses (universes.flatMap f) = distinctUniverses universes := by
  have hselect : (universes.flatMap f).filter (!·.isEmpty) =
      (universes.filter (!·.isEmpty)).flatMap f :=
    filter_flatMap_eq fun u hu v hv => by rw [hcopies u hu v hv]
  rw [distinctUniverses, distinctUniverses, hselect]
  refine eraseDups_flatMap_of_copies (fun u hu => ?_) fun u hu => ?_
  · obtain ⟨hu, hempty⟩ := List.mem_filter.mp hu
    refine hne u hu fun h => ?_
    rw [h] at hempty
    cases hempty
  · exact hcopies u (List.mem_filter.mp hu).1

/-- Two universes are listed if two that are not empty differ. -/
theorem one_lt_length_distinctUniverses_iff :
    1 < (distinctUniverses universes).length ↔
      ∃ u ∈ universes, ∃ v ∈ universes, u ≠ ∅ ∧ v ≠ ∅ ∧ u ≠ v := by
  constructor
  · intro h
    have hnodup : (distinctUniverses universes).Nodup := nodup_eraseDups _
    have hmem {u : OrderedSet α} (hu : u ∈ distinctUniverses universes) :
        u ∈ universes ∧ u ≠ ∅ := mem_distinctUniverses.mp hu
    cases hlist : distinctUniverses universes with
    | nil => simp [hlist] at h
    | cons u us =>
      cases us with
      | nil => simp [hlist] at h
      | cons v vs =>
        rw [hlist] at hnodup hmem
        have huv : u ≠ v := fun huv => (List.nodup_cons.mp hnodup).1 (huv ▸ List.mem_cons_self)
        have hu := hmem List.mem_cons_self
        have hv := hmem (List.mem_cons_of_mem _ List.mem_cons_self)
        exact ⟨u, hu.1, v, hv.1, hu.2, hv.2, huv⟩
  · rintro ⟨u, hu, v, hv, hune, hvne, huv⟩
    by_contra h
    exact huv (eq_of_length_distinctUniverses h hu hv hune hvne)

end Universes

/-- The architectures of the native libraries of a module that are kept. -/
def AppModule.keptAbis (m : AppModule) (options : ShardingOptions) : OrderedSet Abi :=
  .ofList ((m.entries.filterMap Entry.abi?).filter options.keeps)

/-- An architecture is kept if the module has a native library in its directory, unless it is a
64-bit one and these are dropped. -/
theorem AppModule.mem_keptAbis {m : AppModule} {options : ShardingOptions} {a : Abi} :
    a ∈ m.keptAbis options ↔
      (∃ e ∈ m.entries, e.IsLibraryOf a) ∧ (a.is64Bit → options.generate64Bit) := by
  have hkeeps : options.keeps a ↔ (a.is64Bit → options.generate64Bit) := by
    rw [ShardingOptions.keeps, Bool.or_eq_true, Bool.not_eq_true', ← Bool.not_eq_true]
    tauto
  rw [keptAbis, OrderedSet.mem_ofList, List.mem_filter, List.mem_filterMap, hkeeps]
  simp only [Entry.abi?_eq_some_iff]

section Plan

variable {modules : List AppModule} {dimensions : OrderedSet Dimension}
variable {options : ShardingOptions} {splits : List Split}

/-- A module is divided by the architectures that it keeps, if by any. -/
theorem AppModule.abis_eq (m : AppModule) : m.abis dimensions options =
    if .abi ∈ dimensions then m.keptAbis options else ∅ := rfl

/-- Some path of the bundle is refused. -/
def HasRefusedPath (modules : List AppModule) (dimensions : OrderedSet Dimension) : Prop :=
  ∃ m ∈ modules, ∃ e ∈ m.entries, ∃ cause, e.IsRefused dimensions cause

/-- Two modules are to be divided by different architectures. -/
def AbisDiffer (modules : List AppModule) (dimensions : OrderedSet Dimension)
    (options : ShardingOptions) : Prop :=
  .abi ∈ dimensions ∧ ∃ m ∈ modules, ∃ n ∈ modules,
    m.keptAbis options ≠ ∅ ∧ n.keptAbis options ≠ ∅ ∧ m.keptAbis options ≠ n.keptAbis options

/-- The universes of the architecture splits are the architectures of the modules. -/
theorem distinctUniverses_abiSplits (h : bundleSplits modules dimensions options = .ok splits) :
    distinctUniverses ((abiSplits splits none).map (·.targeting.abi.choices)) =
      distinctUniverses (modules.map (·.abis dimensions options)) := by
  have huniverses : (abiSplits splits none).map (·.targeting.abi.choices) =
      (modules.map (·.abis dimensions options)).flatMap fun u =>
        (targetsOf .forAbi u).map fun t => t.abi.choices := by
    have htargetings := congrArg (List.map fun t => t.abi.choices) (targetings_abiSplits h)
    rwa [List.map_map, List.map_flatMap] at htargetings
  rw [huniverses]
  refine distinctUniverses_flatMap (fun u _ hne => ?_) fun u _ v hv => ?_
  · rw [targetsOf, ne_eq, List.map_eq_nil_iff, List.map_eq_nil_iff]
    exact fun hnil => hne (OrderedSet.toList_injective hnil)
  · obtain ⟨t, ht, rfl⟩ := List.mem_map.mp hv
    exact choices_of_mem_targetsOf Targeting.abi_forAbi ht

/-- Two universes are listed if the modules are to be divided by different architectures. -/
theorem abisDiffer_iff :
    1 < (distinctUniverses (modules.map (·.abis dimensions options))).length ↔
      AbisDiffer modules dimensions options := by
  simp only [one_lt_length_distinctUniverses_iff, List.mem_map, exists_exists_and_eq_and,
    AppModule.abis_eq, AbisDiffer]
  by_cases hdim : .abi ∈ dimensions
  · simp [hdim]
  · simp [hdim]

/-- What is listed of modules that are divided by architecture are the sets that are not empty,
each once. -/
theorem distinctUniverses_abis (hdim : .abi ∈ dimensions) :
    distinctUniverses (modules.map (·.abis dimensions options)) =
      ((modules.map (·.keptAbis options)).filter (· ≠ ∅)).eraseDups := by
  have hkept : modules.map (·.abis dimensions options) = modules.map (·.keptAbis options) :=
    List.map_congr_left fun m _ => by rw [m.abis_eq, if_pos hdim]
  rw [distinctUniverses, hkept]
  congr 1
  refine List.filter_congr fun u _ => ?_
  rw [Bool.eq_iff_iff, Bool.not_eq_true', ← Bool.not_eq_true, decide_eq_true_eq,
    OrderedSet.isEmpty_iff]

/-- If the modules are to be divided by different architectures, their sets are reported. -/
theorem planShards_of_abisDiffer (h : bundleSplits modules dimensions options = .ok splits)
    (hdiffer : AbisDiffer modules dimensions options) :
    planShards modules dimensions options none =
      .error (.abiMismatch ((modules.map (·.keptAbis options)).filter (· ≠ ∅)).eraseDups) := by
  refine bind_eq_error_iff.mpr (.inr ⟨splits, h, ?_⟩)
  rw [groupSplits_of_bundleSplits h]
  dsimp only
  rw [distinctUniverses_abiSplits h, if_pos (abisDiffer_iff.mpr hdiffer),
    distinctUniverses_abis hdiffer.1]

/-- If they are not, there is a plan. -/
theorem exists_plan_of_not_abisDiffer (h : bundleSplits modules dimensions options = .ok splits)
    (hagree : ¬ AbisDiffer modules dimensions options) :
    ∃ shards, planShards modules dimensions options none = .ok shards := by
  have hgroup := groupSplits_of_bundleSplits h none
  dsimp only at hgroup
  rw [distinctUniverses_abiSplits h, if_neg (mt abisDiffer_iff.mp hagree)] at hgroup
  exact ⟨_, bind_eq_ok_iff.mpr ⟨splits, h, hgroup⟩⟩

variable (dimensions options) in
/-- Modules that are consistent in themselves can be divided, or planning fails at a path that is
refused. -/
theorem exists_bundleSplits_or_refused (hmodules : modules ≠ [])
    (hpaths : ∀ m ∈ modules, PathsConsistent m.entries) :
    ((∃ splits, bundleSplits modules dimensions options = .ok splits) ∧
        ¬ HasRefusedPath modules dimensions) ∨
      ∃ cause, planShards modules dimensions options none = .error (.refusedPath cause) ∧
        ∃ m ∈ modules, ∃ e ∈ m.entries, e.IsRefused dimensions cause := by
  cases hsplits : bundleSplits modules dimensions options with
  | ok splits =>
    refine .inl ⟨⟨splits, rfl⟩, ?_⟩
    rintro ⟨m, hm, e, he, cause, hrefused⟩
    obtain ⟨_, splitsOf, hall, _⟩ := exists_of_bundleSplits hsplits
    exact AppModule.not_isRefused_of_splits (hall m hm) e he cause hrefused
  | error failure =>
    obtain ⟨m, hm, herror⟩ := exists_of_bundleSplits_error hmodules hsplits
    obtain ⟨e, he, cause, hrefused, rfl⟩ :=
      AppModule.exists_isRefused_of_splits_error (hpaths m hm) herror
    exact .inr ⟨cause, bind_eq_error_iff.mpr (.inl hsplits), m, hm, e, he, hrefused⟩

/-- All outcomes of planning for modules that are consistent in themselves. A path is refused, and
the failure names it; or else two modules have native libraries for different architectures, and
the failure lists the sets of the modules; or else there is a plan. -/
theorem planShards_outcomes (dimensions : OrderedSet Dimension) (options : ShardingOptions)
    (hmodules : modules ≠ []) (hpaths : ∀ m ∈ modules, PathsConsistent m.entries) :
    ((∃ cause, planShards modules dimensions options none = .error (.refusedPath cause)) ↔
        HasRefusedPath modules dimensions) ∧
      (∀ cause, planShards modules dimensions options none = .error (.refusedPath cause) →
        ∃ m ∈ modules, ∃ e ∈ m.entries, e.IsRefused dimensions cause) ∧
      (∀ universes, planShards modules dimensions options none = .error (.abiMismatch universes) ↔
        ¬ HasRefusedPath modules dimensions ∧ AbisDiffer modules dimensions options ∧
          universes = ((modules.map (·.keptAbis options)).filter (· ≠ ∅)).eraseDups) ∧
      ((∃ shards, planShards modules dimensions options none = .ok shards) ↔
        ¬ HasRefusedPath modules dimensions ∧ ¬ AbisDiffer modules dimensions options) := by
  rcases exists_bundleSplits_or_refused dimensions options hmodules hpaths with
    ⟨⟨splits, hsplits⟩, hpaths⟩ | ⟨cause, hplan, m, hm, e, he, hrefused⟩
  · by_cases hdiffer : AbisDiffer modules dimensions options
    · have hplan := planShards_of_abisDiffer hsplits hdiffer
      simp [hplan, hpaths, hdiffer, eq_comm]
    · obtain ⟨shards, hplan⟩ := exists_plan_of_not_abisDiffer hsplits hdiffer
      simp [hplan, hpaths, hdiffer]
  · have hpaths : HasRefusedPath modules dimensions := ⟨m, hm, e, he, cause, hrefused⟩
    refine ⟨⟨fun _ => hpaths, fun _ => ⟨cause, hplan⟩⟩, fun other hother => ?_,
      fun universes => by simp [hplan, hpaths], by simp [hplan, hpaths]⟩
    rw [hplan] at hother
    cases hother
    exact ⟨m, hm, e, he, hrefused⟩

/-- A base module with libraries for one architecture, a feature with libraries for two, and a
module without libraries. -/
def unlikeModules : List AppModule :=
  [{ name := baseName
     entries := [⟨"dex/classes.dex", ⟨#[1]⟩⟩, ⟨"lib/x86/libmain.so", ⟨#[2]⟩⟩] },
    { name := "camera"
      entries := [⟨"lib/arm64-v8a/libcamera.so", ⟨#[3]⟩⟩, ⟨"lib/x86/libcamera.so", ⟨#[4]⟩⟩] },
    { name := "help", entries := [⟨"assets/help.html", ⟨#[5]⟩⟩] }]

/-- The sets of the base module and of the feature are reported. -/
theorem planShards_outcomes_unlikeModules :
    unlikeModules ≠ [] ∧ (∀ m ∈ unlikeModules, PathsConsistent m.entries) ∧
      ¬ HasRefusedPath unlikeModules (.ofList Dimension.all) ∧
      AbisDiffer unlikeModules (.ofList Dimension.all) {} ∧
      ((unlikeModules.map (·.keptAbis {})).filter (· ≠ ∅)).eraseDups =
        [.ofList [.x86], .ofList [.arm64V8a, .x86]] := by
  have hmodules : unlikeModules ≠ [] := by decide
  have hpaths : ∀ m ∈ unlikeModules, PathsConsistent m.entries := by
    unfold PathsConsistent
    decide +kernel
  have hplan : planShards unlikeModules (.ofList Dimension.all) {} none =
      .error (.abiMismatch [.ofList [.x86], .ofList [.arm64V8a, .x86]]) := by
    have h : (planShards unlikeModules (.ofList Dimension.all) {} none).map List.length =
        .error (.abiMismatch [.ofList [.x86], .ofList [.arm64V8a, .x86]]) := by decide +kernel
    exact map_eq_error_iff.mp h
  have houtcomes := (planShards_outcomes (.ofList Dimension.all) {} hmodules hpaths).2.2.1
  obtain ⟨hrefused, hdiffer, hlist⟩ := (houtcomes _).mp hplan
  exact ⟨hmodules, hpaths, hrefused, hdiffer, hlist.symm⟩

end Plan

end AppBundle
