import AppBundle.Proofs.SplitterParts

/-!
# The parts that pipelines make

A pipeline divides only the first of the parts that it has made so far, because all others are
targeted. The main statement says what every pipeline makes of a split: one untargeted part, which
comes first, and parts that are targeted in one dimension.
-/

namespace AppBundle

/-- A splitter that is applied to a split and targeted ones fails if it fails on the split. -/
theorem Splitter.splitEach_cons_eq {splitter : Splitter} {s : Split} {rest : List Split}
    (hrest : ∀ p ∈ rest, p.targeting.isUntargeted = false) :
    splitter.splitEach (s :: rest) = (splitter.split s).map (· ++ rest) := by
  cases h : splitter.split s with
  | ok parts => exact splitEach_cons h hrest
  | error cause => simp [splitEach, h, bind, Except.bind, Except.map]

section Takes

variable {splitter : Splitter} {s t : Split} {left : List Entry} {targeted : List Split}

/-- Every split agrees with itself. -/
theorem Splitter.Agrees.refl (splitter : Splitter) (s : Split) : splitter.Agrees s s :=
  ⟨rfl, rfl, rfl⟩

namespace Splitter.Takes

variable (h : splitter.Takes s left targeted)
include h

/-- The parts that a splitter makes. -/
theorem split_self (hs : s.targeting.isUntargeted) :
    splitter.split s = .ok (splitter.remaining s left :: targeted) :=
  h.split_eq s hs (.refl splitter s)

/-- The parts that a splitter makes besides the first one are targeted. -/
theorem isUntargeted_eq_false : ∀ p ∈ targeted, p.targeting.isUntargeted = false :=
  fun p hp => (h.isOneDimensional p hp).isUntargeted_eq_false

end Splitter.Takes

namespace Pipeline

/-- A pipeline that is applied to a split and targeted ones divides only the first of them. -/
theorem splitAll_cons_eq (p : Pipeline) (hs : s.targeting.isUntargeted)
    (htargeted : ∀ q ∈ targeted, q.targeting.isUntargeted = false) :
    p.splitAll (s :: targeted) = (p.split s).map (· ++ targeted) := by
  -- what the first splitter makes stands before the targeted parts, and only its first part is
  -- divided further
  induction p generalizing s targeted with
  | nil => rfl
  | cons splitter p ih =>
    rw [split, splitAll_cons, splitAll_cons, Splitter.splitEach_cons_eq htargeted,
      Splitter.splitEach_cons_eq (by simp)]
    cases hsplit : splitter.split s with
    | error cause => rfl
    | ok parts =>
      obtain ⟨left, own, htakes⟩ := Splitter.exists_takes hs hsplit
      have hown := htakes.isUntargeted_eq_false
      rw [htakes.split_self hs] at hsplit
      obtain rfl := Except.ok.inj hsplit
      have hall : ∀ q ∈ own ++ targeted, q.targeting.isUntargeted = false := by
        intro q hq
        exact (List.mem_append.mp hq).elim (hown q) (htargeted q)
      have hfirst : (splitter.remaining s left).targeting.isUntargeted := rfl
      change splitAll p (splitter.remaining s left :: (own ++ targeted)) =
        (splitAll p (splitter.remaining s left :: (own ++ []))).map (· ++ targeted)
      rw [ih hfirst hall, List.append_nil, ih hfirst hown]
      cases split p (splitter.remaining s left) with
      | error cause => rfl
      | ok parts => exact congrArg _ (List.append_assoc ..).symm

/-- A pipeline with a first splitter goes on with what remains when that splitter is done. -/
theorem split_cons_of_takes (h : splitter.Takes s left targeted) (hs : s.targeting.isUntargeted)
    (p : Pipeline) :
    Pipeline.split (splitter :: p) s =
      (p.split (splitter.remaining s left)).map (· ++ targeted) := by
  rw [split, splitAll_cons, Splitter.splitEach_cons_eq (by simp), h.split_self hs]
  change splitAll p (splitter.remaining s left :: (targeted ++ [])) = _
  rw [List.append_nil, splitAll_cons_eq p rfl h.isUntargeted_eq_false]

/-- A pipeline succeeds only if its first splitter does. -/
theorem exists_takes_of_split_cons {p : Pipeline} {parts : List Split}
    (hs : s.targeting.isUntargeted) (h : Pipeline.split (splitter :: p) s = .ok parts) :
    ∃ left targeted, splitter.Takes s left targeted := by
  rw [split, splitAll_cons] at h
  obtain ⟨all, hall, _⟩ := bind_eq_ok_iff.mp h
  rw [Splitter.splitEach_cons_eq (by simp)] at hall
  obtain ⟨own, hown, _⟩ := map_eq_ok_iff.mp hall
  exact Splitter.exists_takes hs hown

end Pipeline

end Takes

/-- The splits that dividing starts with: those of a kind of content of a module, and those made
from a module name and entries. -/
inductive Split.IsFresh : Split → Prop
  | ofCategory (m : AppModule) (c : Category) : IsFresh (m.split c)
  | ofEntries (moduleName : String) (entries : List Entry) :
    IsFresh (.ofEntries moduleName entries .untargeted)

/-- What dividing a split leads to: parts with the names of the split, of which the first one is
untargeted and all others are targeted in one dimension. -/
structure Split.IsPurelyDivided (s : Split) (parts : List Split) : Prop where
  moduleName : ∀ p ∈ parts, p.moduleName = s.moduleName
  splitName : ∀ p ∈ parts, p.splitName = s.splitName
  /-- The master splits are the untargeted ones. -/
  isMaster_iff : ∀ p ∈ parts, p.isMaster ↔ p.targeting = .untargeted
  /-- No part is targeted in two dimensions. -/
  targeting : ∀ p ∈ parts, p.targeting = .untargeted ∨ p.targeting.IsOneDimensional
  /-- The first part is the only one that is untargeted. -/
  exists_first : ∃ first rest, parts = first :: rest ∧ first.targeting = .untargeted ∧
    ∀ p ∈ rest, p.targeting ≠ .untargeted

/-- What a split that is derived from another one has in common with it. -/
theorem Split.of_eq_derive {s q : Split} (h : q = s.derive q.entries q.targeting) :
    q.moduleName = s.moduleName ∧ q.splitName = s.splitName ∧
      (q.isMaster ↔ q.targeting = .untargeted) := by
  rw [h]
  exact ⟨rfl, rfl, decide_eq_true_iff⟩

namespace Pipeline

variable {p : Pipeline} {s : Split} {parts : List Split}

/-- A fresh split is derived from itself without targeting. -/
theorem eq_derive_of_isFresh (h : s.IsFresh) : s = s.derive s.entries .untargeted := by
  cases h <;> rfl

/-- The parts that a pipeline makes are derived from the split. The first one is untargeted, and
all others are targeted in one dimension. -/
theorem exists_of_split (hs : s = s.derive s.entries .untargeted) (h : p.split s = .ok parts) :
    ∃ first rest, parts = first :: rest ∧ first = s.derive first.entries .untargeted ∧
      ∀ q ∈ rest, q = s.derive q.entries q.targeting ∧ q.targeting.IsOneDimensional := by
  induction p generalizing s parts with
  | nil => exact ⟨s, [], (Except.ok.inj h).symm, hs, by simp⟩
  | cons splitter p ih =>
    have huntargeted : s.targeting.isUntargeted := hs ▸ rfl
    obtain ⟨left, targeted, htakes⟩ := exists_takes_of_split_cons huntargeted h
    rw [split_cons_of_takes htakes huntargeted] at h
    obtain ⟨own, hown, rfl⟩ := map_eq_ok_iff.mp h
    obtain ⟨first, rest, rfl, hfirst, hrest⟩ := ih rfl hown
    refine ⟨first, rest ++ targeted, rfl, hfirst, fun q hq => ?_⟩
    rcases List.mem_append.mp hq with hq | hq
    · exact hrest q hq
    · exact ⟨htakes.eq_derive q hq, htakes.isOneDimensional q hq⟩

/-- Whatever the splitters of a pipeline are and however often and in which order they are applied,
the parts of a fresh split have its names, and all but the first one are targeted in exactly one
dimension. -/
theorem isPurelyDivided_of_split (p : Pipeline) (hs : s.IsFresh) (h : p.split s = .ok parts) :
    s.IsPurelyDivided parts := by
  obtain ⟨first, rest, rfl, hfirst, hrest⟩ := exists_of_split (eq_derive_of_isFresh hs) h
  have htargeting : first.targeting = .untargeted := congrArg Split.targeting hfirst
  have hderive : ∀ q ∈ first :: rest, q = s.derive q.entries q.targeting := by
    intro q hq
    rcases List.mem_cons.mp hq with rfl | hq
    · rwa [htargeting]
    · exact (hrest q hq).1
  refine ⟨fun q hq => (Split.of_eq_derive (hderive q hq)).1,
    fun q hq => (Split.of_eq_derive (hderive q hq)).2.1,
    fun q hq => (Split.of_eq_derive (hderive q hq)).2.2, fun q hq => ?_,
    first, rest, rfl, htargeting, fun q hq heq => ?_⟩
  · rcases List.mem_cons.mp hq with rfl | hq
    · exact .inl htargeting
    · exact .inr (hrest q hq).2
  · have hfalse := (hrest q hq).2.isUntargeted_eq_false
    rw [heq] at hfalse
    cases hfalse

/-- All the content of the sample can be divided at once, by some splitters twice. -/
theorem isPurelyDivided_sampleBase :
    (Split.ofEntries baseName sampleBase.entries .untargeted).IsFresh ∧
      ∃ parts, Pipeline.split [.densityResources, .nativeLibraries true, .languageAssets,
          .densityResources] (.ofEntries baseName sampleBase.entries .untargeted) = .ok parts ∧
        (Split.ofEntries baseName sampleBase.entries .untargeted).IsPurelyDivided parts := by
  have hfresh := Split.IsFresh.ofEntries baseName sampleBase.entries
  obtain ⟨parts, hparts⟩ := exists_of_isSome_toOption (x := Pipeline.split [.densityResources,
    .nativeLibraries true, .languageAssets, .densityResources]
    (.ofEntries baseName sampleBase.entries .untargeted)) (by decide +kernel)
  exact ⟨hfresh, parts, hparts, isPurelyDivided_of_split _ hfresh hparts⟩

end Pipeline

end AppBundle
