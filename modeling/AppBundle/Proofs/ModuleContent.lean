import AppBundle.Dimension
import AppBundle.AppModule
import AppBundle.Splitter.ApexImages
import AppBundle.Splitter.Densities
import AppBundle.Splitter.NativeLibraries
import Mathlib.Data.List.Infix

/-!
# The content of a module

What the paths of a module's entries say, without regard to how the module is
divided: the architectures of its native libraries, its resources for different
densities and its system images. Each of these is found in one kind of content.
-/

namespace AppBundle

/-- A text does not begin in two ways that exclude each other. -/
theorem Text.startsWith_eq_false {other s rest : String} (h : after? other s = some rest)
    (lead : String) (hlead : ¬ lead.toList <+: other.toList)
    (hother : ¬ other.toList <+: lead.toList) : startsWith lead s = false := by
  cases hs : after? lead s with
  | none => rw [startsWith, hs, Option.isSome_none]
  | some rest' =>
    have hotherPrefix : other.toList <+: s.toList := by
      rw [after?_eq_some_iff.mp h, String.toList_append]
      exact List.prefix_append _ _
    have hleadPrefix : lead.toList <+: s.toList := by
      rw [after?_eq_some_iff.mp hs, String.toList_append]
      exact List.prefix_append _ _
    rcases List.prefix_or_prefix_of_prefix hleadPrefix hotherPrefix with h | h
    · exact absurd h hlead
    · exact absurd h hother

namespace Category

/-- Paths below `lib` are native libraries. -/
theorem ofPath_of_lib {path rest : String} (h : Text.after? "lib/" path = some rest) :
    ofPath path = nativeLibraries := by
  rw [ofPath, Text.startsWith, h]
  rfl

/-- Paths below `res` are resources. -/
theorem ofPath_of_res {path rest : String} (h : Text.after? "res/" path = some rest) :
    ofPath path = resources := by
  have hlib := Text.startsWith_eq_false h "lib/" (by decide) (by decide)
  have hres : Text.startsWith "res/" path = true := by rw [Text.startsWith, h, Option.isSome_some]
  simp [ofPath, hlib, hres]

/-- Paths below `apex` are system images and what belongs to them. -/
theorem ofPath_of_apex {path rest : String} (h : Text.after? "apex/" path = some rest) :
    ofPath path = apexImages := by
  have hlib := Text.startsWith_eq_false h "lib/" (by decide) (by decide)
  have hres := Text.startsWith_eq_false h "res/" (by decide) (by decide)
  have hassets := Text.startsWith_eq_false h "assets/" (by decide) (by decide)
  have hapex : Text.startsWith "apex/" path = true := by rw [Text.startsWith, h, Option.isSome_some]
  have htable : path ≠ "resources.pb" := by
    rintro rfl
    exact absurd hapex (by decide)
  simp [ofPath, hlib, hres, hassets, hapex, htable]

end Category

/-- The label of a path that is not refused. -/
def acceptedLabel {κ : Type} : Except PathError (Option κ) → Option κ
  | .ok label => label
  | .error _ => none

/-- The architecture of an entry `lib/<abi>/...`; all other entries have none. -/
def Entry.abi? (e : Entry) : Option Abi := acceptedLabel (libraryAbi e.path)

/-- The set of architectures of a system image; all other entries have none. -/
def Entry.imageAbis? (e : Entry) : Option AbiSet := acceptedLabel (ApexFile.imageAbis e.path)

/-- Whether native libraries of an architecture are kept. -/
def ShardingOptions.keeps (options : ShardingOptions) (a : Abi) : Bool :=
  options.generate64Bit || !a.is64Bit

namespace AppModule

/-- The architectures that a module is divided by: those of its kept native
libraries. -/
def abis (m : AppModule) (dimensions : OrderedSet Dimension) (options : ShardingOptions) :
    OrderedSet Abi :=
  if .abi ∈ dimensions then .ofList ((m.entries.filterMap Entry.abi?).filter options.keeps) else ∅

/-- The resources of a module that are meant for one density. -/
def variants (m : AppModule) : List DensityVariant := m.entries.filterMap DensityVariant.ofEntry?

/-- The density classes that a module is divided by: all or none. -/
def densities (m : AppModule) (dimensions : OrderedSet Dimension) : OrderedSet Density :=
  if .screenDensity ∈ dimensions ∧ !m.variants.isEmpty then .ofList Density.all else ∅

/-- The sets of architectures of the system images of a module. -/
def imageSets (m : AppModule) : OrderedSet AbiSet := .ofList (m.entries.filterMap Entry.imageAbis?)

/-- The system images that an entry goes with: an image goes with those of its own
set, and a file that tells how an image was built with those of the same set, if
there are any. -/
def imageSet? (m : AppModule) (e : Entry) : Option AbiSet :=
  match ApexFile.buildInfoStem? e.path with
  | some stem => (ApexFile.abis? stem).filter (· ∈ m.imageSets)
  | none => e.imageAbis?

end AppModule

/-- Entries with an architecture are native libraries. -/
theorem Entry.category_of_abi? {e : Entry} {a : Abi} (h : e.abi? = some a) :
    e.category = .nativeLibraries := by
  cases hlib : Text.after? "lib/" e.path with
  | none => simp [Entry.abi?, libraryAbi, acceptedLabel, hlib] at h
  | some rest => exact Category.ofPath_of_lib hlib

/-- Variants of resources are resources. -/
theorem DensityVariant.category_of_ofEntry? {e : Entry} {v : DensityVariant}
    (h : ofEntry? e = some v) : e.category = .resources := by
  cases hres : Text.after? "res/" e.path with
  | none => simp [DensityVariant.ofEntry?, ResourcePath.parse?, hres] at h
  | some rest => exact Category.ofPath_of_res hres

/-- System images and what belongs to them lie below `apex`. -/
theorem ApexFile.category_of_ofPath_ne {e : Entry} (h : ofPath e.path ≠ other) :
    e.category = .apexImages := by
  cases hapex : Text.after? "apex/" e.path with
  | none => exact absurd (by rw [ofPath, hapex]) h
  | some rest => exact Category.ofPath_of_apex hapex

/-- An entry with a set of architectures is an image whose stem lists them. -/
theorem Entry.imageAbis?_eq_some_iff {e : Entry} {s : AbiSet} :
    e.imageAbis? = some s ↔
      ∃ stem, ApexFile.ofPath e.path = .image stem ∧ ApexFile.abis? stem = some s := by
  cases hpath : ApexFile.ofPath e.path with
  | image stem =>
    cases habis : ApexFile.abis? stem <;>
      simp [imageAbis?, ApexFile.imageAbis, acceptedLabel, hpath, habis]
  | buildInfo stem => simp [imageAbis?, ApexFile.imageAbis, acceptedLabel, hpath]
  | other => simp [imageAbis?, ApexFile.imageAbis, acceptedLabel, hpath]

/-- Entries that go with system images lie below `apex`. -/
theorem AppModule.category_of_imageSet? {m : AppModule} {e : Entry} {s : AbiSet}
    (h : m.imageSet? e = some s) : e.category = .apexImages := by
  refine ApexFile.category_of_ofPath_ne fun hother => ?_
  simp [imageSet?, ApexFile.buildInfoStem?, Entry.imageAbis?, ApexFile.imageAbis, acceptedLabel,
    hother] at h

namespace AppModule

variable {m : AppModule} {c : Category}

/-- What is found in one kind of content only is found there completely. -/
theorem filterMap_entriesIn {β : Type} {f : Entry → Option β}
    (h : ∀ e b, f e = some b → e.category = c) :
    (m.entriesIn c).filterMap f = m.entries.filterMap f := by
  rw [entriesIn, List.filterMap_filter]
  refine List.filterMap_congr fun e _ => ?_
  cases hf : f e with
  | none => simp
  | some b => simp [h e b hf]

/-- Entries of one kind of content can be selected among all entries. -/
theorem filter_entriesIn {p : Entry → Bool} (h : ∀ e, p e → e.category = c) :
    (m.entriesIn c).filter p = m.entries.filter p := by
  rw [entriesIn, List.filter_filter]
  refine List.filter_congr fun e _ => ?_
  by_cases hp : p e
  · simp [hp, h e hp]
  · simp [hp]

/-- The architectures of a module are those of its kept native libraries. -/
theorem mem_abis {dimensions : OrderedSet Dimension} {options : ShardingOptions} {a : Abi} :
    a ∈ m.abis dimensions options ↔
      .abi ∈ dimensions ∧ options.keeps a ∧ ∃ e ∈ m.entries, e.abi? = some a := by
  unfold abis
  split
  · simp [*, List.mem_filterMap, and_comm]
  · simp [*]

/-- The variants of a module are those of its entries. -/
theorem mem_variants {v : DensityVariant} :
    v ∈ m.variants ↔ ∃ e ∈ m.entries, DensityVariant.ofEntry? e = some v := by
  rw [variants, List.mem_filterMap]

/-- The sets of architectures of a module are those of its images. -/
theorem mem_imageSets {s : AbiSet} :
    s ∈ m.imageSets ↔ ∃ e ∈ m.entries, e.imageAbis? = some s := by
  rw [imageSets, OrderedSet.mem_ofList, List.mem_filterMap]

end AppModule

end AppBundle
