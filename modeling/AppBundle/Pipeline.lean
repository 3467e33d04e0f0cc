import AppBundle.Dimension
import AppBundle.Splitter

/-!
# Pipelines of splitters

A pipeline applies splitters one after another, each to every part that the
previous ones have made. The kinds of content have pipelines of their own, made
from the dimensions of optimization. The main statement says how two pipelines
in a row are one.
-/

namespace AppBundle

/-- Splitters that are applied one after another. -/
abbrev Pipeline := List Splitter

/-- Applies a splitter to each of some splits. -/
def Splitter.splitEach (splitter : Splitter) (splits : List Split) :
    Except PathError (List Split) :=
  return (← splits.mapM splitter.split).flatten

namespace Pipeline

/-- The parts into which a pipeline divides each of some splits. -/
def splitAll (p : Pipeline) (splits : List Split) : Except PathError (List Split) :=
  p.foldlM (fun parts splitter => splitter.splitEach parts) splits

/-- The parts into which a pipeline divides a split. -/
def split (p : Pipeline) (s : Split) : Except PathError (List Split) := p.splitAll [s]

/-- Whether content of different languages is divided. -/
def dividesLanguages (dimensions : OrderedSet Dimension) (options : ShardingOptions) : Bool :=
  .language ∈ dimensions && options.splitByLanguage

/-- The pipeline of native libraries. -/
def nativeLibraries (dimensions : OrderedSet Dimension) (options : ShardingOptions) : Pipeline :=
  if .abi ∈ dimensions then [.nativeLibraries options.generate64Bit] else []

/-- The pipeline of resources. -/
def resources (dimensions : OrderedSet Dimension) (options : ShardingOptions) : Pipeline :=
  (if .screenDensity ∈ dimensions then [.densityResources] else []) ++
    if dividesLanguages dimensions options then [.languageResources] else []

/-- The pipeline of assets. -/
def assets (dimensions : OrderedSet Dimension) (options : ShardingOptions) : Pipeline :=
  if dividesLanguages dimensions options then [.languageAssets] else []

/-- The pipeline of system images, the same for all dimensions. -/
def apexImages : Pipeline := [.apexImages]

/-- A pipeline with a first splitter applies it and goes on with the others. -/
theorem splitAll_cons (splitter : Splitter) (p : Pipeline) (splits : List Split) :
    splitAll (splitter :: p) splits = splitter.splitEach splits >>= splitAll p := rfl

/-- Two pipelines in a row are one. -/
theorem splitAll_append (p q : Pipeline) (splits : List Split) :
    splitAll (p ++ q) splits = splitAll p splits >>= splitAll q := by
  simp only [splitAll, List.foldlM_append]
  rfl

end Pipeline

end AppBundle
