import AppBundle.Device
import AppBundle.Dimension
import AppBundle.Document

/-!
# Targetings and devices in documents

How the values of targeting, the options of sharding and devices are stored in
documents. What is empty in a targeting is left out, and other fields of a
targeting are passed over; a device has no other fields.
-/

namespace AppBundle

open Document (Record)

instance : Storable Abi where
  toDocument a := .text a.name
  ofDocument? format d := d.variant? format Abi.ofName?

instance : Storable Density where
  toDocument d := .text d.name
  ofDocument? format d := d.variant? format Density.ofName?

instance : Storable Dimension where
  toDocument d := .text d.name
  ofDocument? format d := d.variant? format Dimension.ofName?

instance : Storable Language where
  toDocument l := .text l.code
  ofDocument? _ d := d.text?.map Language.mk

/-- A field that is left out if there is nothing in it. -/
def fieldUnless {α : Type} [Storable α] (empty : Bool) (name : String) (a : α) :
    List (String × Document) :=
  if empty then [] else [(name, toDocument a)]

/-- The fields of the options of sharding. -/
def ShardingOptions.record : Record :=
  { names := ["split_by_language", "generate_64_bit_shard"], extensible := true }

instance : Storable ShardingOptions where
  toDocument o :=
    .table [("generate_64_bit_shard", toDocument o.generate64Bit),
      ("split_by_language", toDocument o.splitByLanguage)]
  ofDocument? format d := do
    let [splitByLanguage, generate64Bit] ← d.fields? format ShardingOptions.record | none
    return {
      splitByLanguage := ← required format splitByLanguage
      generate64Bit := ← required format generate64Bit }

/-- The fields of the targeting in one dimension. -/
def Selection.record : Record := { names := ["value", "alternatives"], extensible := true }

instance {α : Type} [Ord α] [Std.TransOrd α] [Std.LawfulEqOrd α] [Storable α] :
    Storable (Selection α) where
  toDocument s :=
    .table (fieldUnless s.alternatives.isEmpty "alternatives" s.alternatives ++
      fieldUnless s.values.isEmpty "value" s.values)
  ofDocument? format d := do
    let [values, alternatives] ← d.fields? format Selection.record | none
    return {
      values := ← optional format ∅ values
      alternatives := ← optional format ∅ alternatives }

/-- The fields of a targeting. -/
def Targeting.record : Record :=
  { names := ["abi", "screen_density", "language", "multi_abi"], extensible := true }

instance : Storable Targeting where
  toDocument t :=
    .table (fieldUnless t.abi.isEmpty "abi" t.abi ++
      fieldUnless t.language.isEmpty "language" t.language ++
      fieldUnless t.multiAbi.isEmpty "multi_abi" t.multiAbi ++
      fieldUnless t.density.isEmpty "screen_density" t.density)
  ofDocument? format d := do
    let [abi, density, language, multiAbi] ← d.fields? format Targeting.record | none
    return {
      abi := ← optional format ∅ abi
      density := ← optional format ∅ density
      language := ← optional format ∅ language
      multiAbi := ← optional format ∅ multiAbi }

/-- The fields of a device. -/
def Device.record : Record :=
  { names := ["supported_abis", "screen_density", "supported_locales"], extensible := false }

instance : Storable Device where
  toDocument d :=
    .table [("screen_density", toDocument d.screenDensity),
      ("supported_abis", toDocument d.supportedAbis),
      ("supported_locales", toDocument d.supportedLocales)]
  ofDocument? format d := do
    let [abis, density, locales] ← d.fields? format Device.record | none
    return {
      supportedAbis := ← optional format [] abis
      screenDensity := ← required format density
      supportedLocales := ← optional format [] locales }

end AppBundle
