import AppBundle.Proofs.StoredRecords

/-!
# Values in JSON

The values of targeting, devices, the options of sharding, manifests and checked manifests go
through JSON unchanged, in any layout and any order of fields. What is empty in a targeting is not
written. Missing fields have their default values, and a manifest or a device with an unknown field
is refused, also where the field is in a part of the manifest.
-/

namespace AppBundle

open Document (Record)
open Json (IsTextOf read?)

namespace Json

/-- The text of a value. -/
def encode {α : Type} [Storable α] (a : α) : String := (toDocument a).render

/-- The value of a text. -/
def decode? {α : Type} [Storable α] (s : String) : Option α := (read? s).bind (ofDocument? .json)

/-- A value is read back from its document, and from every text of the document. -/
structure RoundTrips {α : Type} [Storable α] (a : α) : Prop where
  /-- The document of the value is read as the value. -/
  ofDocument?_toDocument : ofDocument? .json (toDocument a) = some a
  /-- So is the text that is written. -/
  decode?_encode : decode? (encode a) = some a
  /-- It is a text of the document. -/
  isTextOf_encode : IsTextOf (encode a) (toDocument a)
  /-- The other texts of the document, with other blanks and another order of fields, are read as
  the value too. -/
  decode?_text : ∀ s, IsTextOf s (toDocument a) → decode? s = some a

variable {α : Type} [Storable α]

theorem decode?_of_isTextOf {s : String} {d : Document} (h : IsTextOf s d) :
    (decode? s : Option α) = ofDocument? .json d := by
  rw [decode?, read?_of_isTextOf h, Option.bind_some]

theorem roundTrips [LawfulStorable α] (a : α) : RoundTrips a := by
  have hread := LawfulStorable.ofDocument?_toDocument .json a
  have htext : IsTextOf (encode a) (toDocument a) :=
    (LawfulStorable.isPlain_toDocument a).isTextOf_render
  exact ⟨hread, (decode?_of_isTextOf htext).trans hread, htext,
    fun s hs => (decode?_of_isTextOf hs).trans hread⟩

/-- The values of a record type go through JSON unchanged. -/
structure GoesThrough (α : Type) [Storable α] (r : Record) (fields : α → List StoredField) :
    Prop where
  /-- They are read back. -/
  roundTrips : ∀ a : α, RoundTrips a
  /-- Fields that have their default values may be missing from the text. -/
  decode?_part : ∀ (a : α) (kept : List StoredField) (s : String), Keeps (fields a) kept →
    IsTextOf s (tableOf kept) → decode? s = some a
  /-- Every table is read field by field, with default values for missing fields. -/
  reads : ReadsFields α r fields

theorem goesThrough {r : Record} {fields : α → List StoredField} (h : StoresFields α r fields) :
    GoesThrough α r fields where
  roundTrips a :=
    have := h.lawfulStorable
    Json.roundTrips a
  decode?_part _ _ _ hkept hs :=
    (decode?_of_isTextOf hs).trans (h.ofDocument?_tableOf hkept .json)
  reads := h.reads

example : decode? "\x7b\"split_by_language\":false,\"generate_64_bit_shard\":true\x7d" =
    some (⟨false, true⟩ : ShardingOptions) := by cbv

example : decode? "\x7b \"alternatives\" : [\"x86\"] \x7d" =
    some (⟨∅, .singleton .x86⟩ : Selection Abi) := by cbv

end Json

/-! ## Refusals -/

/-- A table has a field that is not among those of a record. -/
def HasUnknown (r : Record) : Document → Prop
  | .table fs => ∃ p ∈ fs, p.1 ∉ r.names
  | _ => False

section Refusals

variable {α : Type} [Storable α] {r : Record} {fields : α → List StoredField} {format : Format}
  {d : Document} {fs : List (String × Document)} {name : String}

/-- A record that forbids other fields is not read from a table with an unknown one. -/
theorem ReadsFields.eq_none_of_hasUnknown (h : ReadsFields α r fields)
    (hstrict : r.extensible = false) (hd : HasUnknown r d) (format : Format) :
    (ofDocument? format d : Option α) = none := by
  cases d with
  | table fs =>
    obtain ⟨p, hp, hname⟩ := hd
    refine Option.eq_none_iff_forall_ne_some.mpr fun a ha => ?_
    rcases ((h format fs a).mp ha).1 with hextensible | hknown
    · rw [hstrict] at hextensible
      cases hextensible
    · exact hname (hknown p hp)
  | null | bool | int | other | text | list => exact hd.elim

/-- A record is not read if no value is read from what stands in one of its fields. -/
theorem ReadsFields.eq_none_of_optional {β : Type} [Storable β] [LawfulStorable β] [DecidableEq β]
    (h : ReadsFields α r fields) (default : β) (part : α → β)
    (hfield : ∀ a, StoredField.optional default name (part a) ∈ fields a)
    (hlookup : fs.lookup name = some d) (hnone : (ofDocument? format d : Option β) = none) :
    (ofDocument? format (.table fs) : Option α) = none := by
  refine Option.eq_none_iff_forall_ne_some.mpr fun a ha => ?_
  have hfound := ((h format fs a).mp ha).2 _ (hfield a)
  rw [StoredField.isFoundIn_optional, hlookup, optional, hnone] at hfound
  cases hfound

/-- A list is not read if one of its items is not. -/
theorem ofDocument?_list_eq_none {ds : List Document} (hd : d ∈ ds)
    (h : (ofDocument? format d : Option α) = none) :
    (ofDocument? format (.list ds) : Option (List α)) = none := by
  change ds.mapM (ofDocument? format) = none
  induction ds with
  | nil => cases hd
  | cons e ds ih =>
    rw [List.mapM_cons]
    rcases List.mem_cons.mp hd with rfl | hd
    · rw [h]
      rfl
    · cases hread : (ofDocument? format e : Option α) with
      | none => rfl
      | some a =>
        rw [ih hd]
        rfl

/-- A value that may be missing is not read from a table if no value is. -/
theorem ofDocument?_option_eq_none (hd : HasUnknown r d)
    (h : (ofDocument? format d : Option α) = none) :
    (ofDocument? format d : Option (Option α)) = none := by
  cases d with
  | table fs =>
    change (ofDocument? format (.table fs) : Option α).map some = none
    rw [h, Option.map_none]
  | null | bool | int | other | text | list => exact hd.elim

end Refusals

/-- Some field in the document of a manifest is unknown, in the manifest itself or in one of its
parts. -/
inductive Manifest.HasUnknownField : Document → Prop
  | manifest {d : Document} (h : HasUnknown Manifest.record d) : HasUnknownField d
  | sharding {fs : List (String × Document)} {d : Document} (hd : fs.lookup "sharding" = some d)
      (h : HasUnknown ShardingSection.record d) : HasUnknownField (.table fs)
  | device {fs : List (String × Document)} {d : Document} (hd : fs.lookup "device" = some d)
      (h : HasUnknown Device.record d) : HasUnknownField (.table fs)
  | module {fs : List (String × Document)} {ds : List Document} {d : Document}
      (hds : fs.lookup "modules" = some (.list ds)) (hd : d ∈ ds)
      (h : HasUnknown ModuleSection.record d) : HasUnknownField (.table fs)

/-- A device with an unknown field is refused. -/
theorem Device.eq_none_of_hasUnknown {d : Document} (h : HasUnknown Device.record d)
    (format : Format) : (ofDocument? format d : Option Device) = none :=
  Device.storesFields.reads.eq_none_of_hasUnknown rfl h format

/-- A manifest with an unknown field anywhere is refused. -/
theorem Manifest.eq_none_of_hasUnknownField {d : Document} (h : HasUnknownField d)
    (format : Format) : (ofDocument? format d : Option Manifest) = none := by
  have hreads := Manifest.storesFields.reads
  cases h with
  | manifest h => exact hreads.eq_none_of_hasUnknown rfl h format
  | sharding hd h =>
    have hnone := ShardingSection.storesFields.reads.eq_none_of_hasUnknown rfl h format
    exact hreads.eq_none_of_optional {} sharding (fun m => by simp [fields]) hd hnone
  | device hd h =>
    have hnone := ofDocument?_option_eq_none h (Device.eq_none_of_hasUnknown h format)
    exact hreads.eq_none_of_optional none device (fun m => by simp [fields]) hd hnone
  | module hds hd h =>
    have hnone := ModuleSection.storesFields.reads.eq_none_of_hasUnknown rfl h format
    exact hreads.eq_none_of_optional [] modules (fun m => by simp [fields]) hds
      (ofDocument?_list_eq_none hd hnone)

/-- Only the fields that do not have their default values are written. -/
def LeavesOutDefaults (α : Type) [Storable α] (fields : α → List StoredField) : Prop :=
  ∀ a, toDocument a = tableOf (withoutDefaults (fields a))

open Json (GoesThrough goesThrough decode?)

/-- The values that bundles consist of go through JSON unchanged. What is empty in a targeting is
left out, missing fields have their default values, and unknown fields of manifests and devices are
refused. -/
theorem goesThrough_bundles :
    GoesThrough Targeting Targeting.record Targeting.fields ∧
    GoesThrough (Selection Abi) Selection.record Selection.fields ∧
    GoesThrough (Selection Density) Selection.record Selection.fields ∧
    GoesThrough (Selection Language) Selection.record Selection.fields ∧
    GoesThrough (Selection AbiSet) Selection.record Selection.fields ∧
    GoesThrough Device Device.record Device.fields ∧
    GoesThrough ShardingOptions ShardingOptions.record ShardingOptions.fields ∧
    GoesThrough Manifest Manifest.record Manifest.fields ∧
    GoesThrough ShardingSection ShardingSection.record ShardingSection.fields ∧
    GoesThrough ModuleSection ModuleSection.record ModuleSection.fields ∧
    GoesThrough BundleSpec BundleSpec.record BundleSpec.fields ∧
    LeavesOutDefaults Targeting Targeting.fields ∧
    LeavesOutDefaults (Selection Abi) Selection.fields ∧
    LeavesOutDefaults (Selection Density) Selection.fields ∧
    LeavesOutDefaults (Selection Language) Selection.fields ∧
    LeavesOutDefaults (Selection AbiSet) Selection.fields ∧
    (∀ (s : String) (d : Document), read? s = some d →
      (Manifest.HasUnknownField d → decode? s = (none : Option Manifest)) ∧
        (HasUnknown Device.record d → decode? s = (none : Option Device))) := by
  refine ⟨goesThrough Targeting.storesFields, goesThrough Selection.storesFields,
    goesThrough Selection.storesFields, goesThrough Selection.storesFields,
    goesThrough Selection.storesFields, goesThrough Device.storesFields,
    goesThrough ShardingOptions.storesFields, goesThrough Manifest.storesFields,
    goesThrough ShardingSection.storesFields, goesThrough ModuleSection.storesFields,
    goesThrough BundleSpec.storesFields, Targeting.toDocument_eq, Selection.toDocument_eq,
    Selection.toDocument_eq, Selection.toDocument_eq, Selection.toDocument_eq, ?_⟩
  intro s d hread
  rw [decode?, decode?, hread]
  exact ⟨fun h => Manifest.eq_none_of_hasUnknownField h .json,
    fun h => Device.eq_none_of_hasUnknown h .json⟩

end AppBundle
