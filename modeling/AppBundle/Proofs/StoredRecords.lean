import AppBundle.BundleSpec
import AppBundle.Proofs.StoredFields
import Mathlib.Tactic.Tauto

/-!
# Stored records

The fields of targetings, devices, the options of sharding, manifests and checked manifests, with
the values that missing fields have. Each of these records is stored field by field, and so its
values are read back from their documents.
-/

namespace AppBundle

namespace ShardingOptions

/-- The fields of the options of sharding. -/
def fields (o : ShardingOptions) : List StoredField :=
  [.required "generate_64_bit_shard" o.generate64Bit,
    .required "split_by_language" o.splitByLanguage]

theorem storesFields : StoresFields ShardingOptions record fields where
  reads format fs o := by
    obtain ⟨splitByLanguage, generate64Bit⟩ := o
    simp [-Bool.exists_bool, ofDocument?, Option.bind_eq_some_iff, record, fields, and_comm]
  written o := ⟨o.fields, .refl _, rfl⟩
  names_increasing _ := by
    change List.Pairwise _ ["generate_64_bit_shard", "split_by_language"]
    decide
  names_mem _ := by simp [fields, record]

end ShardingOptions

namespace Selection

variable {α : Type} [Ord α] [Std.TransOrd α] [Std.LawfulEqOrd α] [DecidableEq α] [Storable α]
  [LawfulStorable α]

/-- The fields of the targeting in one dimension. -/
def fields (s : Selection α) : List StoredField :=
  [.optional ∅ "alternatives" s.alternatives, .optional ∅ "value" s.values]

/-- What is empty in one dimension is left out. -/
theorem toDocument_eq (s : Selection α) : toDocument s = tableOf (withoutDefaults s.fields) := by
  change Document.table (_ ++ _) = _
  rw [fieldUnless_eq OrderedSet.isEmpty_iff, fieldUnless_eq OrderedSet.isEmpty_iff,
    ← List.map_append, ← withoutDefaults_append]
  rfl

theorem storesFields : StoresFields (Selection α) record fields where
  reads format fs s := by
    obtain ⟨values, alternatives⟩ := s
    simp [ofDocument?, Option.bind_eq_some_iff, record, fields, and_comm]
  written s := ⟨_, keeps_withoutDefaults _, s.toDocument_eq⟩
  names_increasing _ := by
    change List.Pairwise _ ["alternatives", "value"]
    decide
  names_mem _ := by simp [fields, record]

instance : LawfulStorable (Selection α) := storesFields.lawfulStorable

end Selection

namespace Targeting

/-- The fields of a targeting. -/
def fields (t : Targeting) : List StoredField :=
  [.optional ∅ "abi" t.abi, .optional ∅ "language" t.language, .optional ∅ "multi_abi" t.multiAbi,
    .optional ∅ "screen_density" t.density]

/-- The dimensions that are not targeted are left out. -/
theorem toDocument_eq (t : Targeting) : toDocument t = tableOf (withoutDefaults t.fields) := by
  change Document.table (_ ++ _ ++ _ ++ _) = _
  simp only [fieldUnless_eq Selection.isEmpty_iff, ← List.map_append, ← withoutDefaults_append]
  rfl

example : toDocument (forLanguage ⟨"fr"⟩) =
    .table [("language", .table [("value", .list [.text "fr"])])] := rfl

theorem storesFields : StoresFields Targeting record fields where
  reads format fs t := by
    obtain ⟨abi, density, language, multiAbi⟩ := t
    simp [ofDocument?, Option.bind_eq_some_iff, record, fields]
    tauto
  written t := ⟨_, keeps_withoutDefaults _, t.toDocument_eq⟩
  names_increasing _ := by
    change List.Pairwise _ ["abi", "language", "multi_abi", "screen_density"]
    decide
  names_mem _ := by simp [fields, record]

end Targeting

namespace Device

/-- The fields of a device. -/
def fields (d : Device) : List StoredField :=
  [.required "screen_density" d.screenDensity, .optional [] "supported_abis" d.supportedAbis,
    .optional [] "supported_locales" d.supportedLocales]

theorem storesFields : StoresFields Device record fields where
  reads format fs d := by
    obtain ⟨abis, density, locales⟩ := d
    simp [ofDocument?, Option.bind_eq_some_iff, record, fields]
    tauto
  written d := ⟨d.fields, .refl _, rfl⟩
  names_increasing _ := by
    change List.Pairwise _ ["screen_density", "supported_abis", "supported_locales"]
    decide
  names_mem _ := by simp [fields, record]

end Device

namespace ShardingSection

/-- The fields of the part of a manifest on sharding. -/
def fields (s : ShardingSection) : List StoredField :=
  [.optional [] "dimensions" s.dimensions, .optional true "generate_64_bit_shard" s.generate64Bit,
    .optional true "split_by_language" s.splitByLanguage]

theorem storesFields : StoresFields ShardingSection record fields where
  reads format fs s := by
    obtain ⟨dimensions, splitByLanguage, generate64Bit⟩ := s
    simp [-Bool.exists_bool, ofDocument?, Option.bind_eq_some_iff, record, fields]
    tauto
  written s := ⟨s.fields, .refl _, rfl⟩
  names_increasing _ := by
    change List.Pairwise _ ["dimensions", "generate_64_bit_shard", "split_by_language"]
    decide
  names_mem _ := by simp [fields, record]

end ShardingSection

namespace ModuleSection

/-- The fields of the part of a manifest on one module. -/
def fields (m : ModuleSection) : List StoredField :=
  [.optional true "include_in_fusing" m.fused, .required "name" m.name, .required "path" m.path]

theorem storesFields : StoresFields ModuleSection record fields where
  reads format fs m := by
    obtain ⟨name, path, fused⟩ := m
    simp [-Bool.exists_bool, ofDocument?, Option.bind_eq_some_iff, record, fields]
    tauto
  written m := ⟨m.fields, .refl _, rfl⟩
  names_increasing _ := by
    change List.Pairwise _ ["include_in_fusing", "name", "path"]
    decide
  names_mem _ := by simp [fields, record]

end ModuleSection

instance : LawfulStorable ShardingOptions := ShardingOptions.storesFields.lawfulStorable

instance : LawfulStorable Targeting := Targeting.storesFields.lawfulStorable

instance : LawfulStorable Device := Device.storesFields.lawfulStorable

instance : LawfulStorable (Option Device) := .option fun _ => by nofun

instance : LawfulStorable ShardingSection := ShardingSection.storesFields.lawfulStorable

instance : LawfulStorable ModuleSection := ModuleSection.storesFields.lawfulStorable

namespace Manifest

/-- The fields of a manifest. -/
def fields (m : Manifest) : List StoredField :=
  [.optional none "device" m.device, .required "manifest_version" m.version,
    .optional ∅ "metadata" m.metadata, .optional [] "modules" m.modules,
    .optional {} "sharding" m.sharding]

theorem storesFields : StoresFields Manifest record fields where
  reads format fs m := by
    obtain ⟨version, sharding, device, metadata, modules⟩ := m
    simp [ofDocument?, Option.bind_eq_some_iff, record, fields]
    tauto
  written m := ⟨m.fields, .refl _, rfl⟩
  names_increasing _ := by
    change List.Pairwise _ ["device", "manifest_version", "metadata", "modules", "sharding"]
    decide
  names_mem _ := by simp [fields, record]

end Manifest

namespace MetadataSource

/-- The fields of a metadata file. -/
def fields (m : MetadataSource) : List StoredField :=
  [.required "path" m.path, .required "source" m.source]

theorem storesFields : StoresFields MetadataSource record fields where
  reads format fs m := by
    obtain ⟨path, source⟩ := m
    simp [ofDocument?, Option.bind_eq_some_iff, record, fields]
  written m := ⟨m.fields, .refl _, rfl⟩
  names_increasing _ := by
    change List.Pairwise _ ["path", "source"]
    decide
  names_mem _ := by simp [fields, record]

end MetadataSource

namespace ModuleSource

/-- The fields of a module. -/
def fields (m : ModuleSource) : List StoredField :=
  [.required "include_in_fusing" m.fused, .required "name" m.name, .required "path" m.path]

theorem storesFields : StoresFields ModuleSource record fields where
  reads format fs m := by
    obtain ⟨name, path, fused⟩ := m
    simp [-Bool.exists_bool, ofDocument?, Option.bind_eq_some_iff, record, fields]
    tauto
  written m := ⟨m.fields, .refl _, rfl⟩
  names_increasing _ := by
    change List.Pairwise _ ["include_in_fusing", "name", "path"]
    decide
  names_mem _ := by simp [fields, record]

end ModuleSource

instance : LawfulStorable Manifest := Manifest.storesFields.lawfulStorable

instance : LawfulStorable MetadataSource := MetadataSource.storesFields.lawfulStorable

instance : LawfulStorable ModuleSource := ModuleSource.storesFields.lawfulStorable

namespace BundleSpec

/-- The fields of a checked manifest. -/
def fields (s : BundleSpec) : List StoredField :=
  [.optional none "device" s.device, .required "dimensions" s.dimensions,
    .required "manifest_version" s.version, .required "metadata" s.metadata,
    .required "modules" s.modules, .required "options" s.options]

theorem storesFields : StoresFields BundleSpec record fields where
  reads format fs s := by
    obtain ⟨version, dimensions, options, device, metadata, modules⟩ := s
    simp [ofDocument?, Option.bind_eq_some_iff, record, fields]
    tauto
  written s := ⟨s.fields, .refl _, rfl⟩
  names_increasing _ := by
    change List.Pairwise _
      ["device", "dimensions", "manifest_version", "metadata", "modules", "options"]
    decide
  names_mem _ := by simp [fields, record]

end BundleSpec

end AppBundle
