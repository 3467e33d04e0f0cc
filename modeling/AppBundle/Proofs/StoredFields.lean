import AppBundle.Document.Targeting
import AppBundle.Proofs.FirstOccurrences
import AppBundle.Proofs.JsonTexts
import Mathlib.Data.List.Nodup

/-!
# Stored values

A value that is stored in a document is read back from it. A record is stored field by field. This
file says, once for all records, which tables are read as which value: one may leave out fields that
have their default values, and must not add any if the record forbids it. The table that is written
is then read as the value it was written from.
-/

namespace AppBundle

open Document (Record)
open Json (IsPlain)

/-- Values that are read back from their documents. -/
class LawfulStorable (α : Type) [Storable α] : Prop where
  /-- The document of a value can be written in JSON. -/
  isPlain_toDocument (a : α) : IsPlain (toDocument a)
  /-- The document of a value is read as the value. -/
  ofDocument?_toDocument (format : Format) (a : α) : ofDocument? format (toDocument a) = some a

open LawfulStorable (isPlain_toDocument ofDocument?_toDocument)

/-! ## Values without fields -/

instance : LawfulStorable Bool := ⟨.bool, fun _ _ => rfl⟩

instance : LawfulStorable String := ⟨.text, fun _ _ => rfl⟩

instance : LawfulStorable Language := ⟨fun l => .text l.code, fun _ _ => rfl⟩

instance : LawfulStorable UInt32 where
  isPlain_toDocument n := .int n.toNat
  ofDocument?_toDocument format n := by
    have hlt := n.toNat_lt
    have hrange : (0 : Int) ≤ n.toNat ∧ (n.toNat : Int) < 4294967296 := by omega
    change Document.word? (.int n.toNat) = some n
    rw [Document.word?, if_pos hrange, Int.toNat_natCast, UInt32.ofNat_toNat]

instance : LawfulStorable Abi where
  isPlain_toDocument a := .text a.name
  ofDocument?_toDocument _ _ := Abi.ofName?_eq_some_iff.mpr rfl

instance : LawfulStorable Density where
  isPlain_toDocument d := .text d.name
  ofDocument?_toDocument _ _ := Density.ofName?_eq_some_iff.mpr rfl

instance : LawfulStorable Dimension where
  isPlain_toDocument d := .text d.name
  ofDocument?_toDocument _ _ := Dimension.ofName?_eq_some_iff.mpr rfl

section Containers

/-- A list is read back if each of its items is. -/
theorem mapM_map_eq_some {β γ : Type} {read : γ → Option β} {write : β → γ}
    (h : ∀ b, read (write b) = some b) (bs : List β) : (bs.map write).mapM read = some bs := by
  induction bs with
  | nil => rfl
  | cons b bs ih => simp [h, ih]

variable {α : Type} [Storable α] [LawfulStorable α]

instance : LawfulStorable (List α) where
  isPlain_toDocument xs := by
    refine .list fun d hd => ?_
    obtain ⟨x, -, rfl⟩ := List.mem_map.mp hd
    exact isPlain_toDocument x
  ofDocument?_toDocument format xs := mapM_map_eq_some (ofDocument?_toDocument format) xs

instance [Ord α] [Std.TransOrd α] [Std.LawfulEqOrd α] : LawfulStorable (OrderedSet α) where
  isPlain_toDocument s := isPlain_toDocument s.toList
  ofDocument?_toDocument format s := by
    change (ofDocument? format (toDocument s.toList)).map OrderedSet.ofList = some s
    rw [ofDocument?_toDocument, Option.map_some, OrderedSet.ofList_toList]

/-- A pair of a map that is read from a field. -/
def pairOfField? (format : Format) (f : String × Document) : Option (String × α) := do
  return (f.1, ← ofDocument? format f.2)

theorem pairOfField?_toDocument (format : Format) (p : String × α) :
    pairOfField? format (p.1, toDocument p.2) = some p := by
  simp [pairOfField?, ofDocument?_toDocument]

instance : LawfulStorable (OrderedMap String α) where
  isPlain_toDocument m := by
    refine .table ?_ fun f hf => ?_
    · rw [List.map_map]
      exact m.increasing
    · obtain ⟨p, -, rfl⟩ := List.mem_map.mp hf
      exact isPlain_toDocument p.2
  ofDocument?_toDocument format m := by
    change ((m.toList.map fun p => (p.1, toDocument p.2)).mapM (pairOfField? format)).bind _ = _
    rw [mapM_map_eq_some (pairOfField?_toDocument format), Option.bind_some,
      OrderedMap.ofList_toList]
    rfl

/-- A value that may be missing is read back if no value is stored as nothing. -/
theorem LawfulStorable.option (h : ∀ a : α, toDocument a ≠ .null) : LawfulStorable (Option α) where
  isPlain_toDocument
    | none => .null
    | some a => isPlain_toDocument a
  ofDocument?_toDocument format
    | none => rfl
    | some a => by
      have hread : (ofDocument? format (toDocument (some a)) : Option (Option α)) =
          (ofDocument? format (toDocument a) : Option α).map some := by
        have hsome : toDocument (some a) = toDocument a := rfl
        rw [hsome]
        cases hd : toDocument a with
        | null => exact absurd hd (h a)
        | bool | int | other | text | list | table => rfl
      rw [hread, ofDocument?_toDocument, Option.map_some]

end Containers

/-! ## Records -/

/-- A field of a record with its value, which is read back from its document. -/
structure StoredField where
  /-- The name of the field. -/
  name : String
  /-- The document of the value. -/
  document : Document
  /-- The value is read from a document. -/
  IsReadFrom : Format → Document → Prop
  /-- Whether the field has this value where it is missing. -/
  isDefault : Bool
  /-- The document can be written in JSON. -/
  isPlain : IsPlain document
  /-- The value is read from its own document. -/
  isReadFrom : ∀ format, IsReadFrom format document

namespace StoredField

variable {α : Type} [Storable α] [LawfulStorable α] {format : Format}
  {fs : List (String × Document)} {name : String} {a : α}

/-- A field that must be there. -/
def required (name : String) (a : α) : StoredField where
  name := name
  document := toDocument a
  IsReadFrom format d := ofDocument? format d = some a
  isDefault := false
  isPlain := isPlain_toDocument a
  isReadFrom format := ofDocument?_toDocument format a

/-- A field that has a default value. -/
def optional [DecidableEq α] (default : α) (name : String) (a : α) : StoredField :=
  { required name a with isDefault := a = default }

/-- The field in a table. -/
def entry (f : StoredField) : String × Document := (f.name, f.document)

/-- A table has the value of the field under its name, or nothing in place of the default. -/
def IsFoundIn (format : Format) (fs : List (String × Document)) (f : StoredField) : Prop :=
  match fs.lookup f.name with
  | some d => f.IsReadFrom format d
  | none => f.isDefault

@[simp] theorem name_required : (required name a).name = name := rfl

@[simp] theorem name_optional [DecidableEq α] {default : α} :
    (optional default name a).name = name := rfl

@[simp] theorem isFoundIn_required : (required name a).IsFoundIn format fs ↔
    AppBundle.required format (fs.lookup name) = some a := by
  unfold IsFoundIn AppBundle.required
  cases hd : fs.lookup name <;> simp [required, hd]

@[simp] theorem isFoundIn_optional [DecidableEq α] {default : α} :
    (optional default name a).IsFoundIn format fs ↔
      AppBundle.optional format default (fs.lookup name) = some a := by
  unfold IsFoundIn AppBundle.optional
  cases hd : fs.lookup name <;> simp [optional, required, hd, eq_comm]

end StoredField

/-- A table of fields. -/
def tableOf (fields : List StoredField) : Document := .table (fields.map StoredField.entry)

/-- Some fields of a record, among them all that do not have their default values. -/
structure Keeps (all kept : List StoredField) : Prop where
  sublist : kept.Sublist all
  mem : ∀ f ∈ all, f.isDefault = false → f ∈ kept

theorem Keeps.refl (all : List StoredField) : Keeps all all := ⟨.refl _, fun _ h _ => h⟩

/-- The fields that do not have their default values. -/
def withoutDefaults (all : List StoredField) : List StoredField := all.filter fun f => !f.isDefault

theorem keeps_withoutDefaults (all : List StoredField) : Keeps all (withoutDefaults all) :=
  ⟨List.filter_sublist, fun f hf hdefault => List.mem_filter.mpr ⟨hf, by simp [hdefault]⟩⟩

/-- The values of a record type are read field by field. A table is read as a value if it has no
field that the record does not allow, and the value of each field under its name. -/
def ReadsFields (α : Type) [Storable α] (r : Record) (fields : α → List StoredField) : Prop :=
  ∀ (format : Format) (fs : List (String × Document)) (a : α),
    ofDocument? format (.table fs) = some a ↔
      (r.extensible ∨ ∀ p ∈ fs, p.1 ∈ r.names) ∧ ∀ f ∈ fields a, f.IsFoundIn format fs

/-- The values of a record type are stored as tables of their fields. -/
structure StoresFields (α : Type) [Storable α] (r : Record) (fields : α → List StoredField) :
    Prop where
  /-- The tables are read field by field. -/
  reads : ReadsFields α r fields
  /-- The document is a table of the fields, some of which may be left out. -/
  written : ∀ a, ∃ kept, Keeps (fields a) kept ∧ toDocument a = tableOf kept
  /-- The fields are in the order of their names. -/
  names_increasing : ∀ a, ((fields a).map StoredField.name).Pairwise (compare · · = .lt)
  /-- The record allows all of them. -/
  names_mem : ∀ a, ∀ f ∈ fields a, f.name ∈ r.names

/-- A field that is kept is looked up under its name, and no other field is. -/
theorem lookup_map_entry {all kept : List StoredField} {f : StoredField}
    (hnames : (all.map StoredField.name).Nodup) (hkept : kept.Sublist all) (hf : f ∈ all) :
    (kept.map StoredField.entry).lookup f.name = some f.document ∨
      f ∉ kept ∧ (kept.map StoredField.entry).lookup f.name = none := by
  by_cases hmem : f ∈ kept
  · refine .inl (lookup_of_mem (p := f.entry) ?_ (List.mem_map_of_mem hmem))
    rw [List.map_map]
    exact hnames.sublist (hkept.map StoredField.name)
  · refine .inr ⟨hmem, List.lookup_eq_none_iff.mpr fun p hp => ?_⟩
    obtain ⟨g, hg, rfl⟩ := List.mem_map.mp hp
    rw [bne_iff_ne]
    intro hname
    exact hmem (List.inj_on_of_nodup_map hnames hf (hkept.mem hg) hname ▸ hg)

section Records

variable {α : Type} [Storable α] {r : Record} {fields : α → List StoredField} {a : α}
  {kept : List StoredField}

/-- A table of the fields that do not have their default values, and maybe of some others, is read
as the value. -/
theorem StoresFields.ofDocument?_tableOf (h : StoresFields α r fields)
    (hkept : Keeps (fields a) kept) (format : Format) :
    ofDocument? format (tableOf kept) = some a := by
  refine (h.reads format _ a).mpr ⟨.inr fun p hp => ?_, fun f hf => ?_⟩
  · obtain ⟨f, hf, rfl⟩ := List.mem_map.mp hp
    exact h.names_mem a f (hkept.sublist.mem hf)
  · have hnames := OrderedSet.nodup_toList ⟨_, h.names_increasing a⟩
    unfold StoredField.IsFoundIn
    rcases lookup_map_entry hnames hkept.sublist hf with hsome | ⟨hmem, hnone⟩
    · rw [hsome]
      exact f.isReadFrom format
    · rw [hnone]
      by_contra hdefault
      exact hmem (hkept.mem f hf (Bool.eq_false_iff.mpr hdefault))

theorem StoresFields.isPlain_tableOf (h : StoresFields α r fields)
    (hkept : kept.Sublist (fields a)) : IsPlain (tableOf kept) := by
  refine .table ?_ fun p hp => ?_
  · rw [List.map_map]
    exact (h.names_increasing a).sublist (hkept.map StoredField.name)
  · obtain ⟨f, hf, rfl⟩ := List.mem_map.mp hp
    exact f.isPlain

theorem StoresFields.lawfulStorable (h : StoresFields α r fields) : LawfulStorable α where
  isPlain_toDocument a := by
    obtain ⟨kept, hkept, hwritten⟩ := h.written a
    exact hwritten ▸ h.isPlain_tableOf hkept.sublist
  ofDocument?_toDocument format a := by
    obtain ⟨kept, hkept, hwritten⟩ := h.written a
    exact hwritten ▸ h.ofDocument?_tableOf hkept format

end Records

/-! ## Tables of records -/

@[simp] theorem fields?_table_eq_some_iff {format : Format} {r : Record}
    {fs : List (String × Document)} {found : List (Option Document)} :
    (Document.table fs).fields? format r = some found ↔
      (r.extensible ∨ ∀ p ∈ fs, p.1 ∈ r.names) ∧ r.names.map (fs.lookup ·) = found := by
  unfold Document.fields?
  simp

/-- A field that is left out if it is empty is one that is left out if it has its default value. -/
theorem fieldUnless_eq {α : Type} [Storable α] [LawfulStorable α] [DecidableEq α]
    {isEmpty : Bool} {default a : α} (h : isEmpty ↔ a = default) (name : String) :
    fieldUnless isEmpty name a =
      (withoutDefaults [.optional default name a]).map StoredField.entry := by
  by_cases ha : a = default
  · simp [fieldUnless, withoutDefaults, StoredField.optional, ha, h.mpr ha]
  · simp [fieldUnless, withoutDefaults, StoredField.optional, StoredField.required,
      StoredField.entry, ha, mt h.mp ha]

theorem withoutDefaults_append (fs gs : List StoredField) :
    withoutDefaults (fs ++ gs) = withoutDefaults fs ++ withoutDefaults gs :=
  List.filter_append ..

end AppBundle
