import AppBundle.OrderedMap
import AppBundle.OrderedSet

/-!
# Documents

The values of the two document formats, JSON for output and TOML for manifests,
and the ways to take them apart that both formats share. A class tells how the
values of a type are stored in documents.
-/

namespace AppBundle

/-- A value of a document. -/
inductive Document where
  | null
  | bool (b : Bool)
  | int (n : Int)
  /-- A scalar of another kind, such as a number with a fraction. -/
  | other (scalar : String)
  | text (s : String)
  | list (items : List Document)
  | table (fields : List (String × Document))
  deriving Inhabited

/-- The formats that a document can have come from. -/
inductive Format where
  | json
  | toml
  deriving DecidableEq, Inhabited

namespace Document

/-- The truth value. -/
def bool? : Document → Option Bool
  | bool b => some b
  | _ => none

/-- The text. -/
def text? : Document → Option String
  | text s => some s
  | _ => none

/-- The whole number below 2^32. -/
def word? : Document → Option UInt32
  | int n => if 0 ≤ n ∧ n < 4294967296 then some (UInt32.ofNat n.toNat) else none
  | _ => none

/-- The items of a list. -/
def items? : Document → Option (List Document)
  | list items => some items
  | _ => none

/-- Whether the value can stand beside the name of a variant that carries nothing. -/
def isNothing (format : Format) : Document → Bool
  | null => format = .json
  | list items => format = .toml && items.isEmpty
  | table fields => format = .toml && fields.isEmpty
  | bool _ | int _ | other _ | text _ => false

/-- The variant of an enumeration: its name, or a table with the name as its only
field and nothing beside it. -/
def variant? {α : Type} (format : Format) (ofName? : String → Option α) : Document → Option α
  | text name => ofName? name
  | table [(name, payload)] => if payload.isNothing format then ofName? name else none
  | _ => none

/-- How the fields of a record are read. -/
structure Record where
  /-- The names of the fields, in the order in which a list gives them. -/
  names : List String
  /-- Whether a table may have other fields. -/
  extensible : Bool

/-- The fields of a record, in the order of their names. A record is a table, or
a list of the first fields; only TOML lets the list be longer than the record. -/
def fields? (format : Format) (r : Record) : Document → Option (List (Option Document))
  | table fields =>
    if r.extensible || fields.all (·.1 ∈ r.names) then
      some (r.names.map fun name => fields.lookup name)
    else none
  | list items =>
    if format = .json && r.names.length < items.length then none
    else some ((List.range r.names.length).map fun i => items[i]?)
  | _ => none

end Document

/-- The values that documents can hold. -/
class Storable (α : Type) where
  /-- The document of a value. -/
  toDocument : α → Document
  /-- The value of a document. -/
  ofDocument? : Format → Document → Option α

export Storable (toDocument ofDocument?)

/-- A field that must be there. -/
def required {α : Type} [Storable α] (format : Format) (d : Option Document) : Option α :=
  d.bind (ofDocument? format)

/-- A field that has a default value. -/
def optional {α : Type} [Storable α] (format : Format) (default : α) :
    Option Document → Option α
  | none => some default
  | some d => ofDocument? format d

instance : Storable Bool := ⟨.bool, fun _ => Document.bool?⟩

instance : Storable String := ⟨.text, fun _ => Document.text?⟩

instance : Storable UInt32 := ⟨fun n => .int n.toNat, fun _ => Document.word?⟩

instance {α : Type} [Storable α] : Storable (List α) where
  toDocument xs := .list (xs.map toDocument)
  ofDocument? format d := do (← d.items?).mapM (ofDocument? format)

instance {α : Type} [Storable α] : Storable (Option α) where
  toDocument
    | none => .null
    | some a => toDocument a
  ofDocument? format
    | .null => some none
    | d => (ofDocument? format d).map some

instance {α : Type} [Ord α] [Std.TransOrd α] [Std.LawfulEqOrd α] [Storable α] :
    Storable (OrderedSet α) where
  toDocument s := toDocument s.toList
  ofDocument? format d := (ofDocument? format d).map OrderedSet.ofList

instance {α : Type} [Storable α] : Storable (OrderedMap String α) where
  toDocument m := .table (m.toList.map fun (k, v) => (k, toDocument v))
  ofDocument? format
    | .table fields => do
      let pairs ← fields.mapM fun (k, d) => do return (k, ← ofDocument? format d)
      return .ofList pairs
    | _ => none

end AppBundle
