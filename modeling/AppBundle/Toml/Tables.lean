import AppBundle.Document

/-!
# Tables of TOML

How the keys and headers of a text build up nested tables. A table comes about by
a header of its own, by a header of a table inside it, or by a key with dots, and
that decides how it can grow later.
-/

namespace AppBundle.Toml

/-- How a table has come about. -/
inductive Origin where
  /-- By a header of its own, or as the whole text. -/
  | declared
  /-- By a header of a table inside it. -/
  | implied
  /-- By a key with dots. -/
  | dotted
  deriving DecidableEq

/-- What a key stands for while tables are built up. -/
inductive Item where
  /-- A finished value. -/
  | value (d : Document)
  /-- A table that can grow. -/
  | table (origin : Origin) (fields : List (String × Item))
  /-- A list of tables, the last of which can grow. -/
  | tables (finished : List (List (String × Item))) (last : List (String × Item))

/-- The fields of a table. -/
abbrev Fields := List (String × Item)

/-- Changes what a key stands for; there may be nothing before. -/
def alter (key : String) (change : Option Item → Option Item) : Fields → Option Fields
  | [] => do return [(key, ← change none)]
  | (k, item) :: rest =>
    if k = key then do return (k, ← change (some item)) :: rest
    else do return (k, item) :: (← alter key change rest)

/-- Changes the table at the end of a path, making the tables on the way that are
not there yet. A key with dots does not lead through tables that have headers. -/
def descend (dotted : Bool) (change : Origin → Fields → Option Fields) :
    List String → Origin → Fields → Option Fields
  | [], origin, fields => change origin fields
  | key :: path, _, fields =>
    alter key
      (fun
        | none =>
          let origin := if dotted then Origin.dotted else Origin.implied
          (descend dotted change path origin []).map (.table origin)
        | some (.value _) => none
        | some (.tables finished last) =>
          (descend dotted change path .declared last).map (.tables finished)
        | some (.table origin inner) =>
          if dotted && origin = .declared then none
          else (descend dotted change path origin inner).map (.table origin))
      fields

/-- Puts a value at the end of a path of keys. The last key must be new, and a path
of several keys must end in a table that such paths have made. -/
def insertValue (path : List String) (key : String) (d : Document) (fields : Fields) :
    Option Fields :=
  descend true
    (fun origin inner =>
      if decide (origin = .dotted) = path.isEmpty then none
      else alter key (fun old => if old.isSome then none else some (.value d)) inner)
    path .declared fields

/-- Declares a table by a header. -/
def declareTable (path : List String) (key : String) (fields : Fields) : Option Fields :=
  descend false
    (fun _ =>
      alter key fun
        | none => some (.table .declared [])
        | some (.table .implied inner) => some (.table .declared inner)
        | some _ => none)
    path .declared fields

/-- Adds a table to a list of tables by a header. -/
def appendTable (path : List String) (key : String) (fields : Fields) : Option Fields :=
  descend false
    (fun _ =>
      alter key fun
        | none => some (.tables [] [])
        | some (.tables finished last) => some (.tables (finished ++ [last]) [])
        | some _ => none)
    path .declared fields

/-- Changes the table that the last header has named. -/
def inTable (header : List String) (change : Fields → Option Fields) (fields : Fields) :
    Option Fields :=
  descend false (fun _ => change) header .declared fields

mutual

/-- The document of what a key stands for. -/
def Item.toDocument : Item → Document
  | .value d => d
  | .table _ fields => .table (fieldsToDocument fields)
  | .tables finished last => .list (tablesToDocument finished ++ [.table (fieldsToDocument last)])

/-- The documents of the fields of a table. -/
def fieldsToDocument : Fields → List (String × Document)
  | [] => []
  | (key, item) :: rest => (key, item.toDocument) :: fieldsToDocument rest

/-- The documents of a list of tables. -/
def tablesToDocument : List Fields → List Document
  | [] => []
  | fields :: rest => .table (fieldsToDocument fields) :: tablesToDocument rest

end

end AppBundle.Toml
