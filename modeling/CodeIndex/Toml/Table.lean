import CodeIndex.Json.Basic

namespace CodeIndex.Toml

/-- A table remembers how it came about, because that decides how it may be added to: a table opened
by a header is opened once, and only a table made by dotted keys takes further dotted keys. -/
inductive Origin where
  | header
  | implied
  | dotted
deriving DecidableEq, Repr

/-- A value that is complete, a table, or the tables of an array, the latest one last. -/
inductive Value where
  | leaf (value : Json)
  | table (origin : Origin) (entries : List (Text × Value))
  | tables (items : List (List (Text × Value)))

abbrev Entries := List (Text × Value)

namespace Entries

def at? (key : Text) (es : Entries) : Option Value := es.lookup key

def replace (key : Text) (v : Value) (es : Entries) : Entries :=
  es.map fun e => if e.1 = key then (key, v) else e

def add (key : Text) (v : Value) (es : Entries) : Entries := es ++ [(key, v)]

/-- Changes the table that a key leads to: the table itself, or the last one of an array. -/
def within (f : Entries → Option Entries) (key : Text) (es : Entries) : Option Entries :=
  match at? key es with
  | some (.table origin inner) => (f inner).map fun inner => replace key (.table origin inner) es
  | some (.tables items) =>
    items.getLast?.bind fun last =>
      (f last).map fun last => replace key (.tables (items.dropLast ++ [last])) es
  | _ => none

/-- Changes the table at the end of a path that exists. -/
def atPath (f : Entries → Option Entries) : List Text → Entries → Option Entries
  | [], es => f es
  | key :: keys, es => within (atPath f keys) key es

/-- Sets a dotted key; `mayEnd` tells whether the key may end in this table. -/
def setDotted (mayEnd : Bool) (value : Json) : List Text → Entries → Option Entries
  | [], _ => none
  | [key], es =>
    match mayEnd, at? key es with
    | true, none => some (add key (.leaf value) es)
    | _, _ => none
  | key :: keys, es =>
    match at? key es with
    | none => (setDotted true value keys []).map fun inner => add key (.table .dotted inner) es
    | some (.table .dotted _) => within (setDotted true value keys) key es
    | some (.table .implied _) => within (setDotted false value keys) key es
    | some (.tables _) => within (setDotted false value keys) key es
    | _ => none

/-- Opens the table of a header; the tables on the way to it are implied. -/
def openTable : List Text → Entries → Option Entries
  | [], _ => none
  | [key], es =>
    match at? key es with
    | none => some (add key (.table .header []) es)
    | some (.table .implied inner) => some (replace key (.table .header inner) es)
    | _ => none
  | key :: keys, es =>
    match at? key es with
    | none => (openTable keys []).map fun inner => add key (.table .implied inner) es
    | _ => within (openTable keys) key es

/-- Opens another table of an array. -/
def openItem : List Text → Entries → Option Entries
  | [], _ => none
  | [key], es =>
    match at? key es with
    | none => some (add key (.tables [[]]) es)
    | some (.tables items) => some (replace key (.tables (items ++ [[]])) es)
    | _ => none
  | key :: keys, es =>
    match at? key es with
    | none => (openItem keys []).map fun inner => add key (.table .implied inner) es
    | _ => within (openItem keys) key es

end Entries

mutual

def Value.toJson : Value → Json
  | .leaf j => j
  | .table _ es => .object (fieldsOf es)
  | .tables items => .array (itemsOf items)

def fieldsOf : List (Text × Value) → List (String × Json)
  | [] => []
  | (key, v) :: es => (String.ofList key, v.toJson) :: fieldsOf es

def itemsOf : List (List (Text × Value)) → List Json
  | [] => []
  | es :: items => .object (fieldsOf es) :: itemsOf items

end

end CodeIndex.Toml
