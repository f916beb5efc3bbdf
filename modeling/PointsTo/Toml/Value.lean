/-!
# TOML values

A document is a table of values. How a table came about decides whether later lines
may add to it, so tables keep their origin. Numbers with a fraction and dates are
recognised but their content is not kept.
-/

namespace PointsTo.Toml

/-- How a table came about. -/
inductive Origin
  /-- By a header of its own. -/
  | header
  /-- As a step on the way of a header. -/
  | implied
  /-- As a step on the way of a dotted key. -/
  | dotted
  /-- In braces; nothing can be added later. -/
  | inline
  deriving DecidableEq

/-- Whether a dotted key may pass a table, `last` being whether the value goes right into
it. Only tables that dotted keys made take values of other dotted keys. -/
def Origin.passes (origin : Origin) (last : Bool) : Bool :=
  origin = .dotted || (origin = .implied && !last)

/-- A value of a document. -/
inductive Value
  | string (s : String)
  /-- An integer, which may be written without giving a number. -/
  | integer (n : Option Int)
  | boolean (b : Bool)
  | float
  | date
  /-- A list of values, which repeated headers may make grow. -/
  | array (growing : Bool) (items : List Value)
  | table (origin : Origin) (entries : List (String × Value))

/-- The entries of a table, in the order they were written. -/
abbrev Entries := List (String × Value)

/-- One line of a document: a key with its value, a table header, or a header that
adds a table to a list. -/
inductive Statement
  | pair (path : List String) (value : Value)
  | header (path : List String)
  | listHeader (path : List String)

namespace Entries

/-- Replace the value of a key, or add the key at the end. -/
def set (key : String) (value : Value) : Entries → Entries
  | [] => [(key, value)]
  | (k, v) :: rest => if k = key then (key, value) :: rest else (k, v) :: set key value rest

/-- Add a value under a dotted key. Tables on the way are made as needed; a table that
a header or braces defined cannot be added to, and no value is replaced. Of a list that
headers made, the last table may be passed. -/
def addPair (value : Value) : List String → Entries → Option Entries
  | [], _ => none
  | [key], es => if (es.lookup key).isSome then none else some (es ++ [(key, value)])
  | key :: path, es =>
    let last := path.length == 1
    match es.lookup key with
    | none => (addPair value path []).map fun inner => es ++ [(key, .table .dotted inner)]
    | some (.table origin inner) =>
      if origin.passes last then
        (addPair value path inner).map fun inner => set key (.table origin inner) es
      else none
    | some (.array true items) =>
      match last, items.getLast? with
      | false, some (.table origin inner) =>
        (addPair value path inner).map fun inner =>
          set key (.array true (items.dropLast ++ [.table origin inner])) es
      | _, _ => none
    | some _ => none

/-- Act on the table that a header path leads to, whose last step `act` settles. Tables
on the way are made as needed, and of a list its last table is meant. -/
def descend (act : String → Entries → Option Entries) : List String → Entries → Option Entries
  | [], _ => none
  | [key], es => act key es
  | key :: path, es =>
    match es.lookup key with
    | none => (descend act path []).map fun inner => es ++ [(key, .table .implied inner)]
    | some (.table origin inner) =>
      if origin = .inline then none
      else (descend act path inner).map fun inner => set key (.table origin inner) es
    | some (.array true items) =>
      match items.getLast? with
      | some (.table origin inner) =>
        (descend act path inner).map fun inner =>
          set key (.array true (items.dropLast ++ [.table origin inner])) es
      | _ => none
    | some _ => none

/-- Define the table of a header. Only a table that was merely implied may exist. -/
def openTable (key : String) (es : Entries) : Option Entries :=
  match es.lookup key with
  | none => some (es ++ [(key, .table .header [])])
  | some (.table .implied inner) => some (set key (.table .header inner) es)
  | some _ => none

/-- Add a table to a list that such headers made. -/
def openListItem (key : String) (es : Entries) : Option Entries :=
  match es.lookup key with
  | none => some (es ++ [(key, .array true [.table .header []])])
  | some (.array true items) => some (set key (.array true (items ++ [.table .header []])) es)
  | some _ => none

/-- Add a pair to the table that the last header opened. -/
def addPairUnder (path : List String) (value : Value) (key : String) (es : Entries) :
    Option Entries :=
  match es.lookup key with
  | some (.table origin inner) =>
    (addPair value path inner).map fun inner => set key (.table origin inner) es
  | some (.array true items) =>
    match items.getLast? with
    | some (.table origin inner) =>
      (addPair value path inner).map fun inner =>
        set key (.array true (items.dropLast ++ [.table origin inner])) es
    | _ => none
  | _ => none

/-- Read statements in order, `current` being the path of the last header. -/
def build (current : List String) (es : Entries) : List Statement → Option Entries
  | [] => some es
  | .pair path value :: rest =>
    let added := if current.isEmpty then addPair value path es
      else descend (addPairUnder path value) current es
    added.bind fun es => build current es rest
  | .header path :: rest => (descend openTable path es).bind fun es => build path es rest
  | .listHeader path :: rest => (descend openListItem path es).bind fun es => build path es rest

end Entries

end PointsTo.Toml
