import PointsTo.Fact.Relation
import PointsTo.Ident
import PointsTo.Notice
import PointsTo.Text.Quoted

/-!
# Facts

A fact is a tuple of terms. A store keeps the facts of each relation in the order
they were appended, and takes only facts that fit a declared relation.
-/

namespace PointsTo

/-- One column of a fact. -/
inductive Term
  | object (id : ObjectId)
  | int (n : Int)
  | str (s : String)
  deriving DecidableEq

namespace Term

def column : Term → Column
  | .object _ => .object
  | .int _ => .int
  | .str _ => .str

/-- A size as a term. Sizes are 64-bit words and integers are signed, so the upper
half of the sizes is read as negative. -/
def ofSize (n : Nat) : Term := .int ((n : Int).bmod 18446744073709551616)

/-- The full account of a term: its kind and its content. -/
def account : Term → String
  | .object id => s!"Object(ObjectId({id.index}))"
  | .int n => s!"Int({n})"
  | .str s => s!"Str({Text.quoted s})"

end Term

/-- A tuple of terms. -/
abbrev Fact := List Term

/-- Why a store refuses a fact. -/
inductive StoreError
  | undeclared (name : String)
  | arity (relation : String) (expected found : Nat)
  | columnKind (relation : String) (position : Nat) (expected found : Column)
  deriving DecidableEq

def StoreError.message : StoreError → String
  | .undeclared name => s!"Relation `{name}` is not declared in the schema."
  | .arity relation expected found =>
    s!"Relation `{relation}` expects {expected} column(s) but the fact has {found}."
  | .columnKind relation position expected found =>
    s!"Column {position} of relation `{relation}` expects a value of kind " ++
      s!"{expected.title}, found {found.title}."

/-- The first column of a fact that is not of the kind the relation asks for. -/
def Relation.mismatch? (r : Relation) (fact : Fact) : Option StoreError :=
  (fact.zip r.columns).zipIdx.findSome? fun ((term, expected), position) =>
    if term.column = expected then none
    else some (.columnKind r.name position expected term.column)

/-- Whether a fact may be appended to a relation: the relation is declared, the fact
has as many terms as it has columns, and each is of the right kind. -/
def Schema.check (s : Schema) (r : Relation) (fact : Fact) : Except StoreError Unit :=
  if !s.contains r then .error (.undeclared r.name)
  else if fact.length ≠ r.arity then .error (.arity r.name r.arity fact.length)
  else
    match r.mismatch? fact with
    | some e => .error e
    | none => .ok ()

/-- A fact and the relation it belongs to. -/
structure Entry where
  relation : Relation
  fact : Fact
  deriving DecidableEq

/-- The notice that a fact was appended. -/
def Entry.notice (e : Entry) : Notice :=
  ⟨.trace, e.relation.name ++ Text.bracketed (e.fact.map Term.account)⟩

/-- The facts of each relation of a schema. -/
structure FactStore where
  schema : Schema
  facts : Table String (List Fact)

namespace FactStore

def new (schema : Schema) : FactStore := ⟨schema, .empty⟩

/-- The facts of a relation, in the order they were appended. -/
def relation (s : FactStore) (name : String) : List Fact := (s.facts.get? name).getD []

/-- Add a fact that has been checked. -/
def record (s : FactStore) (e : Entry) : FactStore :=
  let name := e.relation.name
  { s with facts := s.facts.insert name (s.relation name ++ [e.fact]) }

/-- A new fact comes after the others of its relation. -/
theorem relation_record_self (s : FactStore) (e : Entry) :
    (s.record e).relation e.relation.name = s.relation e.relation.name ++ [e.fact] := by
  simp [record, relation]

/-- Other relations stay as they are. -/
theorem relation_record_of_ne (s : FactStore) (e : Entry) {name : String}
    (h : name ≠ e.relation.name) : (s.record e).relation name = s.relation name := by
  simp [record, relation, Table.get?_insert_of_ne _ h]

/-- Append a fact to a relation. A store that refuses a fact stays as it is. -/
def append (s : FactStore) (r : Relation) (fact : Fact) : Except StoreError Unit × FactStore :=
  match s.schema.check r fact with
  | .ok _ => (.ok (), s.record ⟨r, fact⟩)
  | .error e => (.error e, s)

/-- The number of facts. -/
def size (s : FactStore) : Nat := s.facts.values.flatten.length

/-- The relations that have facts, in name order. -/
def toList (s : FactStore) : List (String × List Fact) := s.facts.entries

end FactStore

end PointsTo
