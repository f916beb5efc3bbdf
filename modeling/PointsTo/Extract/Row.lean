import PointsTo.Extract.Error

/-!
# Rows

A row is a fact before ids are known: its objects are named by what they are. Rows
are the same whatever ids the objects get; a table of objects and a table of types
turn a row into a fact.
-/

namespace PointsTo

/-- An object, named by what it is. -/
inductive ObjectRef
  | special (position : Nat)
  | value (v : Value)
  /-- The memory of an allocation site. -/
  | storage (site : Value)
  /-- An object that a value owns, counted from one. -/
  | affiliated (owner : Value) (offset : Nat)
  /-- A reference that leads nowhere. -/
  | missing (fault : Fault)
  deriving DecidableEq

/-- One column of a row. -/
inductive Cell
  | object (o : ObjectRef)
  | int (n : Int)
  | str (s : String)
  /-- The text of a type. -/
  | typeText (t : TypeId)
  deriving DecidableEq

/-- A fact whose objects have no ids yet. -/
structure Row where
  relation : Relation
  cells : List Cell
  deriving DecidableEq

/-- The id of an object. -/
def ObjectRef.resolve (x : ObjectTable Value) : ObjectRef → Except ExtractError ObjectId
  | .special position => .ok ⟨position⟩
  | .value v => (x.idOf v).mapError .object
  | .storage v => ((x.idOf v).bind x.storage).mapError .object
  | .affiliated v offset => ((x.idOf v).bind fun id => x.affiliated id offset).mapError .object
  | .missing fault => .error (.unit fault)

/-- The term of a cell. -/
def Cell.resolve (x : ObjectTable Value) (types : TypeTable) : Cell → Except ExtractError Term
  | .object o => (o.resolve x).map .object
  | .int n => .ok (.int n)
  | .str s => .ok (.str s)
  | .typeText t => .ok (.str (types.text t))

/-- The fact of a row; cells are resolved from first to last. -/
def Row.resolve (x : ObjectTable Value) (types : TypeTable) (r : Row) :
    Except ExtractError Fact :=
  r.cells.mapM (Cell.resolve x types)

instance : Coe Value ObjectRef := ⟨.value⟩
instance : Coe ObjectRef Cell := ⟨.object⟩
instance : Coe Value Cell := ⟨fun v => .object (.value v)⟩
instance : Coe Nat Cell := ⟨fun n => .int n⟩
instance : Coe String Cell := ⟨.str⟩

end PointsTo
