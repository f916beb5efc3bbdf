import PointsTo.Extract.Row
import PointsTo.PointerMemo

/-!
# Steps of a description

A description is carried out step by step. Most steps are known beforehand: rows, types that
are needed, and rows that are meant only for pointers. What a step does may also depend on how
far the description has come; then it is a choice of acts.
-/

namespace PointsTo

/-- Something worth a notice while a module is described. -/
inductive Remark
  | emitting (function : String) (blocks : Nat)
  | visiting (c : ConstId)
  | handled (call : Value) (model : String)
  /-- The pointer may point anywhere. -/
  | untraceable (v : Value) (name origin : String)
  /-- The pointer may point anywhere, and no special object says so. -/
  | untraced (name : String)
  deriving DecidableEq

/-- What an emission has done so far. -/
structure Emission where
  types : TypeTable
  memo : PointerMemo
  /-- The constants that have been described. -/
  visited : List ConstId
  /-- The accepted facts, in order. -/
  entries : Array Entry
  log : Array Notice

/-- What an emission is carried out with: the ids of the objects, and the store as it was
before. -/
structure Emission.Target where
  objects : ObjectTable Value
  store : FactStore

/-- The relations that facts are checked against. -/
abbrev Emission.Target.schema (t : Emission.Target) : Schema := t.store.schema

/-- Something that is done on sight of the state. -/
inductive Act
  /-- A row is turned into a fact and appended. -/
  | append (r : Row)
  /-- A type enters the type table if it is not there. -/
  | intern (ty : Ty)
  /-- It is asked whether a type holds a pointer. -/
  | ask (id : TypeId)
  | note (n : Notice)
  | fail (error : ExtractError)

/-- A step of a description. -/
inductive Step
  | row (r : Row)
  /-- The type of a value, and whether the value holds a pointer. -/
  | typed (v : Value) (ty : StaticType)
  /-- A type enters the type table if it is not there. -/
  | intern (ty : StaticType)
  /-- Rows that are meant only if the type holds a pointer. -/
  | ifPointer (ty : StaticType) (rows : List Row)
  /-- An object has to have an id. -/
  | need (o : ObjectRef)
  | remark (r : Remark)
  /-- The description of a constant is complete. -/
  | visited (c : ConstId)
  /-- Acts that depend on what has been done so far. -/
  | acts (choose : Emission.Target → Emission → List Act)

end PointsTo
