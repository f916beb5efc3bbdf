import PointsTo.Ir.Value

/-!
# Building modules

A module under construction, with the type table it shares and the notices so far.
-/

namespace PointsTo

/-- A module under construction. -/
structure Builder where
  types : TypeTable
  unit : Module
  log : Array Notice

/-- A construction, which may be refused on the way. -/
abbrev Build := ExceptT Fault (StateM Builder)

namespace Builder

def new (name : String) : Builder := ⟨.empty, .new name, #[]⟩

def note (b : Builder) (notices : List Notice) : Builder := { b with log := b.log ++ notices }

end Builder

namespace Build

/-- The id of a type. -/
def type (ty : Ty) : Build TypeId := do
  let b ← get
  let (id, types) := b.types.intern ty
  set { b.note (b.types.internNotices ty) with types }
  return id

/-- The id of the pointer type. -/
def pointer : Build TypeId := type .ptr

/-- The id of an integer type of nearly any width. -/
def int (bits : Nat) : Build TypeId := type (.int (.clamp bits))

/-- The id of what a static type stands for. -/
def staticType (ty : StaticType) : Build TypeId := do
  let b ← get
  let (id, types) := b.types.resolve ty
  set { b.note (b.types.resolveNotices ty) with types }
  return id

/-- The id of a constant. -/
def constant (c : Const) : Build ConstId := do
  let b ← get
  let interned := b.unit.constants.intern b.types c
  set { b.note (b.unit.constants.internNotices b.types c) with
    types := interned.types
    unit := { b.unit with constants := interned.pool } }
  match interned.outcome with
  | .error fault => throw fault
  | .ok id => return id

def global (g : Global) : Build GlobalId := do
  let b ← get
  let (id, unit) := b.unit.addGlobal g
  set { b with unit }
  return id

def function (f : Function) : Build FunctionId := do
  let b ← get
  let (id, unit) := b.unit.addFunction f
  set { b with unit }
  return id

/-- Give a global another initializer. -/
def initializer (g : GlobalId) (c : Option ConstId) : Build Unit :=
  modify fun b => { b with unit := b.unit.setInitializer g c }

/-- Add a block to a function under its own label. -/
def block (f : FunctionId) (added : Block) : Build Unit := do
  let b ← get
  match b.unit.function? f with
  | none => throw (.undefinedFunction f)
  | some function =>
    match function.addBlock added with
    | .error fault => throw fault
    | .ok function =>
      let functions := b.unit.functions.set f.index function
      set { b with unit := { b.unit with functions } }

/-- Build a module from nothing. -/
def start (name : String) (build : Build Unit) : Except Fault Unit × Builder :=
  (build.run).run (.new name)

end Build

end PointsTo
