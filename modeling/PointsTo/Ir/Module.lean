import PointsTo.ConstPool
import PointsTo.Ir.Function

/-!
# Modules

A module is a unit of a program: its global variables, its functions and the
constants they refer to. `Module.fault?` finds the first thing that is wrong with
it. Case values of switches are not looked at.
-/

namespace PointsTo

/-- A global variable; the global itself is the address of its storage. -/
structure Global where
  name : String
  ty : TypeId
  initializer : Option ConstId
  linkage : Linkage
  visibility : Visibility
  constant : Bool
  deriving DecidableEq

/-- A unit of a program. -/
structure Module where
  name : String
  globals : List Global
  functions : List Function
  constants : ConstPool

namespace Module

def new (name : String) : Module := ⟨name, [], [], .empty⟩

def global? (m : Module) (g : GlobalId) : Option Global := m.globals[g.index]?

def function? (m : Module) (f : FunctionId) : Option Function := m.functions[f.index]?

def addGlobal (m : Module) (g : Global) : GlobalId × Module :=
  (⟨m.globals.length⟩, { m with globals := m.globals ++ [g] })

def addFunction (m : Module) (f : Function) : FunctionId × Module :=
  (⟨m.functions.length⟩, { m with functions := m.functions ++ [f] })

/-- Give a global another initializer. -/
def setInitializer (m : Module) (g : GlobalId) (initializer : Option ConstId) : Module :=
  { m with globals := m.globals.modify g.index ({ · with initializer }) }

/-- The globals with their ids. -/
def globalList (m : Module) : List (GlobalId × Global) :=
  m.globals.zipIdx.map fun (g, i) => (⟨i⟩, g)

/-- The functions with their ids. -/
def functionList (m : Module) : List (FunctionId × Function) :=
  m.functions.zipIdx.map fun (f, i) => (⟨i⟩, f)

/-- The first function with a given name. -/
def findFunction? (m : Module) (name : String) : Option FunctionId :=
  (m.functions.findIdx? fun f => f.name == name).map FunctionId.mk

def block? (m : Module) (f : FunctionId) (key : Label) : Option Block :=
  (m.function? f).bind fun function => function.body.get? key

/-- The fault of a constant that is the address of a symbol the module lacks. -/
def symbolFault? (m : Module) (c : TypedConst) : Option Fault :=
  match c.value with
  | .globalAddr g => if (m.global? g).isSome then none else some (.undefinedGlobal g)
  | .functionAddr f => if (m.function? f).isSome then none else some (.undefinedFunction f)
  | _ => none

/-- The fault of a reference to a constant that the pool lacks. -/
def constantFault? (m : Module) (c : ConstId) : Option Fault :=
  if (m.constants.get? c).isSome then none else some (.undefinedConstant c)

/-- The first fault of a function: its form first, then the constants it reads. -/
def functionFault? (m : Module) (f : Function) : Option Fault :=
  match f.ssaFault? with
  | some fault => some fault
  | none =>
    (f.blocks.flatMap Function.blockOperands).findSome? fun o =>
      o.constant?.bind m.constantFault?

/-- The first fault of a module: symbols that constants refer to, then initializers,
then functions. -/
def fault? (m : Module) : Option Fault :=
  match m.constants.entries.findSome? m.symbolFault? with
  | some fault => some fault
  | none =>
    match m.globals.findSome? fun g => g.initializer.bind m.constantFault? with
    | some fault => some fault
    | none => m.functions.findSome? m.functionFault?

/-- Check a module. -/
def verify (m : Module) : Except Fault Unit :=
  match m.fault? with
  | some fault => .error fault
  | none => .ok ()

end Module

end PointsTo
