import PointsTo.Extract.Setup

/-!
# Registration

The first pass gives every part of a module its id. What it asks for is a list of
requests, in a fixed order: all globals, all functions, the constants of
initializers, and then each function with its arguments, blocks, instructions and
the constants they read. A request for a call is settled by the call models; a
request for a constant also registers what the constant is built from.
-/

namespace PointsTo

/-- Something the first pass asks for. -/
inductive Request
  /-- A function is begun. -/
  | enter (function : String)
  /-- An id for a value that owns a number of objects. -/
  | value (v : Value) (affiliated : Nat)
  /-- An id for a call; the model that takes it over says what it owns. -/
  | call (i : Place) (invoke : Invoke)
  /-- Ids for a constant and for what it is built from. -/
  | constant (c : ConstId)

namespace Setup

/-- Requests for constants that are read. -/
def constantRequests (ids : List ConstId) : List Request := ids.map .constant

def instrRequest (s : Setup) (place : Place) : Instr → Request
  | .alloca .. => .value (.instruction place) s.config.allocaObjects
  | .invoke call => .call place call
  | _ => .value (.instruction place) 0

def instrRequests (s : Setup) (place : Place) (i : Instr) : List Request :=
  s.instrRequest place i :: constantRequests (i.operands.filterMap Operand.constant?)

def blockRequests (s : Setup) (f : FunctionId) (b : Block) : List Request :=
  .value (.block f b.label) 0 ::
    (b.instrs.zipIdx.flatMap fun (i, k) => s.instrRequests ⟨f, b.label, k⟩ i) ++
    .value (.terminator f b.label) 0 ::
      constantRequests
        (b.terminator.operands.filterMap Operand.constant? ++ b.terminator.caseValues)

def functionRequests (s : Setup) (f : FunctionId) (function : Function) : List Request :=
  let arguments := function.params.zipIdx.map fun (_, k) => Request.value (.argument f k) 0
  .enter function.name :: arguments ++ function.blocks.flatMap (s.blockRequests f)

/-- What the first pass asks for. -/
def requests (s : Setup) : List Request :=
  let globals := s.unit.globalList.map fun (g, _) =>
    Request.value (.global g) s.config.globalObjects
  let functions := s.unit.functionList.map fun (f, _) => Request.value (.function f) 0
  let initializers := constantRequests (s.unit.globals.filterMap (·.initializer))
  let bodies := s.unit.functionList.flatMap fun (f, function) => s.functionRequests f function
  globals ++ functions ++ initializers ++ bodies

end Setup

/-- The state of the first pass. -/
structure Registering where
  objects : ObjectTable Value
  matched : MatchedCalls
  log : Array Notice

namespace Registering

def note (r : Registering) (notices : List Notice) : Registering :=
  { r with log := r.log ++ notices }

def register (r : Registering) (v : Value) (affiliated : Nat) : Registering :=
  { r.note (r.objects.registerNotices v affiliated) with
    objects := (r.objects.register v affiliated).2 }

/-- Register a constant after what it is built from. What has an id is passed over, so
the table tells which constants have been met. -/
def constant (m : Module) : Nat → Registering → ConstId → Registering
  | 0, r, _ => r
  | depth + 1, r, c =>
    if r.objects.contains (m.constantValue c) then r
    else ((m.constantChildren c).foldl (constant m depth) r).register (m.constantValue c) 0

/-- Remember the model of a call, in place of what was remembered for it. -/
def setMatched (r : Registering) (i : Place) (position : Nat) : Registering :=
  { r with matched := r.matched.filter (·.1 != i) ++ [(i, position)] }

/-- Settle one request. -/
def request (s : Setup) (r : Registering) : Request → Except CallError Unit × Registering
  | .enter function => (.ok (), r.note [⟨.debug, s!"Registering function `{function}`"⟩])
  | .value v affiliated => (.ok (), r.register v affiliated)
  | .call i invoke =>
    let site := CallSite.new s.unit i invoke
    let r := r.note (s.models.resolveNotices site)
    match s.models.resolve site with
    | .error e => (.error e, r)
    | .ok none => (.ok (), r.register (.instruction i) 0)
    | .ok (some (position, affiliated)) =>
      (.ok (), (r.setMatched i position).register (.instruction i) affiliated)
  | .constant c => (.ok (), r.constant s.unit s.unit.constantDepth c)

/-- Settle requests in order, up to the first that fails. -/
def settle (s : Setup) (r : Registering) : List Request → Except CallError Unit × Registering
  | [] => (.ok (), r)
  | q :: rest =>
    match r.request s q with
    | (.ok _, r) => r.settle s rest
    | (.error e, r) => (.error e, r)

end Registering

end PointsTo
