import PointsTo.Extract.Setup
import PointsTo.Extract.Tour

/-!
# The plan of a description

The second pass describes a module by rows. What it does is a list of steps that
depends on the module, the configuration and the models, but on no id, no schema and
no type table. Rows that only matter for pointers are guarded by a type. A call that a
model took over is described by the steps of the model.

The order is that of the module: special objects, globals with their initializers,
then each function with its arguments and its blocks. A constant is described where
it is first met, after the constants it is built from.
-/

namespace PointsTo

/-- The registers of a function, with the values that define them and their types. -/
structure Scope where
  function : FunctionId
  names : List (Register × Value × Option StaticType)

namespace Scope

/-- The type of what a definition defines. -/
def definitionType? (function : Function) : Definition → Option StaticType
  | .param k => (function.params[k]?).map fun p => .named p.2
  | .instr label k =>
    ((function.body.get? label).bind fun b => b.instrs[k]?).bind Instr.resultType?

/-- The registers of a function in name order. -/
def new (f : FunctionId) (function : Function) : Scope where
  function := f
  names := function.definitions.entries.map fun (r, d) =>
    (r, .ofDefinition f d, definitionType? function d)

/-- What an operand refers to. -/
def object (scope : Scope) (m : Module) : Operand → ObjectRef
  | .reg r =>
    match scope.names.lookup r with
    | some (v, _) => .value v
    | none => .missing (.undefinedRegister r)
  | .imm c => .value (m.constantValue c)
  | .label l => .value (.block scope.function l)

/-- The type of an operand, as far as it is known. -/
def typeOf? (scope : Scope) (m : Module) : Operand → Option StaticType
  | .reg r => (scope.names.lookup r).bind (·.2)
  | .imm c => (m.constants.get? c).map fun pooled => .named pooled.ty
  | .label _ => none

/-- Rows that are meant only if the operand holds a pointer. -/
def ifPointer (scope : Scope) (m : Module) (o : Operand) (rows : List Row) : List Step :=
  match scope.typeOf? m o with
  | some ty => [.ifPointer ty rows]
  | none => []

end Scope

/-- The labels of a list, each once, in order. -/
def Label.ordered (labels : List Label) : List Label :=
  (Table.ofList (labels.map fun l => (l, ()))).keys

namespace Setup

/-! ## Constants -/

/-- What a constant is made of. -/
def shapeRows (s : Setup) (c : ConstId) (value : Const) : List Row :=
  let self := Value.constant c
  match value with
  | .aggregate _ elements => elements.zipIdx.map fun (e, k) =>
    ⟨.constElement, [self, k, s.unit.constantValue e]⟩
  | .elementAddr base _ _ => [⟨.elementAddr, [self, s.unit.constantValue base]⟩]
  | .null =>
    match s.config.specialId? nullObject with
    | some id => [⟨.addressOf, [self, ObjectRef.special id.index]⟩]
    | none => []
  | _ => []

/-- What is said when a walk over constants comes to a mark. -/
def markSteps (s : Setup) : Mark → List Step
  | .enter c =>
    let next : Step := if (s.unit.constants.get? c).isSome then .remark (.visiting c)
      else .need (.missing (.undefinedConstant c))
    [.need (Value.constant c), next]
  | .leave c =>
    match s.unit.constants.get? c with
    | some pooled =>
      [.row ⟨.constant, [Value.constant c, pooled.value.kind]⟩,
        .typed (.constant c) (.named pooled.ty)] ++
        (s.shapeRows c pooled.value).map .row ++ [.visited c]
    | none => []

/-- Describe a constant and what it is built from, unless that is done. -/
def constantSteps (s : Setup) (c : ConstId) : Tour (List Step) := do
  let marks ← Tour.visit s.unit c
  return marks.flatMap s.markSteps

/-! ## Operands -/

/-- The operands of a user, with the constants that are met for the first time. -/
def operandSteps (s : Setup) (scope : Scope) (user : Value) (operands : List Operand) :
    Tour (List Step) :=
  Tour.collect operands.zipIdx fun (o, k) => do
    let constants ← match o with
      | .imm c => s.constantSteps c
      | _ => pure []
    return constants ++ [.row ⟨.operand, [user, k, scope.object s.unit o]⟩]

/-- The case values of a switch, which come after its operands. -/
def caseSteps (s : Setup) (user : Value) (start : Nat) (cases : List ConstId) :
    Tour (List Step) :=
  Tour.collect cases.zipIdx fun (c, k) => do
    let constants ← s.constantSteps c
    return constants ++ [.row ⟨.operand, [user, start + k, s.unit.constantValue c]⟩]

/-! ## Instructions -/

/-- A pointer whose origin cannot be followed. -/
def unknownSourceSteps (s : Setup) (v : Value) (origin : String) : List Step :=
  let name := s.unit.valueName v
  match s.config.specialId? unknownObject with
  | some id =>
    [.remark (.untraceable v name origin),
      .row ⟨.unknownSource, [v, ObjectRef.special id.index]⟩]
  | none => [.remark (.untraced name)]

/-- The general account of a call: its callee, and the pointers that go in and out. -/
def generalCallSteps (s : Setup) (scope : Scope) (self : Value) (invoke : Invoke) : List Step :=
  let arguments := invoke.args.zipIdx.flatMap fun (o, k) =>
    scope.ifPointer s.unit o [⟨.callArg, [self, k, scope.object s.unit o]⟩]
  let result := match invoke.ty with
    | some ty => [.ifPointer (.named ty) [⟨.callReturn, [self]⟩]]
    | none => []
  .row ⟨.call, [self, scope.object s.unit invoke.function]⟩ :: arguments ++ result

/-- A call, described by the model that took it over if there is one. -/
def callSteps (s : Setup) (matched : MatchedCalls) (scope : Scope) (place : Place)
    (invoke : Invoke) : List Step :=
  let self := Value.instruction place
  match (matched.lookup place).bind fun position => s.models.models[position]? with
  | some model =>
    let objects : CallObjects :=
      ⟨self, scope.object s.unit invoke.function, invoke.args.map (scope.object s.unit)⟩
    .remark (.handled self model.name) :: model.describe (.new s.unit place invoke) objects
  | none => s.generalCallSteps scope self invoke

/-- What an instruction does with pointers. -/
def effectSteps (s : Setup) (matched : MatchedCalls) (scope : Scope) (place : Place)
    (i : Instr) : List Step :=
  let self := Value.instruction place
  let object := scope.object s.unit
  match i with
  | .alloca _ ty _ _ =>
    [.row ⟨.memoryObject, [ObjectRef.storage self, "stack"]⟩,
      .row ⟨.objectType, [ObjectRef.storage self, .typeText ty]⟩,
      .row ⟨.addressOf, [self, ObjectRef.storage self]⟩]
  | .load _ ty addr _ => [.ifPointer (.named ty) [⟨.load, [self, object addr]⟩]]
  | .store addr value _ =>
    scope.ifPointer s.unit value [⟨.store, [self, object addr, object value]⟩]
  | .elementPtr _ _ base _ => [.row ⟨.elementAddr, [self, object base]⟩]
  | .phi _ ty incoming =>
    [.ifPointer (.named ty) (incoming.map fun (l, o) =>
      ⟨.phi, [self, Value.block scope.function l, object o]⟩)]
  | .select _ _ ifTrue ifFalse ty =>
    [.ifPointer (.named ty) ([ifTrue, ifFalse].map fun o => ⟨.move, [self, object o]⟩)]
  | .cast _ .bitcast ty value => [.ifPointer (.named ty) [⟨.move, [self, object value]⟩]]
  | .cast _ .intToPtr _ _ => s.unknownSourceSteps self "inttoptr"
  | .invoke call => s.callSteps matched scope place call
  | _ => []

def instrSteps (s : Setup) (matched : MatchedCalls) (scope : Scope) (place : Place)
    (block : Value) (i : Instr) : Tour (List Step) := do
  let self := Value.instruction place
  let operands ← s.operandSteps scope self i.operands
  return .row ⟨.instr, [self, i.opcode, block]⟩ ::
    (i.resultType?.toList.map fun ty => .typed self ty) ++
    operands ++ s.effectSteps matched scope place i

/-! ## Terminators -/

/-- Each block that control may go to, once, in label order. -/
def successorRows (f : FunctionId) (block : Value) (t : Terminator) : List Row :=
  (Label.ordered t.successors).map fun l => ⟨.successor, [block, Value.block f l]⟩

/-- What a terminator gives back to the callers of its function. -/
def returnSteps (s : Setup) (scope : Scope) : Terminator → List Step
  | .ret (some o) => scope.ifPointer s.unit o
      [⟨.returned, [Value.function scope.function, scope.object s.unit o]⟩]
  | _ => []

def terminatorSteps (s : Setup) (scope : Scope) (label : Label) (t : Terminator) :
    Tour (List Step) := do
  let f := scope.function
  let self := Value.terminator f label
  let block := Value.block f label
  let operands ← s.operandSteps scope self t.operands
  let cases ← s.caseSteps self t.operands.length t.caseValues
  return .row ⟨.instr, [self, t.opcode, block]⟩ :: operands ++
    (successorRows f block t).map .row ++ s.returnSteps scope t ++ cases

/-! ## Functions, globals, the module -/

def blockSteps (s : Setup) (matched : MatchedCalls) (scope : Scope) (b : Block) :
    Tour (List Step) := do
  let f := scope.function
  let block := Value.block f b.label
  let instrs ← Tour.collect b.instrs.zipIdx fun (i, k) =>
    s.instrSteps matched scope ⟨f, b.label, k⟩ block i
  let terminator ← s.terminatorSteps scope b.label b.terminator
  return .row ⟨.block, [block, Value.function f]⟩ :: instrs ++ terminator

def argumentSteps (s : Setup) (f : FunctionId) (function : Function) (k : Nat) (ty : TypeId) :
    List Step :=
  let self := Value.argument f k
  let free := if s.config.freeArguments.isFree function true
    then [.ifPointer (.named ty) [⟨.freeArgument, [self]⟩]] else []
  .row ⟨.argument, [Value.function f, k, self]⟩ :: .typed self (.named ty) :: free

/-- The blocks of a function that has some. -/
def bodySteps (s : Setup) (matched : MatchedCalls) (f : FunctionId) (function : Function) :
    Tour (List Step) := do
  let scope := Scope.new f function
  let blocks ← Tour.collect function.blocks (s.blockSteps matched scope)
  return .remark (.emitting function.name function.body.size) ::
    .row ⟨.functionEntry, [Value.function f, Value.block f .entry]⟩ ::
    (scope.names.filterMap fun (_, _, ty) => ty.map .intern) ++ blocks

def functionSteps (s : Setup) (matched : MatchedCalls) (f : FunctionId) (function : Function) :
    Tour (List Step) := do
  let self := Value.function f
  let arguments := function.params.zipIdx.flatMap fun (p, k) => s.argumentSteps f function k p.2
  let body ← if function.isDeclaration then pure [.row ⟨.functionDecl, [self]⟩]
    else s.bodySteps matched f function
  return [.row ⟨.function, [self, function.name]⟩,
      .row ⟨.memoryObject, [self, "function"]⟩,
      .row ⟨.addressOf, [self, self]⟩,
      .typed self .pointer] ++
    arguments ++ body

def globalSteps (s : Setup) (g : GlobalId) (global : Global) : Tour (List Step) := do
  let self := Value.global g
  let storage := ObjectRef.storage self
  let initializer ← match global.initializer with
    | some c => do
      let constants ← s.constantSteps c
      pure (constants ++ [.row ⟨.globalInit, [storage, s.unit.constantValue c]⟩])
    | none => pure []
  return [.row ⟨.global, [self, global.name]⟩,
      .typed self .pointer,
      .row ⟨.memoryObject, [storage, "global"]⟩,
      .row ⟨.objectType, [storage, .typeText global.ty]⟩,
      .row ⟨.addressOf, [self, storage]⟩] ++
    initializer

/-- All steps along a walk. -/
def planTour (s : Setup) (matched : MatchedCalls) : Tour (List Step) := do
  let special := s.config.specialObjects.zipIdx.map fun (name, k) =>
    Step.row ⟨.specialObject, [ObjectRef.special k, name]⟩
  let globals ← Tour.collect s.unit.globalList fun (g, global) => s.globalSteps g global
  let functions ← Tour.collect s.unit.functionList fun (f, function) =>
    s.functionSteps matched f function
  return special ++ .row ⟨.moduleName, [s.unit.name]⟩ :: globals ++ functions

/-- The steps that describe a module, for calls that were matched as said, where some constants
have been visited before. -/
def planFrom (s : Setup) (visited : List ConstId) (matched : MatchedCalls) : List Step :=
  ((s.planTour matched).run (visited.map .leave)).1

/-- The steps that describe a module where no constant has been visited. -/
def plan (s : Setup) (matched : MatchedCalls) : List Step := s.planFrom [] matched

end Setup

end PointsTo
