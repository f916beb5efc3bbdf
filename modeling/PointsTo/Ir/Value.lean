import PointsTo.Ir.Module

/-!
# Values

A value names any part of a module that something else can refer to. The address of
a global or a function is that symbol itself, so constants that are such addresses
stand for the symbol.
-/

namespace PointsTo

/-- The position of an instruction in its function. -/
structure Place where
  function : FunctionId
  block : Label
  index : Nat
  deriving DecidableEq, Ord

/-- A part of a module. -/
inductive Value
  | global (g : GlobalId)
  | function (f : FunctionId)
  | argument (f : FunctionId) (position : Nat)
  | block (f : FunctionId) (label : Label)
  | instruction (i : Place)
  | terminator (f : FunctionId) (label : Label)
  | constant (c : ConstId)
  deriving DecidableEq, Ord

namespace Value

/-- The value that a definition of a function defines. -/
def ofDefinition (f : FunctionId) : Definition → Value
  | .param position => .argument f position
  | .instr label index => .instruction ⟨f, label, index⟩

def kind : Value → String
  | .global _ => "global"
  | .function _ => "function"
  | .argument .. => "argument"
  | .block .. => "block"
  | .instruction _ => "instruction"
  | .terminator .. => "terminator"
  | .constant _ => "constant"

/-- A short name that does not depend on the module. -/
def text : Value → String
  | .global g => s!"@global.{g.index}"
  | .function f => s!"@fn.{f.index}"
  | .argument f position => s!"@fn.{f.index}:arg.{position}"
  | .block f label => s!"@fn.{f.index}:{label.text}"
  | .instruction i => s!"@fn.{i.function.index}:{i.block.text}:{i.index}"
  | .terminator f label => s!"@fn.{f.index}:{label.text}:term"
  | .constant c => c.text

/-- The full account of a value: its kind and its parts. -/
def account : Value → String
  | .global g => s!"Global({Text.describe g})"
  | .function f => s!"Function({Text.describe f})"
  | .argument f position => s!"Argument({Text.describe f}, {position})"
  | .block f label => s!"Block({Text.describe f}, Label({label.index}))"
  | .instruction i =>
    let parts := s!"function: {Text.describe i.function}, block: Label({i.block.index}), " ++
      s!"index: {i.index}"
    "Instruction(InstrRef \x7b " ++ parts ++ " \x7d)"
  | .terminator f label => s!"Terminator({Text.describe f}, Label({label.index}))"
  | .constant c => s!"Constant({Text.describe c})"

end Value

instance : Text.Describe Value := ⟨Value.account⟩

namespace Module

/-- What a constant stands for: a symbol if it is the address of one, else itself. -/
def constantValue (m : Module) (c : ConstId) : Value :=
  match (m.constants.get? c).map TypedConst.value with
  | some (.globalAddr g) => .global g
  | some (.functionAddr f) => .function f
  | _ => .constant c

/-- The constants that a constant of the pool is built from. -/
def constantChildren (m : Module) (c : ConstId) : List ConstId :=
  ((m.constants.get? c).map (·.value.children)).getD []

/-- A bound on the steps from a constant down to what it is built from: children come
before parents. -/
def constantDepth (m : Module) : Nat := m.constants.size + 1

/-- The instruction at a position. -/
def instruction? (m : Module) (i : Place) : Option Instr :=
  (m.block? i.function i.block).bind fun b => b.instrs[i.index]?

def terminator? (m : Module) (f : FunctionId) (key : Label) : Option Terminator :=
  (m.block? f key).map (·.terminator)

/-- The name of a function in diagnostics. -/
def functionName (m : Module) (f : FunctionId) : String :=
  ((m.function? f).map (·.name)).getD "?"

/-- The name of a value in diagnostics. -/
def valueName (m : Module) : Value → String
  | .global g => ((m.global? g).map (·.name)).getD (Value.global g).text
  | .function f => m.functionName f
  | .argument f position => s!"{m.functionName f}:arg.{position}"
  | .block f label => s!"{m.functionName f}:{label.text}"
  | .instruction i => s!"{m.functionName i.function}:{i.block.text}:{i.index}"
  | .terminator f label => s!"{m.functionName f}:{label.text}:term"
  | .constant c => c.text

end Module

end PointsTo
