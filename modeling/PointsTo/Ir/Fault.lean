import PointsTo.Ident

/-!
# Faults of a module

What can be wrong with a module, each with the text that reports it.
-/

namespace PointsTo

/-- A reason why a module is not well formed. -/
inductive Fault
  /-- A register is defined twice. -/
  | duplicateRegister (name : Register)
  /-- A function with blocks has none under the entry label. -/
  | missingEntry
  /-- An operand names a register that is defined nowhere. -/
  | undefinedRegister (name : Register)
  /-- A label of a branch or a phi names no block of the function. -/
  | undefinedBlock (function : String) (label : Label)
  /-- A block is added under a label that is taken. -/
  | labelTaken (label : Label)
  /-- A constant is not in the pool. -/
  | undefinedConstant (id : ConstId)
  /-- A constant is the address of a global that does not exist. -/
  | undefinedGlobal (id : GlobalId)
  /-- A constant is the address of a function that does not exist. -/
  | undefinedFunction (id : FunctionId)
  deriving DecidableEq

def Fault.message : Fault → String
  | .duplicateRegister name =>
    "Multiple operations with shared destination target violate SSA requirements. " ++
      s!"The name `{name.text}` is defined more than once within the same function."
  | .missingEntry =>
    "By convention, the entrypoint basic block of a function must have label `%block_0`. " ++
      "No such basic block was found."
  | .undefinedRegister name =>
    s!"An operand refers to an undefined name: `{name.text}`. " ++
      "This name was never defined in the function."
  | .undefinedBlock function label =>
    s!"The basic block `{label.text}` referenced in function `{function}` " ++
      "is not defined within the function."
  | .labelTaken label =>
    s!"A basic block with label `{label.text}` already exists in the function."
  | .undefinedConstant id =>
    s!"Constant `{id.text}` is not part of the module constant pool."
  | .undefinedGlobal id =>
    s!"Global #{id.index} is referenced but not defined within the module."
  | .undefinedFunction id =>
    s!"Function #{id.index} is referenced but not defined within the module."

end PointsTo
