import PointsTo.Ir.Instr

/-!
# Terminators

The last instruction of a block: where control goes next.
-/

namespace PointsTo

/-- How a block ends. -/
inductive Terminator
  | branch (cond : Operand) (ifTrue ifFalse : Label)
  | jump (target : Label)
  | switch (value : Operand) (default : Label) (cases : List (ConstId × Label))
  | ret (value : Option Operand)
  | trap
  deriving DecidableEq

namespace Terminator

def opcode : Terminator → String
  | .branch .. => "cbranch"
  | .jump _ => "jump"
  | .switch .. => "switch"
  | .ret _ => "ret"
  | .trap => "trap"

/-- What the terminator reads. The case values of a switch are not operands. -/
def operands : Terminator → List Operand
  | .branch cond _ _ => [cond]
  | .jump _ => []
  | .switch value _ _ => [value]
  | .ret value => value.toList
  | .trap => []

/-- The case values of a switch. -/
def caseValues : Terminator → List ConstId
  | .switch _ _ cases => cases.map (·.1)
  | _ => []

/-- The registers the terminator reads. -/
def uses (t : Terminator) : List Register := t.operands.filterMap Operand.register?

/-- Where control may go, in order; a label is listed once for each way to it. -/
def successors : Terminator → List Label
  | .branch _ ifTrue ifFalse => [ifTrue, ifFalse]
  | .jump target => [target]
  | .switch _ default cases => default :: cases.map (·.2)
  | .ret _ => []
  | .trap => []

def text : Terminator → String
  | .branch cond ifTrue ifFalse =>
    s!"branch {cond.text}, {ifTrue.operandText}, {ifFalse.operandText}"
  | .jump target => s!"jump {target.operandText}"
  | .switch value default cases =>
    let arms := cases.map fun (c, l) => s!" {c.text} -> {l.operandText}"
    s!"switch {value.text}, {default.operandText} [" ++ String.join arms ++ " ]"
  | .ret (some value) => s!"ret {value.text}"
  | .ret none => "ret void"
  | .trap => "trap"

end Terminator

end PointsTo
