import PointsTo.Ir.Op
import PointsTo.TypeTable

/-!
# Instructions

An instruction reads operands and may define a register. `Instr.operands` lists
what it reads, in order; `Instr.dest?` and `Instr.resultType?` say what it defines.
-/

namespace PointsTo

/-- What an instruction reads: a register, a constant of the pool, or a label. -/
inductive Operand
  | reg (name : Register)
  | imm (id : ConstId)
  | label (l : Label)
  deriving DecidableEq

namespace Operand

def text : Operand → String
  | .reg name => name.text
  | .imm id => id.text
  | .label l => l.operandText

def register? : Operand → Option Register
  | .reg name => some name
  | _ => none

def constant? : Operand → Option ConstId
  | .imm id => some id
  | _ => none

end Operand

/-- How memory is accessed; points-to facts do not depend on it. -/
structure Access where
  alignment : Option Nat
  ordering : Option MemoryOrdering
  volatile : Bool
  deriving DecidableEq

/-- A call. The callee is an operand, so direct and indirect calls are alike. -/
structure Invoke where
  function : Operand
  args : List Operand
  dest : Option Register
  ty : Option TypeId
  deriving DecidableEq

/-- An instruction other than the terminator of a block. -/
inductive Instr
  | iarith (dest : Register) (ty : TypeId) (op : IntOp) (lhs rhs : Operand)
  /-- Comparison of operands of type `ty`; the result is a bit. -/
  | icmp (dest : Register) (ty : TypeId) (op : IntPredicate) (lhs rhs : Operand)
  | farith (dest : Register) (ty : TypeId) (op : FloatOp) (lhs rhs : Operand)
  | fcmp (dest : Register) (ty : TypeId) (op : FloatPredicate) (lhs rhs : Operand)
  | load (dest : Register) (ty : TypeId) (addr : Operand) (access : Access)
  | store (addr value : Operand) (access : Access)
  /-- Reserve `count` elements of `ty` on the stack; the result points to them. -/
  | alloca (dest : Register) (ty : TypeId) (count : Operand) (alignment : Option Nat)
  /-- The address of an element of what `base` points to. -/
  | elementPtr (dest : Register) (ty : TypeId) (base : Operand) (indices : List Operand)
  | invoke (call : Invoke)
  /-- The value that belongs to the block control came from. -/
  | phi (dest : Register) (ty : TypeId) (incoming : List (Label × Operand))
  | select (dest : Register) (condition ifTrue ifFalse : Operand) (ty : TypeId)
  | cast (dest : Register) (op : Conversion) (ty : TypeId) (value : Operand)
  deriving DecidableEq

namespace Instr

def opcode : Instr → String
  | .iarith .. => "iarith"
  | .icmp .. => "icmp"
  | .farith .. => "farith"
  | .fcmp .. => "fcmp"
  | .load .. => "mload"
  | .store .. => "mstore"
  | .alloca .. => "malloca"
  | .elementPtr .. => "mgetelementptr"
  | .invoke .. => "invoke"
  | .phi .. => "phi"
  | .select .. => "select"
  | .cast .. => "cast"

/-- What the instruction reads, in order. -/
def operands : Instr → List Operand
  | .iarith _ _ _ lhs rhs => [lhs, rhs]
  | .icmp _ _ _ lhs rhs => [lhs, rhs]
  | .farith _ _ _ lhs rhs => [lhs, rhs]
  | .fcmp _ _ _ lhs rhs => [lhs, rhs]
  | .load _ _ addr _ => [addr]
  | .store addr value _ => [addr, value]
  | .alloca _ _ count _ => [count]
  | .elementPtr _ _ base indices => base :: indices
  | .invoke call => call.function :: call.args
  | .phi _ _ incoming => incoming.map (·.2)
  | .select _ condition ifTrue ifFalse _ => [condition, ifTrue, ifFalse]
  | .cast _ _ _ value => [value]

/-- The register the instruction defines. -/
def dest? : Instr → Option Register
  | .iarith dest .. => some dest
  | .icmp dest .. => some dest
  | .farith dest .. => some dest
  | .fcmp dest .. => some dest
  | .load dest .. => some dest
  | .store .. => none
  | .alloca dest .. => some dest
  | .elementPtr dest .. => some dest
  | .invoke call => call.dest
  | .phi dest .. => some dest
  | .select dest .. => some dest
  | .cast dest .. => some dest

/-- The type of the result. Comparisons give a bit, address computations a pointer. -/
def resultType? : Instr → Option StaticType
  | .iarith _ ty .. => some (.named ty)
  | .icmp .. => some .bit
  | .farith _ ty .. => some (.named ty)
  | .fcmp .. => some .bit
  | .load _ ty .. => some (.named ty)
  | .store .. => none
  | .alloca .. => some .pointer
  | .elementPtr .. => some .pointer
  | .invoke call => call.ty.map .named
  | .phi _ ty _ => some (.named ty)
  | .select _ _ _ _ ty => some (.named ty)
  | .cast _ _ ty _ => some (.named ty)

/-- The registers the instruction reads. -/
def uses (i : Instr) : List Register := i.operands.filterMap Operand.register?

/-- The blocks a phi names. -/
def predecessors : Instr → List Label
  | .phi _ _ incoming => incoming.map (·.1)
  | _ => []

end Instr

end PointsTo
