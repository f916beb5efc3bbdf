/-!
# Operation names

The arithmetic, comparison, conversion and memory-ordering variants of
instructions, each with its mnemonic.
-/

namespace PointsTo

/-- Binary integer operations. -/
inductive IntOp
  | add | sub | mul | udiv | sdiv | urem | srem | and | or | xor | shl | lshr | ashr
  deriving DecidableEq

namespace IntOp

/-- All integer operations. -/
def all : List IntOp :=
  [add, sub, mul, udiv, sdiv, urem, srem, and, or, xor, shl, lshr, ashr]

def mnemonic : IntOp → String
  | add => "add"
  | sub => "sub"
  | mul => "mul"
  | udiv => "udiv"
  | sdiv => "sdiv"
  | urem => "urem"
  | srem => "srem"
  | and => "and"
  | or => "or"
  | xor => "xor"
  | shl => "shl"
  | lshr => "lshr"
  | ashr => "ashr"

/-- The operation with a given mnemonic. -/
def ofMnemonic? (s : String) : Option IntOp := all.find? fun op => op.mnemonic == s

end IntOp

/-- Integer comparisons. -/
inductive IntPredicate
  | eq | ne | ugt | uge | ult | ule | sgt | sge | slt | sle
  deriving DecidableEq

def IntPredicate.mnemonic : IntPredicate → String
  | .eq => "eq"
  | .ne => "ne"
  | .ugt => "ugt"
  | .uge => "uge"
  | .ult => "ult"
  | .ule => "ule"
  | .sgt => "sgt"
  | .sge => "sge"
  | .slt => "slt"
  | .sle => "sle"

/-- Binary floating-point operations. -/
inductive FloatOp
  | fadd | fsub | fmul | fdiv | frem
  deriving DecidableEq

def FloatOp.mnemonic : FloatOp → String
  | .fadd => "fadd"
  | .fsub => "fsub"
  | .fmul => "fmul"
  | .fdiv => "fdiv"
  | .frem => "frem"

/-- Floating-point comparisons, ordered and unordered. -/
inductive FloatPredicate
  | oeq | ogt | oge | olt | ole | one | ord | ueq | ugt | uge | ult | ule | une | uno
  deriving DecidableEq

def FloatPredicate.mnemonic : FloatPredicate → String
  | .oeq => "oeq"
  | .ogt => "ogt"
  | .oge => "oge"
  | .olt => "olt"
  | .ole => "ole"
  | .one => "one"
  | .ord => "ord"
  | .ueq => "ueq"
  | .ugt => "ugt"
  | .uge => "uge"
  | .ult => "ult"
  | .ule => "ule"
  | .une => "une"
  | .uno => "uno"

/-- Conversions. -/
inductive Conversion
  | trunc | zext | sext | fpToInt | intToFp | ptrToInt | intToPtr | bitcast
  deriving DecidableEq

def Conversion.mnemonic : Conversion → String
  | .trunc => "trunc"
  | .zext => "zext"
  | .sext => "sext"
  | .fpToInt => "fptoint"
  | .intToFp => "inttofp"
  | .ptrToInt => "ptrtoint"
  | .intToPtr => "inttoptr"
  | .bitcast => "bitcast"

/-- Orderings of atomic memory accesses. -/
inductive MemoryOrdering
  | unordered | monotonic | acquire | release | acqRel | seqCst
  deriving DecidableEq

def MemoryOrdering.mnemonic : MemoryOrdering → String
  | .unordered => "unordered"
  | .monotonic => "monotonic"
  | .acquire => "acquire"
  | .release => "release"
  | .acqRel => "acq_rel"
  | .seqCst => "seq_cst"

end PointsTo
