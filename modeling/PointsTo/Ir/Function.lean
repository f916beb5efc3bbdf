import PointsTo.Distinct
import PointsTo.Ir.Fault
import PointsTo.Ir.Terminator
import PointsTo.Table

/-!
# Functions

A function has parameters and blocks. Blocks are kept under labels, in label order;
a block is usually kept under its own label, though nothing forces it to be. A
function without blocks is a declaration.

`Function.ssaFault?` finds the first violation of static single assignment form: the
entry block exists, no register is defined twice, every register that is read is
defined, every label that is named is the key of a block.
-/

namespace PointsTo

/-- Who may refer to a symbol. -/
inductive Linkage
  /-- This module only; the symbol is not listed. -/
  | moduleLocal
  /-- This module only; the symbol is listed as local. -/
  | internal
  /-- Other modules too. -/
  | external
  deriving DecidableEq

/-- How a symbol appears to other modules. -/
inductive Visibility
  | default
  /-- Not listed for other modules. -/
  | hidden
  /-- Listed, but references from this module stay inside it. -/
  | locallyBound
  deriving DecidableEq

/-- A sequence of instructions and the terminator that ends it. -/
structure Block where
  label : Label
  instrs : List Instr
  terminator : Terminator
  deriving DecidableEq

/-- A function, defined here or elsewhere. -/
structure Function where
  name : String
  params : List (Register × TypeId)
  returnType : Option TypeId
  body : Table Label Block
  linkage : Linkage
  visibility : Visibility

/-- Where a register is defined: by a parameter, or by an instruction of a block. -/
inductive Definition
  | param (position : Nat)
  | instr (block : Label) (position : Nat)
  deriving DecidableEq

namespace Function

/-- A function that is defined elsewhere. -/
def declare (name : String) (params : List (Register × TypeId)) (returnType : Option TypeId) :
    Function :=
  ⟨name, params, returnType, .empty, .external, .default⟩

/-- A function with the given blocks; of two with one label the later is kept. -/
def define (name : String) (params : List (Register × TypeId)) (returnType : Option TypeId)
    (blocks : List Block) : Function :=
  ⟨name, params, returnType, .ofList (blocks.map fun b => (b.label, b)), .external, .default⟩

def isDeclaration (f : Function) : Bool := f.body.isEmpty

/-- The blocks in layout order. -/
def blocks (f : Function) : List Block := f.body.values

/-- Keep a block under a key, whatever its label. -/
def insertBlock (f : Function) (key : Label) (b : Block) : Function :=
  { f with body := f.body.insert key b }

/-- Add a block under its own label, which must be free. -/
def addBlock (f : Function) (b : Block) : Except Fault Function :=
  if f.body.contains b.label then .error (.labelTaken b.label)
  else .ok (f.insertBlock b.label b)

/-- The registers a block defines, with the positions of their instructions. -/
def blockDefinitions (b : Block) : List (Register × Definition) :=
  b.instrs.zipIdx.filterMap fun (i, k) => i.dest?.map fun r => (r, .instr b.label k)

/-- Every definition, parameters first and then in layout order. -/
def definitionList (f : Function) : List (Register × Definition) :=
  f.params.zipIdx.map (fun (p, k) => (p.1, .param k)) ++ f.blocks.flatMap blockDefinitions

/-- The definition of each register. If a register is defined twice the later counts. -/
def definitions (f : Function) : Table Register Definition := .ofList f.definitionList

/-- The registers that are defined, in order, with repetitions. -/
def definedRegisters (f : Function) : List Register := f.definitionList.map (·.1)

/-- The registers a block reads. -/
def blockUses (b : Block) : List Register :=
  b.instrs.flatMap Instr.uses ++ b.terminator.uses

/-- The labels a block names: those of its phis, then those it may go to. -/
def blockLabels (b : Block) : List Label :=
  b.instrs.flatMap Instr.predecessors ++ b.terminator.successors

/-- The first fault of a block: registers are looked at before labels. -/
def blockFault? (f : Function) (b : Block) : Option Fault :=
  let defined := f.definedRegisters
  match (blockUses b).find? fun r => !defined.contains r with
  | some r => some (.undefinedRegister r)
  | none =>
    ((blockLabels b).find? fun l => !f.body.contains l).map fun l => .undefinedBlock f.name l

/-- The first violation of static single assignment form. -/
def ssaFault? (f : Function) : Option Fault :=
  if f.isDeclaration then none
  else if !f.body.contains .entry then some .missingEntry
  else
    match firstRepeat? f.definedRegisters with
    | some r => some (.duplicateRegister r)
    | none => f.blocks.findSome? f.blockFault?

/-- Check static single assignment form. -/
def checkSsa (f : Function) : Except Fault Unit :=
  match f.ssaFault? with
  | some fault => .error fault
  | none => .ok ()

/-- What the function's blocks read, in layout order. -/
def blockOperands (b : Block) : List Operand :=
  b.instrs.flatMap Instr.operands ++ b.terminator.operands

end Function

end PointsTo
