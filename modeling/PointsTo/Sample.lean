import PointsTo.Builder

/-!
# Sample modules

Small modules that show the shapes an extraction has to deal with.
-/

namespace PointsTo.Sample

private def wide (n : Nat) : Const := .int .i64 n

private def plainAccess : Access := ⟨none, none, false⟩

/-- A function that jumps to its own entry for ever. -/
def selfLoop (name : String) : Function :=
  .define name [] none [⟨.entry, [], .jump .entry⟩]

/-- A stack slot for a pointer is filled with null and read back. -/
def allocaLoad : Build Unit := do
  let ptr ← Build.pointer
  let one ← Build.constant (wide 1)
  let null ← Build.constant .null
  let _ ← Build.function (.define "main" [] none
    [⟨.entry,
      [.alloca ⟨0⟩ ptr (.imm one) (some 8),
        .store (.reg ⟨0⟩) (.imm null) plainAccess,
        .load ⟨1⟩ ptr (.reg ⟨0⟩) plainAccess],
      .ret none⟩])

/-- One constant is stored to two stack slots. -/
def sharedConstant : Build Unit := do
  let ptr ← Build.pointer
  let one ← Build.constant (wide 1)
  let null ← Build.constant .null
  let slot (r : Nat) : Instr := .alloca ⟨r⟩ ptr (.imm one) none
  let fill (r : Nat) : Instr := .store (.reg ⟨r⟩) (.imm null) plainAccess
  let _ ← Build.function (.define "main" [] none
    [⟨.entry, [slot 0, slot 1, fill 0, fill 1], .ret none⟩])

/-- `main` calls a function that is defined elsewhere and returns its result. -/
def externalCall (callee : String) : Build Unit := do
  let ptr ← Build.pointer
  let i64 ← Build.int 64
  let calleeId ← Build.function (.declare callee [(⟨0⟩, i64)] (some ptr))
  let address ← Build.constant (.functionAddr calleeId)
  let length ← Build.constant (wide 16)
  let _ ← Build.function (.define "main" [] (some ptr)
    [⟨.entry, [.invoke ⟨.imm address, [.imm length], some ⟨0⟩, some ptr⟩],
      .ret (some (.reg ⟨0⟩))⟩])

/-- Two linked nodes in global storage and a loop that follows the links. -/
def linkedList : Build Unit := do
  let ptr ← Build.pointer
  let i64 ← Build.int 64
  let node ← Build.type (.struct [ptr, i64])
  let tail ← Build.global ⟨"tail", node, none, .internal, .default, false⟩
  let head ← Build.global ⟨"head", node, none, .external, .default, false⟩
  let null ← Build.constant .null
  let zero ← Build.constant (wide 0)
  let one ← Build.constant (wide 1)
  let tailAddress ← Build.constant (.globalAddr tail)
  let headAddress ← Build.constant (.globalAddr head)
  let tailContent ← Build.constant (.aggregate node [null, zero])
  let headContent ← Build.constant (.aggregate node [tailAddress, one])
  Build.initializer tail (some tailContent)
  Build.initializer head (some headContent)
  let entry : Block := ⟨.entry,
    [.icmp ⟨2⟩ i64 .eq (.reg ⟨1⟩) (.imm zero),
      .select ⟨3⟩ (.reg ⟨2⟩) (.reg ⟨0⟩) (.imm headAddress) ptr],
    .branch (.reg ⟨2⟩) ⟨1⟩ ⟨2⟩⟩
  let loop : Block := ⟨⟨1⟩,
    [.phi ⟨4⟩ ptr [(.entry, .reg ⟨3⟩), (⟨1⟩, .reg ⟨6⟩)],
      .elementPtr ⟨5⟩ node (.reg ⟨4⟩) [.imm zero],
      .load ⟨6⟩ ptr (.reg ⟨5⟩) ⟨some 8, none, false⟩,
      .cast ⟨7⟩ .ptrToInt i64 (.reg ⟨6⟩),
      .iarith ⟨8⟩ i64 .add (.reg ⟨7⟩) (.reg ⟨1⟩),
      .icmp ⟨9⟩ ptr .eq (.reg ⟨6⟩) (.imm null)],
    .branch (.reg ⟨9⟩) ⟨2⟩ ⟨1⟩⟩
  let exit : Block := ⟨⟨2⟩, [], .ret (some (.reg ⟨1⟩))⟩
  let _ ← Build.function
    (.define "walk" [(⟨0⟩, ptr), (⟨1⟩, i64)] (some i64) [entry, loop, exit])

/-- Floating-point arithmetic that leads to every terminator with several targets. -/
def branching : Build Unit := do
  let i64 ← Build.int 64
  let double ← Build.type (.float .double)
  let seven ← Build.constant (wide 7)
  let nine ← Build.constant (wide 9)
  let entry : Block := ⟨.entry,
    [.farith ⟨3⟩ double .fadd (.reg ⟨1⟩) (.reg ⟨2⟩),
      .fcmp ⟨4⟩ double .olt (.reg ⟨3⟩) (.reg ⟨1⟩),
      .iarith ⟨5⟩ i64 .add (.reg ⟨0⟩) (.imm seven)],
    .branch (.reg ⟨4⟩) ⟨1⟩ ⟨1⟩⟩
  let dispatch : Block := ⟨⟨1⟩, [], .switch (.reg ⟨5⟩) ⟨2⟩ [(seven, ⟨2⟩), (nine, ⟨3⟩)]⟩
  let _ ← Build.function (.define "dispatch" [(⟨0⟩, i64), (⟨1⟩, double), (⟨2⟩, double)] none
    [entry, dispatch, ⟨⟨2⟩, [], .ret none⟩, ⟨⟨3⟩, [], .trap⟩])

end PointsTo.Sample
