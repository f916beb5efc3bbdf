import Mathlib
import PointsTo.Extract.Extractor
import PointsTo.Proofs.Registration
import PointsTo.Proofs.Verification

/-!
# The parts of a module

An extractor's table holds the parts of its module in layout order, each with the
objects it owns, and in between the constants that the parts lead to. If each block is
kept under its own label, no part comes twice.
-/

namespace PointsTo

/-! ## Keys and positions -/

theorem flatMap_zipIdx_fst {α β : Type} (l : List α) (f : α → List β) :
    (l.zipIdx.flatMap fun e => f e.1) = l.flatMap f := by
  have h : (l.zipIdx.map Prod.fst).flatMap f = l.flatMap f := by rw [List.zipIdx_map_fst]
  rwa [List.flatMap_map] at h

/-- Lists that are told apart by a key have no element in common. -/
theorem nodup_flatMap_of_key {α β γ : Type} {l : List α} {f : α → List β} (key : β → γ)
    (name : α → γ) (hname : (l.map name).Nodup) (hkey : ∀ a ∈ l, ∀ b ∈ f a, key b = name a)
    (hf : ∀ a ∈ l, (f a).Nodup) : (l.flatMap f).Nodup := by
  rw [List.nodup_flatMap]
  refine ⟨hf, ?_⟩
  rw [List.Nodup, List.pairwise_map] at hname
  refine hname.imp_of_mem fun {a b} ha hb hne => ?_
  intro c hca hcb
  exact hne ((hkey a ha c hca).symm.trans (hkey b hb c hcb))

theorem nodup_map_zipIdx {α β : Type} (mk : Nat → β) (hmk : Function.Injective mk) (l : List α) :
    (l.zipIdx.map fun e => mk e.2).Nodup := by
  have h : (l.zipIdx.map Prod.snd).Nodup := by
    rw [List.zipIdx_map_snd]
    exact List.nodup_range'
  have hmap := h.map hmk
  rwa [List.map_map] at hmap

/-- The elements of a list, each with the key of its position. -/
theorem mem_map_zipIdx_iff {α β : Type} (mk : Nat → β) (hmk : Function.Injective mk)
    {l : List α} {i : Nat} {a : α} :
    (mk i, a) ∈ (l.zipIdx.map fun e => (mk e.2, e.1)) ↔ l[i]? = some a := by
  simp only [List.mem_map, Prod.exists, Prod.mk.injEq, List.mk_mem_zipIdx_iff_getElem?]
  constructor
  · rintro ⟨_, _, h, hi, rfl⟩
    rwa [hmk hi] at h
  · exact fun h => ⟨a, i, h, rfl, rfl⟩

theorem Table.keys_pairwise {κ α : Type} [Ord κ] (t : Table κ α) :
    t.keys.Pairwise fun a b => compare a b = .lt :=
  List.pairwise_map.2 t.sorted

theorem Table.nodup_keys {κ α : Type} [Ord κ] [Std.ReflOrd κ] (t : Table κ α) :
    t.keys.Nodup := by
  refine t.keys_pairwise.imp fun {a b} hlt heq => ?_
  rw [heq, Std.ReflOrd.compare_self] at hlt
  cases hlt

/-- Each block is kept under its own label. -/
def Function.Labelled (f : Function) : Prop := ∀ e ∈ f.body.entries, e.2.label = e.1

namespace Function

variable {f : Function}

theorem Labelled.map_label (h : f.Labelled) : f.blocks.map Block.label = f.body.keys := by
  unfold blocks Table.values Table.keys
  rw [List.map_map]
  exact List.map_congr_left fun e he => h e he

theorem Labelled.nodup (h : f.Labelled) : (f.blocks.map Block.label).Nodup :=
  h.map_label ▸ f.body.nodup_keys

/-- The labels under which there are blocks are those of the blocks. -/
theorem Labelled.contains_iff (h : f.Labelled) {l : Label} :
    f.body.contains l = true ↔ ∃ b ∈ f.blocks, b.label = l := by
  rw [Table.contains_iff_mem_keys, ← h.map_label, List.mem_map]

/-- A block is found under its label. -/
theorem Labelled.get? (h : f.Labelled) {b : Block} (hb : b ∈ f.blocks) :
    f.body.get? b.label = some b := by
  obtain ⟨e, he, rfl⟩ := List.mem_map.1 hb
  rw [h e he, Table.get?_eq_some_iff]
  exact he

end Function

namespace Module

variable {m : Module}

def Labelled (m : Module) : Prop := ∀ f ∈ m.functions, f.Labelled

theorem nodup_functionList (m : Module) : (m.functionList.map Prod.fst).Nodup := by
  rw [functionList, List.map_map]
  exact nodup_map_zipIdx FunctionId.mk (fun _ _ h => by simpa using h) m.functions

theorem nodup_globalList (m : Module) : (m.globalList.map Prod.fst).Nodup := by
  rw [globalList, List.map_map]
  exact nodup_map_zipIdx GlobalId.mk (fun _ _ h => by simpa using h) m.globals

theorem mem_functionList_iff {f : FunctionId} {function : Function} :
    (f, function) ∈ m.functionList ↔ m.function? f = some function :=
  mem_map_zipIdx_iff FunctionId.mk fun _ _ h => by simpa using h

theorem mem_globalList_iff {g : GlobalId} {global : Global} :
    (g, global) ∈ m.globalList ↔ m.global? g = some global :=
  mem_map_zipIdx_iff GlobalId.mk fun _ _ h => by simpa using h

theorem mem_functions_of_mem {f : FunctionId} {function : Function}
    (h : (f, function) ∈ m.functionList) : function ∈ m.functions :=
  List.mem_of_getElem? (mem_functionList_iff.1 h)

theorem mem_globals_of_mem {g : GlobalId} {global : Global} (h : (g, global) ∈ m.globalList) :
    global ∈ m.globals :=
  List.mem_of_getElem? (mem_globalList_iff.1 h)

theorem map_snd_functionList (m : Module) : m.functionList.map Prod.snd = m.functions := by
  simp [functionList, Function.comp_def]

theorem map_snd_globalList (m : Module) : m.globalList.map Prod.snd = m.globals := by
  simp [globalList, Function.comp_def]

/-- The module has a function with a block. -/
structure HasBlock (m : Module) (f : FunctionId) (function : Function) (b : Block) : Prop where
  mem_functionList : (f, function) ∈ m.functionList
  mem_blocks : b ∈ function.blocks

/-- The module has a function with a block with an instruction at a position. -/
structure HasInstr (m : Module) (f : FunctionId) (function : Function) (b : Block) (i : Instr)
    (k : Nat) : Prop extends m.HasBlock f function b where
  mem_instrs : (i, k) ∈ b.instrs.zipIdx

theorem HasInstr.instruction? {f : FunctionId} {function : Function} {b : Block} {i : Instr}
    {k : Nat} (h : m.HasInstr f function b i k) (hl : m.Labelled) :
    m.instruction? ⟨f, b.label, k⟩ = some i := by
  have hfunction := mem_functionList_iff.1 h.mem_functionList
  have hblock := (hl function (mem_functions_of_mem h.mem_functionList)).get? h.mem_blocks
  have hinstr := List.mk_mem_zipIdx_iff_getElem?.1 h.mem_instrs
  simp [Module.instruction?, block?, hfunction, hblock, hinstr]

end Module

/-! ## References to constants -/

/-- The constants that an instruction reads, in order. -/
def Instr.constants (i : Instr) : List ConstId := i.operands.filterMap Operand.constant?

/-- The constants that a terminator reads, and then its case values. -/
def Terminator.constants (t : Terminator) : List ConstId :=
  t.operands.filterMap Operand.constant? ++ t.caseValues

def Block.constants (b : Block) : List ConstId :=
  b.instrs.flatMap Instr.constants ++ b.terminator.constants

def Function.constants (f : Function) : List ConstId := f.blocks.flatMap Block.constants

/-- The constants that a module refers to, in the order the passes meet them. -/
def Module.references (m : Module) : List ConstId :=
  m.globals.filterMap (·.initializer) ++ m.functions.flatMap Function.constants

theorem mem_filterMap_constant? {operands : List Operand} {c : ConstId} :
    c ∈ operands.filterMap Operand.constant? ↔ .imm c ∈ operands := by
  rw [List.mem_filterMap]
  constructor
  · rintro ⟨o, ho, hc⟩
    cases o with
    | imm d => cases hc; exact ho
    | reg r => cases hc
    | label l => cases hc
  · exact fun h => ⟨_, h, rfl⟩

/-- References are reads and case values. -/
theorem Module.mem_references_iff {m : Module} {c : ConstId} :
    c ∈ m.references ↔ m.Reads c ∨ m.HasCase c := by
  simp only [references, Function.constants, Block.constants, Instr.constants,
    Terminator.constants, List.mem_append, List.mem_flatMap, mem_filterMap_constant?]
  constructor
  · rintro (h | ⟨f, hf, b, hb, ⟨i, hi, hc⟩ | hc | hc⟩)
    · obtain ⟨g, hg, hc⟩ := List.mem_filterMap.1 h
      exact .inl (.initializer g hg hc)
    · exact .inl (.instr f b i hf hb hi hc)
    · exact .inl (.terminator f b hf hb hc)
    · exact .inr ⟨f, hf, b, hb, hc⟩
  · rintro ((⟨g, hg, hc⟩ | ⟨f, b, i, hf, hb, hi, hc⟩ | ⟨f, b, hf, hb, hc⟩) | ⟨f, hf, b, hb, hc⟩)
    · exact .inl (List.mem_filterMap.2 ⟨g, hg, hc⟩)
    · exact .inr ⟨f, hf, b, hb, .inl ⟨i, hi, hc⟩⟩
    · exact .inr ⟨f, hf, b, hb, .inr (.inl hc)⟩
    · exact .inr ⟨f, hf, b, hb, .inr (.inr hc)⟩

/-! ## Parts -/

namespace Setup

variable {s : Setup}

/-- How many objects an instruction owns. -/
def instrObjects (s : Setup) (place : Place) : Instr → Nat
  | .alloca .. => s.config.allocaObjects
  | .invoke call => s.callObjects place call
  | _ => 0

def blockParts (s : Setup) (f : FunctionId) (b : Block) : List (Value × Nat) :=
  (.block f b.label, 0) ::
    (b.instrs.zipIdx.map fun (i, k) =>
      (.instruction ⟨f, b.label, k⟩, s.instrObjects ⟨f, b.label, k⟩ i)) ++
    [(.terminator f b.label, 0)]

def functionParts (s : Setup) (f : FunctionId) (function : Function) : List (Value × Nat) :=
  (function.params.zipIdx.map fun (_, k) => (.argument f k, 0)) ++
    function.blocks.flatMap (s.blockParts f)

def symbolParts (s : Setup) : List (Value × Nat) :=
  (s.unit.globalList.map fun (g, _) => (.global g, s.config.globalObjects)) ++
    s.unit.functionList.map fun (f, _) => (.function f, 0)

def bodyParts (s : Setup) : List (Value × Nat) :=
  s.unit.functionList.flatMap fun (f, function) => s.functionParts f function

/-- What a module has, constants left out, with the objects that each part owns. -/
def parts (s : Setup) : List (Value × Nat) := s.symbolParts ++ s.bodyParts

theorem fst_blockParts (f : FunctionId) (b : Block) :
    (s.blockParts f b).map Prod.fst = [.block f b.label] ++
      (b.instrs.zipIdx.flatMap fun e => [.instruction ⟨f, b.label, e.2⟩]) ++
      [.terminator f b.label] := by
  simp [blockParts, List.map_eq_flatMap, List.flatMap_assoc]

theorem fst_functionParts (f : FunctionId) (function : Function) :
    (s.functionParts f function).map Prod.fst =
      (function.params.zipIdx.flatMap fun e => [.argument f e.2]) ++
        function.blocks.flatMap fun b => (s.blockParts f b).map Prod.fst := by
  rw [functionParts, List.map_append, List.map_map, List.map_flatMap, List.map_eq_flatMap]
  rfl

theorem fst_parts (s : Setup) :
    s.parts.map Prod.fst = (s.unit.globalList.map fun e => .global e.1) ++
      ((s.unit.functionList.map fun e => .function e.1) ++ s.bodyParts.map Prod.fst) := by
  simp [parts, symbolParts, Function.comp_def]

/-! ### Membership -/

theorem global_mem_symbolParts {g : GlobalId} {global : Global}
    (h : (g, global) ∈ s.unit.globalList) :
    (.global g, s.config.globalObjects) ∈ s.symbolParts :=
  List.mem_append_left _ (List.mem_map.2 ⟨_, h, rfl⟩)

theorem function_mem_symbolParts {f : FunctionId} {function : Function}
    (h : (f, function) ∈ s.unit.functionList) : (.function f, 0) ∈ s.symbolParts :=
  List.mem_append_right _ (List.mem_map.2 ⟨_, h, rfl⟩)

theorem global_mem_parts {g : GlobalId} {global : Global} (h : (g, global) ∈ s.unit.globalList) :
    (.global g, s.config.globalObjects) ∈ s.parts :=
  List.mem_append_left _ (global_mem_symbolParts h)

theorem function_mem_parts {f : FunctionId} {function : Function}
    (h : (f, function) ∈ s.unit.functionList) : (.function f, 0) ∈ s.parts :=
  List.mem_append_left _ (function_mem_symbolParts h)

theorem mem_parts_of_function {f : FunctionId} {function : Function} {call : Value × Nat}
    (h : (f, function) ∈ s.unit.functionList) (hcall : call ∈ s.functionParts f function) :
    call ∈ s.parts :=
  List.mem_append_right _ (List.mem_flatMap.2 ⟨_, h, hcall⟩)

theorem mem_parts_of_block {f : FunctionId} {function : Function} {b : Block} {call : Value × Nat}
    (h : s.unit.HasBlock f function b) (hcall : call ∈ s.blockParts f b) : call ∈ s.parts :=
  mem_parts_of_function h.mem_functionList
    (List.mem_append_right _ (List.mem_flatMap.2 ⟨b, h.mem_blocks, hcall⟩))

theorem argument_mem_parts {f : FunctionId} {function : Function} {p : Register × TypeId} {k : Nat}
    (h : (f, function) ∈ s.unit.functionList) (hp : (p, k) ∈ function.params.zipIdx) :
    (.argument f k, 0) ∈ s.parts :=
  mem_parts_of_function h (List.mem_append_left _ (List.mem_map.2 ⟨_, hp, rfl⟩))

theorem block_mem_parts {f : FunctionId} {function : Function} {b : Block}
    (h : s.unit.HasBlock f function b) : (.block f b.label, 0) ∈ s.parts :=
  mem_parts_of_block h List.mem_cons_self

theorem terminator_mem_parts {f : FunctionId} {function : Function} {b : Block}
    (h : s.unit.HasBlock f function b) : (.terminator f b.label, 0) ∈ s.parts :=
  mem_parts_of_block h (List.mem_append_right _ (List.mem_singleton_self _))

theorem instruction_mem_parts {f : FunctionId} {function : Function} {b : Block} {i : Instr}
    {k : Nat} (h : s.unit.HasInstr f function b i k) :
    (.instruction ⟨f, b.label, k⟩, s.instrObjects ⟨f, b.label, k⟩ i) ∈ s.parts :=
  mem_parts_of_block h.toHasBlock (List.mem_append_left _
    (List.mem_cons_of_mem _ (List.mem_map.2 ⟨_, h.mem_instrs, rfl⟩)))

/-- A label under which there is a block is a part. -/
theorem label_mem_parts {f : FunctionId} {function : Function} {l : Label}
    (hf : (f, function) ∈ s.unit.functionList) (hl : s.unit.Labelled)
    (h : function.body.contains l = true) : (.block f l, 0) ∈ s.parts := by
  have hlabelled := hl function (Module.mem_functions_of_mem hf)
  obtain ⟨b, hb, rfl⟩ := hlabelled.contains_iff.1 h
  exact block_mem_parts ⟨hf, hb⟩

/-! ### What the requests ask for -/

/-- The requests after those for symbols. -/
def laterRequests (s : Setup) : List Request :=
  constantRequests (s.unit.globals.filterMap (·.initializer)) ++
    s.unit.functionList.flatMap fun (f, function) => s.functionRequests f function

theorem requests_eq (s : Setup) :
    s.requests = (s.symbolParts.map fun call => .value call.1 call.2) ++ s.laterRequests := by
  simp [requests, symbolParts, laterRequests, Function.comp_def]

theorem part_instrRequest (place : Place) (i : Instr) :
    (s.instrRequest place i).part s = [(.instruction place, s.instrObjects place i)] := by
  cases i <;> rfl

@[simp] theorem flatMap_part_constantRequests (ids : List ConstId) :
    (constantRequests ids).flatMap (Request.part s) = [] := by
  simp [constantRequests, Request.part]

@[simp] theorem filterMap_constant?_constantRequests (ids : List ConstId) :
    (constantRequests ids).filterMap Request.constant? = ids := by
  simp [constantRequests, List.filterMap_map, Function.comp_def, Request.constant?]

@[simp] theorem constant?_instrRequest (place : Place) (i : Instr) :
    (s.instrRequest place i).constant? = none := by
  cases i <;> rfl

theorem part_instrRequests (place : Place) (i : Instr) :
    (s.instrRequests place i).flatMap (Request.part s) =
      [(.instruction place, s.instrObjects place i)] := by
  simp [instrRequests, part_instrRequest]

theorem constants_instrRequests (place : Place) (i : Instr) :
    (s.instrRequests place i).filterMap Request.constant? = i.constants := by
  simp [instrRequests, Instr.constants]

theorem part_blockRequests (f : FunctionId) (b : Block) :
    (s.blockRequests f b).flatMap (Request.part s) = s.blockParts f b := by
  simp [blockRequests, blockParts, Request.part, List.flatMap_assoc, part_instrRequests,
    List.map_eq_flatMap]

theorem constants_blockRequests (f : FunctionId) (b : Block) :
    (s.blockRequests f b).filterMap Request.constant? = b.constants := by
  have hinstrs : (b.instrs.zipIdx.flatMap fun e => s.instrRequests ⟨f, b.label, e.2⟩ e.1).filterMap
      Request.constant? = b.instrs.flatMap Instr.constants := by
    rw [List.filterMap_flatMap]
    simp only [constants_instrRequests]
    exact flatMap_zipIdx_fst _ _
  simp only [blockRequests, List.cons_append]
  rw [List.filterMap_cons_none rfl, List.filterMap_append, List.filterMap_cons_none rfl, hinstrs,
    filterMap_constant?_constantRequests]
  rfl

theorem part_functionRequests (f : FunctionId) (function : Function) :
    (s.functionRequests f function).flatMap (Request.part s) = s.functionParts f function := by
  simp [functionRequests, functionParts, Request.part, List.flatMap_assoc, part_blockRequests,
    List.map_eq_flatMap]

theorem constants_functionRequests (f : FunctionId) (function : Function) :
    (s.functionRequests f function).filterMap Request.constant? = function.constants := by
  have harguments : (function.params.zipIdx.map fun e =>
      Request.value (.argument f e.2) 0).filterMap Request.constant? = [] := by
    simp [Request.constant?]
  simp only [functionRequests, List.cons_append]
  rw [List.filterMap_cons_none rfl, List.filterMap_append, harguments, List.filterMap_flatMap]
  simp only [constants_blockRequests, List.nil_append, Function.constants]

theorem part_laterRequests : s.laterRequests.flatMap (Request.part s) = s.bodyParts := by
  simp [laterRequests, bodyParts, List.flatMap_assoc, part_functionRequests]

theorem constants_laterRequests :
    s.laterRequests.filterMap Request.constant? = s.unit.references := by
  have hbodies : (s.unit.functionList.flatMap fun e => s.functionRequests e.1 e.2).filterMap
      Request.constant? = s.unit.functions.flatMap Function.constants := by
    rw [List.filterMap_flatMap]
    simp only [constants_functionRequests]
    rw [← s.unit.map_snd_functionList, List.flatMap_map]
  simp [laterRequests, Module.references, hbodies]

end Setup

/-! ## No part comes twice -/

/-- The function that a value is in. -/
def Value.home? : Value → Option FunctionId
  | .argument f _ => some f
  | .block f _ => some f
  | .instruction i => some i.function
  | .terminator f _ => some f
  | _ => none

/-- The block that a value is, or is in. -/
def Value.label? : Value → Option Label
  | .block _ l => some l
  | .instruction i => some i.block
  | .terminator _ l => some l
  | _ => none

theorem Value.isConstant_of_home? {v : Value} {f : FunctionId} (h : v.home? = some f) :
    v.isConstant = false := by
  cases v <;> first | rfl | cases h

namespace Setup

variable {s : Setup}

theorem mem_blockParts {f : FunctionId} {b : Block} {v : Value}
    (h : v ∈ (s.blockParts f b).map Prod.fst) : v.home? = some f ∧ v.label? = some b.label := by
  simp only [blockParts, List.cons_append, List.map_cons, List.map_append, List.map_map,
    List.mem_cons, List.mem_append, List.mem_map, List.map_nil, List.not_mem_nil, or_false] at h
  rcases h with rfl | ⟨e, -, rfl⟩ | rfl <;> exact ⟨rfl, rfl⟩

theorem mem_functionParts {f : FunctionId} {function : Function} {v : Value}
    (h : v ∈ (s.functionParts f function).map Prod.fst) : v.home? = some f := by
  rw [functionParts, List.map_append, List.map_flatMap, List.mem_append, List.mem_flatMap,
    List.map_map] at h
  rcases h with h | ⟨b, -, h⟩
  · obtain ⟨e, -, rfl⟩ := List.mem_map.1 h
    rfl
  · exact (mem_blockParts h).1

theorem mem_symbolParts {v : Value} (h : v ∈ s.symbolParts.map Prod.fst) :
    v.home? = none ∧ v.isConstant = false := by
  rw [symbolParts, List.map_append, List.map_map, List.map_map, List.mem_append] at h
  rcases h with h | h <;> obtain ⟨e, -, rfl⟩ := List.mem_map.1 h <;> exact ⟨rfl, rfl⟩

theorem mem_bodyParts {v : Value} (h : v ∈ s.bodyParts.map Prod.fst) : ∃ f, v.home? = some f := by
  rw [bodyParts, List.map_flatMap] at h
  obtain ⟨e, -, h⟩ := List.mem_flatMap.1 h
  exact ⟨_, mem_functionParts h⟩

/-- The blocks among the parts are those of the functions. -/
theorem hasBlock_of_mem_parts {f : FunctionId} {l : Label} {k : Nat}
    (h : (.block f l, k) ∈ s.parts) :
    ∃ function b, s.unit.HasBlock f function b ∧ b.label = l := by
  rcases List.mem_append.1 h with h | h
  · cases (mem_symbolParts (List.mem_map_of_mem h)).1
  · obtain ⟨⟨f', function⟩, hf, h⟩ := List.mem_flatMap.1 h
    rcases List.mem_append.1 h with h | h
    · obtain ⟨e, -, heq⟩ := List.mem_map.1 h
      cases heq
    · obtain ⟨b, hb, h⟩ := List.mem_flatMap.1 h
      obtain ⟨hhome, hlabel⟩ := mem_blockParts (List.mem_map_of_mem h)
      cases hhome
      cases hlabel
      exact ⟨function, b, ⟨hf, hb⟩, rfl⟩

theorem isConstant_of_mem_parts {v : Value} (h : v ∈ s.parts.map Prod.fst) :
    v.isConstant = false := by
  rw [parts, List.map_append, List.mem_append] at h
  rcases h with h | h
  · exact (mem_symbolParts h).2
  · obtain ⟨f, hf⟩ := mem_bodyParts h
    exact Value.isConstant_of_home? hf

theorem nodup_blockParts (f : FunctionId) (b : Block) :
    ((s.blockParts f b).map Prod.fst).Nodup := by
  have hinstrs : (b.instrs.zipIdx.map fun e => Value.instruction ⟨f, b.label, e.2⟩).Nodup :=
    nodup_map_zipIdx (fun k => Value.instruction ⟨f, b.label, k⟩)
      (fun _ _ h => by simpa using h) _
  simp only [blockParts, List.cons_append, List.map_cons, List.map_append, List.map_map,
    List.map_nil, Function.comp_def, List.nodup_cons, List.nodup_append]
  refine ⟨by simp, hinstrs, by simp, fun v hv w hw hvw => ?_⟩
  obtain ⟨e, -, rfl⟩ := List.mem_map.1 hv
  rw [List.mem_singleton, ← hvw] at hw
  cases hw

theorem nodup_functionParts (f : FunctionId) {function : Function} (h : function.Labelled) :
    ((s.functionParts f function).map Prod.fst).Nodup := by
  have harguments : (function.params.zipIdx.map fun e => Value.argument f e.2).Nodup :=
    nodup_map_zipIdx (Value.argument f) (fun _ _ h => by simpa using h) _
  rw [functionParts, List.map_append, List.map_flatMap, List.map_map, List.nodup_append]
  refine ⟨harguments, ?_, ?_⟩
  · exact nodup_flatMap_of_key Value.label? (fun b => some b.label)
      (by simpa [Function.comp_def] using h.nodup.map (Option.some_injective _))
      (fun b _ v hv => (mem_blockParts hv).2) fun b _ => nodup_blockParts f b
  · intro v hv w hw hvw
    obtain ⟨e, -, rfl⟩ := List.mem_map.1 hv
    obtain ⟨b, -, hw⟩ := List.mem_flatMap.1 hw
    have hlabel := (mem_blockParts hw).2
    rw [← hvw] at hlabel
    cases hlabel

theorem nodup_symbolParts : (s.symbolParts.map Prod.fst).Nodup := by
  rw [symbolParts, List.map_append, List.map_map, List.map_map, List.nodup_append]
  refine ⟨?_, ?_, ?_⟩
  · have hg := s.unit.nodup_globalList.map (f := Value.global) fun _ _ h => by simpa using h
    rwa [List.map_map] at hg
  · have hf := s.unit.nodup_functionList.map (f := Value.function) fun _ _ h => by simpa using h
    rwa [List.map_map] at hf
  · intro v hv w hw hvw
    obtain ⟨e, -, rfl⟩ := List.mem_map.1 hv
    obtain ⟨e', -, rfl⟩ := List.mem_map.1 hw
    cases hvw

theorem nodup_bodyParts (h : s.unit.Labelled) : (s.bodyParts.map Prod.fst).Nodup := by
  rw [bodyParts, List.map_flatMap]
  exact nodup_flatMap_of_key Value.home? (fun e => some e.1)
    (by simpa [Function.comp_def] using s.unit.nodup_functionList.map (Option.some_injective _))
    (fun e _ v hv => mem_functionParts hv)
    fun e he => nodup_functionParts e.1 (h e.2 (Module.mem_functions_of_mem he))

theorem nodup_parts (h : s.unit.Labelled) : (s.parts.map Prod.fst).Nodup := by
  rw [parts, List.map_append, List.nodup_append]
  refine ⟨nodup_symbolParts, nodup_bodyParts h, fun v hv w hw hvw => ?_⟩
  obtain ⟨f, hf⟩ := mem_bodyParts hw
  rw [← hvw, (mem_symbolParts hv).1] at hf
  cases hf

theorem plain_of_mem_laterRequests {q : Request} (h : q ∈ s.laterRequests) : q.Plain := by
  cases q with
  | value v k =>
    have hv : v ∈ s.bodyParts.map Prod.fst := by
      rw [← part_laterRequests, List.map_flatMap, List.mem_flatMap]
      exact ⟨_, h, List.mem_singleton_self v⟩
    obtain ⟨f, hf⟩ := mem_bodyParts hv
    exact Value.isConstant_of_home? hf
  | enter function => trivial
  | call i invoke => trivial
  | constant c => trivial

end Setup

end PointsTo
