import Mathlib
import PointsTo.Proofs.CallResolution
import PointsTo.Proofs.Extractors
import PointsTo.Proofs.PlanSteps

/-!
# What a plan mentions

Every row of a plan has the columns of a standard relation. The objects it mentions are
parts of the module, what they own, constants that the module leads to and special
objects. Two kinds of objects may lead nowhere: a block that an operand names by a label,
and a case value of a switch.
-/

namespace PointsTo

/-- The models that are always there: allocators, of any names, and memory copies. -/
def CallModels.Bundled (s : CallModels) : Prop :=
  ∀ model ∈ s.models, (∃ symbols, model = .heapAllocator symbols) ∨ model = .memoryCopy

/-- An object that a description of the module may mention. -/
inductive Setup.Mentions (s : Setup) : ObjectRef → Prop
  | special (position : Nat) : s.Mentions (.special position)
  | part {v : Value} {k : Nat} : (v, k) ∈ s.parts → s.Mentions (.value v)
  | storage {v : Value} {k : Nat} : (v, k) ∈ s.parts → s.Mentions (.storage v)
  | owned {v : Value} {k n : Nat} : (v, k) ∈ s.parts → 0 < n → n ≤ k → s.Mentions (.affiliated v n)
  | constant {c d : ConstId} : c ∈ s.unit.references → s.unit.Reaches c d →
      s.Mentions (.value (s.unit.constantValue d))
  /-- A block that an operand names; nothing says that there is one. -/
  | label {f : FunctionId} {function : Function} {b : Block} {l : Label} :
      s.unit.HasBlock f function b → .label l ∈ Function.blockOperands b →
      s.Mentions (.value (.block f l))
  /-- A case value that the pool lacks. -/
  | missing {c : ConstId} : s.unit.HasCase c → ¬ s.unit.HasConstant c →
      s.Mentions (.missing (.undefinedConstant c))

/-- The kind of column that a cell goes into. -/
def Cell.column : Cell → Column
  | .object _ => .object
  | .int _ => .int
  | .str _ => .str
  | .typeText _ => .str

/-- The row has the columns of a standard relation, and mentions only what it may. -/
structure Row.Fits (s : Setup) (r : Row) : Prop where
  standard : r.relation ∈ Relation.standard
  columns : r.cells.map Cell.column = r.relation.columns
  mentions : ∀ o, .object o ∈ r.cells → s.Mentions o

/-- The relation is a standard one and has the columns. -/
def Relation.Standard (rel : Relation) (columns : List Column) : Prop :=
  rel ∈ Relation.standard ∧ rel.columns = columns

instance (rel : Relation) (columns : List Column) : Decidable (rel.Standard columns) :=
  inferInstanceAs (Decidable (_ ∧ _))

/-- The relations whose rows are meant only for pointers. -/
def Relation.guarded : List Relation :=
  [freeArgument, load, store, move, phi, callArg, callReturn, returned]

/-- All that a step may append or need is known beforehand and fits, and what it guards is meant
for pointers. -/
def Step.Fits (s : Setup) : Step → Prop
  | .row r => r.Fits s
  | .typed v _ => s.Mentions (.value v)
  | .intern _ => True
  | .ifPointer _ rows => ∀ r ∈ rows, r.Fits s ∧ r.relation ∈ Relation.guarded
  | .need o => s.Mentions o
  | .remark _ => True
  | .visited _ => True
  | .acts _ => False

variable {s : Setup}

/-! ## Shapes of rows -/

namespace Row

variable (rel : Relation) {a b c : ObjectRef}

theorem fits_one (h : rel.Standard [.object]) (ha : s.Mentions a) : Row.Fits s ⟨rel, [a]⟩ :=
  ⟨h.1, h.2.symm, by simpa using ha⟩

theorem fits_text (h : rel.Standard [.object, .str]) (ha : s.Mentions a) (text : String) :
    Row.Fits s ⟨rel, [a, text]⟩ :=
  ⟨h.1, h.2.symm, by simpa using ha⟩

theorem fits_typeText (h : rel.Standard [.object, .str]) (ha : s.Mentions a) (id : TypeId) :
    Row.Fits s ⟨rel, [a, .typeText id]⟩ :=
  ⟨h.1, h.2.symm, by simpa using ha⟩

theorem fits_two (h : rel.Standard [.object, .object]) (ha : s.Mentions a) (hb : s.Mentions b) :
    Row.Fits s ⟨rel, [a, b]⟩ :=
  ⟨h.1, h.2.symm, by simpa using ⟨ha, hb⟩⟩

theorem fits_opcode (h : rel.Standard [.object, .str, .object]) (ha : s.Mentions a)
    (text : String) (hb : s.Mentions b) : Row.Fits s ⟨rel, [a, text, b]⟩ :=
  ⟨h.1, h.2.symm, by simpa using ⟨ha, hb⟩⟩

theorem fits_indexed (h : rel.Standard [.object, .int, .object]) (ha : s.Mentions a) (k : Nat)
    (hb : s.Mentions b) : Row.Fits s ⟨rel, [a, k, b]⟩ :=
  ⟨h.1, h.2.symm, by simpa using ⟨ha, hb⟩⟩

theorem fits_three (h : rel.Standard [.object, .object, .object]) (ha : s.Mentions a)
    (hb : s.Mentions b) (hc : s.Mentions c) : Row.Fits s ⟨rel, [a, b, c]⟩ :=
  ⟨h.1, h.2.symm, by simpa using ⟨ha, hb, hc⟩⟩

end Row

/-! ## Operands -/

theorem Scope.lookup_new (f : FunctionId) (function : Function) (r : Register) :
    (Scope.new f function).names.lookup r = (function.definitions.get? r).map fun d =>
      (Value.ofDefinition f d, Scope.definitionType? function d) := by
  unfold Scope.new Table.get?
  induction function.definitions.entries with
  | nil => rfl
  | cons e rest ih =>
    by_cases hr : r = e.1
    · subst hr
      simp
    · have hcompare : compare r e.1 ≠ .eq := fun h => hr (Std.LawfulEqOrd.eq_of_compare h)
      have hbeq : (r == e.1) = false := by simpa using hr
      simpa [List.lookup_cons, hbeq, hcompare] using ih

theorem Module.Checked.ssa_of_block {m : Module} (hm : m.Checked) {f : FunctionId}
    {function : Function} {b : Block} (hb : m.HasBlock f function b) : function.Ssa :=
  (hm.ssa function (mem_functions_of_mem hb.mem_functionList)).resolve_left
    (by simp [Function.not_isDeclaration_of_mem hb.mem_blocks])

theorem Function.mem_blockUses {b : Block} {r : Register} (h : .reg r ∈ blockOperands b) :
    r ∈ blockUses b := by
  rw [blockOperands, List.mem_append, List.mem_flatMap] at h
  rw [blockUses, List.mem_append, List.mem_flatMap]
  rcases h with ⟨i, hi, hr⟩ | hr
  · exact .inl ⟨i, hi, List.mem_filterMap.2 ⟨_, hr, rfl⟩⟩
  · exact .inr (List.mem_filterMap.2 ⟨_, hr, rfl⟩)

theorem Function.mem_blockOperands_of_instr {b : Block} {i : Instr} {o : Operand}
    (hi : i ∈ b.instrs) (ho : o ∈ i.operands) : o ∈ blockOperands b :=
  List.mem_append_left _ (List.mem_flatMap.2 ⟨i, hi, ho⟩)

theorem Module.reads_of_mem_blockOperands {m : Module} {f : FunctionId} {function : Function}
    {b : Block} (hb : m.HasBlock f function b) {c : ConstId}
    (h : .imm c ∈ Function.blockOperands b) : m.Reads c := by
  have hf := mem_functions_of_mem hb.mem_functionList
  rw [Function.blockOperands, List.mem_append, List.mem_flatMap] at h
  rcases h with ⟨i, hi, hc⟩ | hc
  · exact .instr function b i hf hb.mem_blocks hi hc
  · exact .terminator function b hf hb.mem_blocks hc

/-- What a constant is built from is in the pool. -/
theorem Module.hasConstant_of_mem_constantChildren {m : Module} {c d : ConstId}
    (h : d ∈ m.constantChildren c) : m.HasConstant d := by
  have hlt := index_lt_of_mem_constantChildren h
  have hc : c.index < m.constants.entries.length := by
    by_contra hge
    have hnone : m.constants.get? c = none := List.getElem?_eq_none (Nat.le_of_not_lt hge)
    simp [constantChildren_eq_nil hnone] at h
  exact Option.isSome_iff_exists.2 ⟨_, List.getElem?_eq_getElem (hlt.trans hc)⟩

namespace Setup

variable {f : FunctionId} {function : Function} {b : Block}

/-- What defines a register of a function is a part of the module. -/
theorem definition_mem_parts (hf : (f, function) ∈ s.unit.functionList) {r : Register}
    {d : Definition} (h : (r, d) ∈ function.definitionList) :
    ∃ k, (.ofDefinition f d, k) ∈ s.parts := by
  rw [Function.definitionList, List.mem_append, List.mem_map, List.mem_flatMap] at h
  rcases h with ⟨⟨p, k⟩, hp, heq⟩ | ⟨b, hb, h⟩
  · obtain ⟨rfl, rfl⟩ := Prod.mk.inj heq
    exact ⟨0, argument_mem_parts hf hp⟩
  · obtain ⟨⟨i, k⟩, hi, heq⟩ := List.mem_filterMap.1 h
    obtain ⟨r', -, heq⟩ := Option.map_eq_some_iff.1 heq
    obtain ⟨rfl, rfl⟩ := Prod.mk.inj heq
    exact ⟨_, instruction_mem_parts ⟨⟨hf, hb⟩, hi⟩⟩

theorem mentions_register (hm : s.unit.Checked) (hb : s.unit.HasBlock f function b) {r : Register}
    (hr : .reg r ∈ Function.blockOperands b) :
    s.Mentions ((Scope.new f function).object s.unit (.reg r)) := by
  have hdefined := (hm.ssa_of_block hb).uses b hb.mem_blocks r (Function.mem_blockUses hr)
  obtain ⟨d, hd⟩ := Option.isSome_iff_exists.1 (Table.contains_ofList.2 hdefined)
  obtain ⟨k, hk⟩ := definition_mem_parts (s := s) hb.mem_functionList (Table.mem_of_get?_ofList hd)
  have hlookup : (Scope.new f function).names.lookup r =
      some (.ofDefinition f d, Scope.definitionType? function d) := by
    rw [Scope.lookup_new, Function.definitions, hd]
    rfl
  rw [Scope.object, hlookup]
  exact .part hk

/-- Operands lead to objects that may be mentioned. -/
theorem mentions_operand (hm : s.unit.Checked) (hb : s.unit.HasBlock f function b) {o : Operand}
    (ho : o ∈ Function.blockOperands b) :
    s.Mentions ((Scope.new f function).object s.unit o) := by
  cases o with
  | reg r => exact mentions_register hm hb ho
  | imm c =>
    have hc := Module.mem_references_iff.2 (.inl (Module.reads_of_mem_blockOperands hb ho))
    exact .constant hc .refl
  | label l => exact .label hb ho

theorem mentions_instrOperand (hm : s.unit.Checked) {i : Instr} {k : Nat}
    (hi : s.unit.HasInstr f function b i k) :
    ∀ o ∈ i.operands, s.Mentions ((Scope.new f function).object s.unit o) := by
  intro o ho
  have hmem := List.fst_mem_of_mem_zipIdx hi.mem_instrs
  exact mentions_operand hm hi.toHasBlock (Function.mem_blockOperands_of_instr hmem ho)

/-- Control flow leads to blocks that there are. -/
theorem mentions_blockLabel (hm : s.unit.Checked) (hl : s.unit.Labelled)
    (hb : s.unit.HasBlock f function b) {l : Label} (h : l ∈ Function.blockLabels b) :
    s.Mentions (Value.block f l) := by
  have hcontains := (hm.ssa_of_block hb).labels b hb.mem_blocks l h
  exact .part (label_mem_parts hb.mem_functionList hl hcontains)

/-! ## Calls -/

/-- The model that takes a call over recognises it. -/
theorem recognize_of_resolve {models : CallModels} {site : CallSite} {position k : Nat}
    (h : models.resolve site = .ok (some (position, k))) :
    ∃ model, models.models[position]? = some model ∧ model.recognize site = some k := by
  have hhead := (CallModels.resolve_eq_ok_iff.1 h).2
  exact CallModels.mem_candidates_iff.1 (List.mem_of_head? hhead.symm)

theorem recognize_of_callModel? {i : Place} {invoke : Invoke} {position : Nat}
    (h : s.callModel? i invoke = some position) :
    ∃ model, s.models.models[position]? = some model ∧
      model.recognize (.new s.unit i invoke) = some (s.callObjects i invoke) := by
  unfold callModel? at h
  split at h
  next position' k hresolve =>
    cases h
    obtain ⟨model, hmodel, hk⟩ := recognize_of_resolve hresolve
    refine ⟨model, hmodel, ?_⟩
    rw [hk, callObjects, hresolve]
  next => cases h

theorem callObjects_of_callModel?_none {i : Place} {invoke : Invoke}
    (h : s.callModel? i invoke = none) : s.callObjects i invoke = 0 := by
  unfold callModel? at h
  unfold callObjects
  split at h
  · cases h
  · rfl

theorem eq_one_of_heapAllocator {symbols : List String} {site : CallSite} {k : Nat}
    (h : (CallModel.heapAllocator symbols).recognize site = some k) : k = 1 := by
  simp only [CallModel.heapAllocator] at h
  split at h
  · exact (Option.some.inj (Option.ite_none_right_eq_some.1 h).2).symm
  · cases h

theorem eq_zero_of_memoryCopy {site : CallSite} {k : Nat}
    (h : CallModel.memoryCopy.recognize site = some k) : k = 0 := by
  simp only [CallModel.memoryCopy] at h
  split at h
  · exact (Option.some.inj (Option.ite_none_right_eq_some.1 h).2).symm
  · cases h

theorem fits_describe {model : CallModel} {site : CallSite} {self : Value} {callee : ObjectRef}
    {args : List ObjectRef} {k : Nat}
    (hmodel : (∃ symbols, model = .heapAllocator symbols) ∨ model = .memoryCopy)
    (hk : model.recognize site = some k) (hself : (self, k) ∈ s.parts)
    (hargs : ∀ o ∈ args, s.Mentions o) :
    ∀ st ∈ model.describe site ⟨self, callee, args⟩, st.Fits s := by
  have hvalue : s.Mentions self := .part hself
  rcases hmodel with ⟨symbols, rfl⟩ | rfl
  · obtain rfl := eq_one_of_heapAllocator hk
    have hobject : s.Mentions (.affiliated self 1) := .owned hself one_pos le_rfl
    simp only [CallModel.heapAllocator, List.forall_mem_cons, List.not_mem_nil, false_imp_iff,
      implies_true, and_true]
    exact ⟨Row.fits_two _ (by decide) hvalue hobject,
      Row.fits_text _ (by decide) hobject _,
      Row.fits_two _ (by decide) hvalue hobject⟩
  · match args, hargs with
    | [], _ => simp [CallModel.memoryCopy]
    | [_], _ => simp [CallModel.memoryCopy]
    | destination :: source :: _, hargs =>
      have hcopy : Row.Fits s ⟨.memCopy, [self, destination, source]⟩ :=
        Row.fits_three _ (by decide) hvalue (hargs _ (by simp)) (hargs _ (by simp))
      have hmove : Row.Fits s ⟨.move, [self, destination]⟩ :=
        Row.fits_two _ (by decide) hvalue (hargs _ (by simp))
      simp only [CallModel.memoryCopy]
      split <;> simp [Step.Fits, hcopy, hmove]

theorem fits_described (hl : s.unit.Labelled) (hb : s.models.Bundled) (hm : s.unit.Checked)
    {invoke : Invoke} {k : Nat} (hi : s.unit.HasInstr f function b (.invoke invoke) k)
    {model : CallModel}
    (hmodel : (s.matchedCalls.lookup ⟨f, b.label, k⟩).bind (s.models.models[·]?) = some model) :
    ∀ st ∈ model.describe (.new s.unit ⟨f, b.label, k⟩ invoke)
      ⟨.instruction ⟨f, b.label, k⟩, (Scope.new f function).object s.unit invoke.function,
        invoke.args.map ((Scope.new f function).object s.unit)⟩, st.Fits s := by
  rw [lookup_matchedCalls hl hi] at hmodel
  obtain ⟨position, hposition, hget⟩ := Option.bind_eq_some_iff.1 hmodel
  obtain ⟨model', hmodel', hrec⟩ := recognize_of_callModel? hposition
  obtain rfl : model = model' := Option.some.inj (hget.symm.trans hmodel')
  refine fits_describe (hb model (List.mem_of_getElem? hget)) hrec (instruction_mem_parts hi) ?_
  intro o ho
  obtain ⟨a, ha, rfl⟩ := List.mem_map.1 ho
  exact mentions_instrOperand hm hi a (List.mem_cons_of_mem _ ha)

/-! ## Parts of the module -/

variable {st : Step}

theorem PreambleStep.fits (h : s.PreambleStep st) : st.Fits s := by
  cases h with
  | special => exact Row.fits_text _ (by decide) (.special _) _
  | moduleName => exact ⟨by simp [Relation.standard], rfl, by simp⟩

theorem GlobalStep.fits {g : GlobalId} {global : Global} (hg : (g, global) ∈ s.unit.globalList)
    (h : s.GlobalStep g global st) : st.Fits s := by
  have hpart := global_mem_parts (s := s) hg
  have hself : s.Mentions (Value.global g) := .part hpart
  have hstorage : s.Mentions (.storage (.global g)) := .storage hpart
  cases h with
  | global => exact Row.fits_text _ (by decide) hself _
  | typed => exact hself
  | memory => exact Row.fits_text _ (by decide) hstorage _
  | type => exact Row.fits_typeText _ (by decide) hstorage _
  | address => exact Row.fits_two _ (by decide) hself hstorage
  | initializer hc =>
    have href : _ ∈ s.unit.references := Module.mem_references_iff.2
      (.inl (.initializer global (Module.mem_globals_of_mem hg) hc))
    exact Row.fits_two _ (by decide) hstorage (.constant href .refl)

theorem FunctionStep.fits (hm : s.unit.Checked) (hl : s.unit.Labelled)
    (hf : (f, function) ∈ s.unit.functionList) (h : s.FunctionStep f function st) :
    st.Fits s := by
  have hself : s.Mentions (Value.function f) := .part (function_mem_parts hf)
  have hargument {p : Register × TypeId} {k : Nat} (hp : (p, k) ∈ function.params.zipIdx) :
      s.Mentions (Value.argument f k) := .part (argument_mem_parts hf hp)
  cases h with
  | function => exact Row.fits_text _ (by decide) hself _
  | memory => exact Row.fits_text _ (by decide) hself _
  | address => exact Row.fits_two _ (by decide) hself hself
  | typed => exact hself
  | argument hp => exact Row.fits_indexed _ (by decide) hself _ (hargument hp)
  | argumentTyped hp => exact hargument hp
  | freeArgument hp =>
    have hfree := Row.fits_one .freeArgument (by decide) (hargument hp)
    simpa [Step.Fits, Relation.guarded] using hfree
  | declaration => exact Row.fits_one _ (by decide) hself
  | emitting => trivial
  | entry hd =>
    have hssa : function.Ssa :=
      (hm.ssa function (Module.mem_functions_of_mem hf)).resolve_left (by simp [hd])
    exact Row.fits_two _ (by decide) hself (.part (label_mem_parts hf hl hssa.entry))
  | intern => trivial

theorem TerminatorStep.fits (hm : s.unit.Checked) (hl : s.unit.Labelled)
    (hb : s.unit.HasBlock f function b)
    (h : s.TerminatorStep (.new f function) b.label b.terminator st) : st.Fits s := by
  have hself : s.Mentions (Value.terminator f b.label) := .part (terminator_mem_parts hb)
  have hblock : s.Mentions (Value.block f b.label) := .part (block_mem_parts hb)
  have hoperand {o : Operand} (ho : o ∈ b.terminator.operands) :
      s.Mentions ((Scope.new f function).object s.unit o) :=
    mentions_operand hm hb (List.mem_append_right _ ho)
  cases h with
  | instr => exact Row.fits_opcode _ (by decide) hself _ hblock
  | operand ho =>
    exact Row.fits_indexed _ (by decide) hself _ (hoperand (List.fst_mem_of_mem_zipIdx ho))
  | successor hsuccessor =>
    exact Row.fits_two _ (by decide) hblock
      (mentions_blockLabel hm hl hb (List.mem_append_right _ hsuccessor))
  | @returned o _ ht _ =>
    have hrow := Row.fits_two .returned (by decide)
      (.part (function_mem_parts hb.mem_functionList))
      (hoperand (o := o) (by simp [ht, Terminator.operands]))
    simpa [Step.Fits, Relation.guarded] using hrow
  | caseValue hc =>
    have href := Module.mem_references_iff.2 (.inr ⟨function,
      Module.mem_functions_of_mem hb.mem_functionList, b, hb.mem_blocks,
      List.fst_mem_of_mem_zipIdx hc⟩)
    exact Row.fits_indexed _ (by decide) hself _ (.constant href .refl)

theorem InstrStep.fits (hm : s.unit.Checked) {i : Instr} {k : Nat}
    (hi : s.unit.HasInstr f function b i k)
    (h : s.InstrStep (.new f function) ⟨f, b.label, k⟩ (.block f b.label) i st) : st.Fits s := by
  have hself : s.Mentions (Value.instruction ⟨f, b.label, k⟩) := .part (instruction_mem_parts hi)
  cases h with
  | instr => exact Row.fits_opcode _ (by decide) hself _ (.part (block_mem_parts hi.toHasBlock))
  | typed => exact hself
  | operand ho =>
    exact Row.fits_indexed _ (by decide) hself _
      (mentions_instrOperand hm hi _ (List.fst_mem_of_mem_zipIdx ho))

/-- What an instruction does with pointers fits, one case for each kind of step. -/
theorem EffectStep.fits (hm : s.unit.Checked) (hl : s.unit.Labelled) (hb : s.models.Bundled)
    {i : Instr} {k : Nat} (hi : s.unit.HasInstr f function b i k)
    (h : s.EffectStep s.matchedCalls (.new f function) ⟨f, b.label, k⟩ i st) : st.Fits s := by
  have hpart := instruction_mem_parts hi
  have hself : s.Mentions (Value.instruction ⟨f, b.label, k⟩) := .part hpart
  have hstorage : s.Mentions (.storage (.instruction ⟨f, b.label, k⟩)) := .storage hpart
  have hobject := mentions_instrOperand hm hi
  cases h with
  | allocaMemory => exact Row.fits_text _ (by decide) hstorage _
  | allocaType => exact Row.fits_typeText _ (by decide) hstorage _
  | allocaAddress => exact Row.fits_two _ (by decide) hself hstorage
  | @load _ _ addr _ =>
    have hrow := Row.fits_two .load (by decide) hself (hobject addr (by simp [Instr.operands]))
    simpa [Step.Fits, Relation.guarded] using hrow
  | @store addr value _ _ =>
    have hrow := Row.fits_three .store (by decide) hself
      (hobject addr (by simp [Instr.operands])) (hobject value (by simp [Instr.operands]))
    simpa [Step.Fits, Relation.guarded] using hrow
  | elementPtr =>
    exact Row.fits_two _ (by decide) hself (hobject _ (by simp [Instr.operands]))
  | @phi dest ty incoming =>
    intro r hr
    obtain ⟨⟨l, o⟩, hincoming, rfl⟩ := List.mem_map.1 hr
    have hlabel : l ∈ Function.blockLabels b :=
      List.mem_append_left _ (List.mem_flatMap.2 ⟨_, List.fst_mem_of_mem_zipIdx hi.mem_instrs,
        List.mem_map.2 ⟨_, hincoming, rfl⟩⟩)
    have hvalue : o ∈ (Instr.phi dest ty incoming).operands :=
      List.mem_map.2 ⟨_, hincoming, rfl⟩
    exact ⟨Row.fits_three _ (by decide) hself (mentions_blockLabel hm hl hi.toHasBlock hlabel)
      (hobject o hvalue), by simp [Relation.guarded]⟩
  | @select _ condition ifTrue ifFalse _ =>
    have hrow (o : Operand) (ho : o ∈ [condition, ifTrue, ifFalse]) :=
      Row.fits_two .move (by decide) hself (hobject o ho)
    simpa [Step.Fits, Relation.guarded] using ⟨hrow ifTrue (by simp), hrow ifFalse (by simp)⟩
  | @bitcast _ _ value =>
    have hrow := Row.fits_two .move (by decide) hself (hobject value (by simp [Instr.operands]))
    simpa [Step.Fits, Relation.guarded] using hrow
  | unknownSource => exact Row.fits_two _ (by decide) hself (.special _)
  | untraceable => trivial
  | untraced => trivial
  | call => exact Row.fits_two _ (by decide) hself (hobject _ List.mem_cons_self)
  | @callArg _ _ _ position _ ho _ =>
    have hrow := Row.fits_indexed .callArg (by decide) hself position
      (hobject _ (List.mem_cons_of_mem _ (List.fst_mem_of_mem_zipIdx ho)))
    simpa [Step.Fits, Relation.guarded] using hrow
  | callReturn =>
    have hrow := Row.fits_one .callReturn (by decide) hself
    simpa [Step.Fits, Relation.guarded] using hrow
  | handled => trivial
  | described hmodel hst => exact fits_described hl hb hm hi hmodel st hst

/-! ## Constants -/

/-- A constant that the module leads to and that the pool lacks is a case value. -/
theorem hasCase_of_not_hasConstant (hm : s.unit.Checked) {c d : ConstId}
    (hc : c ∈ s.unit.references) (hr : s.unit.Reaches c d) (hd : ¬ s.unit.HasConstant d) :
    s.unit.HasCase d := by
  rcases Relation.ReflTransGen.cases_tail hr with rfl | ⟨e, -, he⟩
  · rcases Module.mem_references_iff.1 hc with hreads | hcase
    · exact absurd (hm.reads _ hreads) hd
    · exact hcase
  · exact absurd (Module.hasConstant_of_mem_constantChildren he) hd

theorem mentions_marked {mark : Mark}
    (h : mark ∈ s.unit.marksOf s.unit.references) : s.Mentions (Value.constant mark.subject) := by
  have hadds := Module.adds_marksOf (m := s.unit) s.unit.references
  obtain ⟨c, hc, hr⟩ := hadds.reaches mark h
  rw [← Module.constantValue_of_isConstant (hadds.isConstant mark h)]
  exact .constant hc hr

theorem MarkStep.fits (hm : s.unit.Checked) {mark : Mark}
    (hmark : mark ∈ s.unit.marksOf s.unit.references) (h : s.MarkStep mark st) : st.Fits s := by
  have hself := mentions_marked hmark
  obtain ⟨d, hd, hr⟩ := (Module.adds_marksOf (m := s.unit) s.unit.references).reaches mark hmark
  have hchild {c e : ConstId} {pooled : TypedConst} (hc : s.unit.constants.get? c = some pooled)
      (he : e ∈ pooled.value.children) (hr : s.unit.Reaches d c) :
      s.Mentions (s.unit.constantValue e) :=
    .constant hd (hr.tail (by simpa [Module.constantChildren, hc] using he))
  cases h with
  | need => exact hself
  | visiting => trivial
  | missing hc => exact .missing (hasCase_of_not_hasConstant hm hd hr hc) hc
  | constant => exact Row.fits_text _ (by decide) hself _
  | typed => exact hself
  | element hc hvalue he =>
    exact Row.fits_indexed _ (by decide) hself _
      (hchild hc (by simpa [hvalue, Const.children] using List.fst_mem_of_mem_zipIdx he) hr)
  | elementAddr hc hvalue =>
    exact Row.fits_two _ (by decide) hself
      (hchild hc (by simp [hvalue, Const.children]) hr)
  | null => exact Row.fits_two _ (by decide) hself (.special _)
  | visited => trivial

/-- Every step of a plan fits. -/
theorem fits_plan (hm : s.unit.Checked) (hl : s.unit.Labelled) (hb : s.models.Bundled) :
    ∀ st ∈ s.plan s.matchedCalls, st.Fits s := by
  intro st hst
  cases mem_plan_iff.1 hst with
  | preamble h => exact h.fits
  | global hg h => exact h.fits hg
  | function hf h => exact h.fits hm hl hf
  | block h =>
    exact Row.fits_two _ (by decide) (.part (block_mem_parts h))
      (.part (function_mem_parts h.mem_functionList))
  | terminator h hst => exact hst.fits hm hl h
  | instr hi h => exact h.fits hm hi
  | effect hi h => exact h.fits hm hl hb hi
  | mark hmark h => exact h.fits hm hmark

end Setup

end PointsTo
