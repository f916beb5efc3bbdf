import Mathlib
import PointsTo.Proofs.Coverage
import PointsTo.Proofs.PlainRows

/-!
# Uses and definitions

The operand facts of a description are, in layout order, the operands of each instruction and
each terminator, and the case values of a switch after its operand. Such a fact leads to the
value that the operand denotes. `Module.Denotes` says which value that is without the tables
that a description looks registers up in: a register denotes whatever defines it, and in
a checked module one parameter or instruction does.
-/

namespace PointsTo

/-! ## Uses -/

/-- An operand of a user. -/
structure Use where
  function : FunctionId
  user : Value
  position : Nat
  operand : Operand

/-- The operands of a user, counted from zero. -/
def Use.list (f : FunctionId) (user : Value) (operands : List Operand) : List Use :=
  operands.zipIdx.map fun (o, k) => ⟨f, user, k, o⟩

/-- All that a terminator refers to: its operands, and then the case values of a switch. -/
def Terminator.reads (t : Terminator) : List Operand := t.operands ++ t.caseValues.map .imm

/-- The uses in a block. -/
def Block.useList (f : FunctionId) (b : Block) : List Use :=
  (b.instrs.zipIdx.flatMap fun (i, k) => Use.list f (.instruction ⟨f, b.label, k⟩) i.operands) ++
    Use.list f (.terminator f b.label) b.terminator.reads

/-- The uses in a module, in layout order. -/
def Module.useList (m : Module) : List Use :=
  m.functionList.flatMap fun (f, function) => function.blocks.flatMap (Block.useList f)

theorem Use.mem_list_iff {f : FunctionId} {user : Value} {operands : List Operand} {u : Use} :
    u ∈ Use.list f user operands ↔
      u.function = f ∧ u.user = user ∧ operands[u.position]? = some u.operand := by
  simp only [Use.list, List.mem_map, Prod.exists, List.mk_mem_zipIdx_iff_getElem?]
  constructor
  · rintro ⟨o, k, ho, rfl⟩
    exact ⟨rfl, rfl, ho⟩
  · rintro ⟨rfl, rfl, ho⟩
    exact ⟨u.operand, u.position, ho, rfl⟩

/-- A use in a block is of an operand of the block, or of a case value. -/
theorem Block.operand_of_mem_useList {f : FunctionId} {b : Block} {u : Use}
    (h : u ∈ b.useList f) : u.function = f ∧ (u.operand ∈ Function.blockOperands b ∨
      ∃ c ∈ b.terminator.caseValues, u.operand = .imm c) := by
  rw [Block.useList, List.mem_append, List.mem_flatMap] at h
  rcases h with ⟨⟨i, k⟩, hi, h⟩ | h
  · obtain ⟨hf, -, ho⟩ := Use.mem_list_iff.1 h
    exact ⟨hf, .inl (Function.mem_blockOperands_of_instr (List.fst_mem_of_mem_zipIdx hi)
      (List.mem_of_getElem? ho))⟩
  · obtain ⟨hf, -, ho⟩ := Use.mem_list_iff.1 h
    refine ⟨hf, (List.mem_append.1 (List.mem_of_getElem? ho)).imp ?_ ?_⟩
    · exact List.mem_append_right _
    · intro hcase
      obtain ⟨c, hc, heq⟩ := List.mem_map.1 hcase
      exact ⟨c, hc, heq.symm⟩

/-! ## What operands denote -/

namespace Module

/-- In the function `f` the operand denotes the value. -/
inductive Denotes (m : Module) (f : FunctionId) : Operand → Value → Prop
  | param {function : Function} {k : Nat} {r : Register} {ty : TypeId} :
      m.function? f = some function → function.params[k]? = some (r, ty) →
      m.Denotes f (.reg r) (.argument f k)
  | result {l : Label} {k : Nat} {i : Instr} {r : Register} :
      m.instruction? ⟨f, l, k⟩ = some i → i.dest? = some r →
      m.Denotes f (.reg r) (.instruction ⟨f, l, k⟩)
  | constant {c : ConstId} : m.HasConstant c → ¬ m.IsSymbol c → m.Denotes f (.imm c) (.constant c)
  | global {c : ConstId} {g : GlobalId} :
      (m.constants.get? c).map TypedConst.value = some (.globalAddr g) →
      m.Denotes f (.imm c) (.global g)
  | function {c : ConstId} {g : FunctionId} :
      (m.constants.get? c).map TypedConst.value = some (.functionAddr g) →
      m.Denotes f (.imm c) (.function g)
  | block {l : Label} : (m.block? f l).isSome = true → m.Denotes f (.label l) (.block f l)

variable {m : Module} {f : FunctionId} {function : Function}

/-- A register denotes the values of its definitions. -/
theorem denotes_register_iff (hl : m.Labelled) (hf : (f, function) ∈ m.functionList)
    {r : Register} {v : Value} :
    m.Denotes f (.reg r) v ↔ ∃ d, (r, d) ∈ function.definitionList ∧ v = .ofDefinition f d := by
  have hfunction := mem_functionList_iff.1 hf
  constructor
  · intro h
    cases h with
    | @param function' k r ty hf' hk =>
      obtain rfl : function = function' := Option.some.inj (hfunction.symm.trans hf')
      exact ⟨.param k, List.mem_append_left _ (List.mem_map.2
        ⟨((r, ty), k), List.mk_mem_zipIdx_iff_getElem?.2 hk, rfl⟩), rfl⟩
    | @result l k i r hi hr =>
      obtain ⟨function', b, hinstr, rfl⟩ := (instruction?_eq_some_iff hl).1 hi
      obtain rfl : function = function' := Option.some.inj
        (hfunction.symm.trans (mem_functionList_iff.1 hinstr.mem_functionList))
      refine ⟨.instr b.label k, List.mem_append_right _ (List.mem_flatMap.2
        ⟨b, hinstr.mem_blocks, List.mem_filterMap.2 ⟨(i, k), hinstr.mem_instrs, ?_⟩⟩), rfl⟩
      simp [hr]
  · rintro ⟨d, hd, rfl⟩
    rw [Function.definitionList, List.mem_append, List.mem_map, List.mem_flatMap] at hd
    rcases hd with ⟨⟨p, k⟩, hp, heq⟩ | ⟨b, hb, hd⟩
    · obtain ⟨rfl, rfl⟩ := Prod.mk.inj heq
      exact .param hfunction (List.mk_mem_zipIdx_iff_getElem?.1 hp)
    · obtain ⟨⟨i, k⟩, hi, heq⟩ := List.mem_filterMap.1 hd
      obtain ⟨r', hr, heq⟩ := Option.map_eq_some_iff.1 heq
      obtain ⟨rfl, rfl⟩ := Prod.mk.inj heq
      exact .result (HasInstr.instruction? ⟨⟨hf, hb⟩, hi⟩ hl) hr

/-- A constant of the pool denotes itself, or the symbol that it is the address of. -/
theorem denotes_constant_iff {c : ConstId} (hc : m.HasConstant c) {v : Value} :
    m.Denotes f (.imm c) v ↔ v = m.constantValue c := by
  constructor
  · intro h
    cases h with
    | constant _ hsymbol =>
      unfold constantValue
      split
      next g hg => exact absurd (.inl ⟨g, hg⟩) hsymbol
      next g hg => exact absurd (.inr ⟨g, hg⟩) hsymbol
      next => rfl
    | global hg => simp [constantValue, hg]
    | function hg => simp [constantValue, hg]
  · rintro rfl
    unfold constantValue
    split
    next g hg => exact .global hg
    next g hg => exact .function hg
    next hglobal hfunction =>
      refine .constant hc ?_
      rintro (⟨g, hg⟩ | ⟨g, hg⟩)
      · exact hglobal g hg
      · exact hfunction g hg

theorem eq_block_of_denotes {l : Label} {v : Value} (h : m.Denotes f (.label l) v) :
    v = .block f l := by
  cases h
  rfl

/-- In a checked module a register that a block reads has one definition, and that is
where its scope leads. -/
theorem Checked.exists_definition (hm : m.Checked) {b : Block} (hb : m.HasBlock f function b)
    {r : Register} (hr : .reg r ∈ Function.blockOperands b) :
    ∃ d, (r, d) ∈ function.definitionList ∧ (∀ d', (r, d') ∈ function.definitionList → d' = d) ∧
      (Scope.new f function).object m (.reg r) = .value (.ofDefinition f d) := by
  have hssa := hm.ssa_of_block hb
  have hdefined := hssa.uses b hb.mem_blocks r (Function.mem_blockUses hr)
  obtain ⟨d, hd⟩ := Option.isSome_iff_exists.1 (Table.contains_ofList.2 hdefined)
  have hmem := Table.mem_of_get?_ofList hd
  refine ⟨d, hmem, ?_, ?_⟩
  · intro d' hd'
    exact congrArg Prod.snd (List.inj_on_of_nodup_map hssa.nodup hd' hmem rfl)
  · rw [Scope.object, Scope.lookup_new, Function.definitions, hd]
    rfl

end Module

/-! ## Operand rows -/

/-- The row of a use, in a scope. -/
def Use.row (m : Module) (scope : Scope) (u : Use) : Row :=
  ⟨.operand, [u.user, u.position, scope.object m u.operand]⟩

namespace Setup

variable {s : Setup} {matched : MatchedCalls}

theorem rows_operandOutline (scope : Scope) (user : Value) (operands : List Operand) :
    (s.operandOutline scope user operands).filterMap (Step.row? "operand") =
      (Use.list scope.function user operands).map (Use.row s.unit scope) := by
  simp [operandOutline, Use.list, Use.row, Step.row?, Relation.operand, Function.comp_def]

/-- The case values go on counting where the operands end. -/
theorem rows_reads (scope : Scope) (user : Value) (t : Terminator) :
    (s.operandOutline scope user t.operands).filterMap (Step.row? "operand") ++
        (s.caseOutline user t.operands.length t.caseValues).filterMap (Step.row? "operand") =
      (Use.list scope.function user t.reads).map (Use.row s.unit scope) := by
  have hcases : (t.caseValues.map Operand.imm).zipIdx t.operands.length =
      t.caseValues.zipIdx.map fun e => (.imm e.1, t.operands.length + e.2) := by
    rw [List.zipIdx_eq_map_add, List.zipIdx_map, List.map_map]
    simp [Nat.add_comm]
  rw [rows_operandOutline, Terminator.reads, Use.list, Use.list, List.zipIdx_append, Nat.zero_add,
    hcases, List.map_append, List.map_append]
  simp [caseOutline, Use.row, Step.row?, Relation.operand, Scope.object, Function.comp_def]

theorem rows_instrOutline (hm : s.models.Write fun r => r.relation.name ≠ "operand")
    (scope : Scope) (place : Place) (block : Value) (i : Instr) :
    (s.instrOutline matched scope place block i).filterMap (Step.row? "operand") =
      (Use.list scope.function (.instruction place) i.operands).map (Use.row s.unit scope) := by
  have htypes : (i.resultType?.toList.map fun ty =>
      Step.typed (.instruction place) ty).filterMap (Step.row? "operand") = [] := by
    simp [List.filterMap_map, Function.comp_def, Step.row?]
  simp only [instrOutline, instrHead, List.cons_append, List.filterMap_cons,
    List.filterMap_append, htypes, rows_operandOutline, rows_effectSteps (by decide) hm,
    List.append_nil]
  rfl

theorem rows_terminatorOutline (scope : Scope) (label : Label) (t : Terminator) :
    (s.terminatorOutline scope label t).filterMap (Step.row? "operand") =
      (Use.list scope.function (.terminator scope.function label) t.reads).map
        (Use.row s.unit scope) := by
  have hsuccessors : ((successorRows scope.function (.block scope.function label) t).map
      Step.row).filterMap (Step.row? "operand") = [] := by
    simp [successorRows, Step.row?, Relation.successor]
  rw [← rows_reads]
  simp only [terminatorOutline, List.cons_append, List.filterMap_cons, List.filterMap_append,
    hsuccessors, rows_returnSteps, List.append_nil]
  rfl

theorem rows_blockOutline (hm : s.models.Write fun r => r.relation.name ≠ "operand")
    (scope : Scope) (b : Block) :
    (s.blockOutline matched scope b).filterMap (Step.row? "operand") =
      (b.useList scope.function).map (Use.row s.unit scope) := by
  simp only [blockOutline, Block.useList, List.cons_append, List.filterMap_cons,
    List.filterMap_append, rows_terminatorOutline, List.map_append, List.filterMap_flatMap,
    rows_instrOutline hm, List.map_flatMap]
  rfl

/-- The operand rows of a plan are those of the uses in the module. -/
theorem rows_plan (hm : s.models.Write fun r => r.relation.name ≠ "operand") :
    (s.plan matched).filterMap (Step.row? "operand") =
      s.unit.functionList.flatMap fun e =>
        (e.2.blocks.flatMap (Block.useList e.1)).map (Use.row s.unit (.new e.1 e.2)) := by
  rw [rows_plan_blocks (by decide)]
  refine List.flatMap_congr fun e _ => ?_
  rw [List.map_flatMap]
  exact List.flatMap_congr fun b _ => rows_blockOutline hm _ b

end Setup

/-! ## Operand facts -/

theorem forall₂_and_mem {α β : Type} {R : α → β → Prop} {l : List α} {l' : List β}
    (h : List.Forall₂ R l l') : List.Forall₂ (fun a b => a ∈ l ∧ R a b) l l' := by
  induction h with
  | nil => exact .nil
  | cons hr _ ih =>
    exact .cons ⟨List.mem_cons_self, hr⟩
      (ih.imp fun a b hab => ⟨List.mem_cons_of_mem _ hab.1, hab.2⟩)

/-- What corresponds to a list of images corresponds to what they are images of. -/
theorem forall₂_of_flatMap_map {α β γ δ : Type} {R : γ → δ → Prop} {l : List α} {h : α → List β}
    {g : α → β → γ} {l' : List δ}
    (himages : List.Forall₂ R (l.flatMap fun a => (h a).map (g a)) l') :
    List.Forall₂ (fun b d => ∃ a ∈ l, b ∈ h a ∧ R (g a b) d) (l.flatMap h) l' := by
  have hpairs : (l.flatMap fun a => (h a).map (g a)) =
      (l.flatMap fun a => (h a).map fun b => (a, b)).map fun p => g p.1 p.2 := by
    simp [List.map_flatMap, Function.comp_def]
  have hsecond : l.flatMap h = (l.flatMap fun a => (h a).map fun b => (a, b)).map Prod.snd := by
    simp [List.map_flatMap, Function.comp_def]
  rw [hpairs, List.forall₂_map_left_iff] at himages
  rw [hsecond, List.forall₂_map_left_iff]
  refine (forall₂_and_mem himages).imp fun p d hp => ?_
  obtain ⟨hmem, hR⟩ := hp
  obtain ⟨a, ha, hp⟩ := List.mem_flatMap.1 hmem
  obtain ⟨b, hb, rfl⟩ := List.mem_map.1 hp
  exact ⟨a, ha, hb, hR⟩

namespace Extractor

variable {x : Extractor} {s : Setup} {types : TypeTable}

/-- The fact leads from the user to the one value that its operand denotes. -/
def UseFact (x : Extractor) (u : Use) (fact : Fact) : Prop :=
  ∃ user v target, x.objects.idOf u.user = .ok user ∧
    x.setup.unit.Denotes u.function u.operand v ∧
    (∀ w, x.setup.unit.Denotes u.function u.operand w → w = v) ∧
    x.objects.idOf v = .ok target ∧
    fact = [.object user, .int u.position, .object target]

/-- An operand leads to the id of the one value that it denotes. -/
theorem Registered.exists_denotes (hx : x.Registered) (hl : x.setup.unit.Labelled)
    (hcases : x.setup.unit.CasesExist) {f : FunctionId} {function : Function} {b : Block}
    (hb : x.setup.unit.HasBlock f function b) {o : Operand}
    (ho : o ∈ Function.blockOperands b ∨ ∃ c ∈ b.terminator.caseValues, o = .imm c)
    {id : ObjectId}
    (hid : ((Scope.new f function).object x.setup.unit o).resolve x.objects = .ok id) :
    ∃ v, x.setup.unit.Denotes f o v ∧ (∀ w, x.setup.unit.Denotes f o w → w = v) ∧
      x.objects.idOf v = .ok id := by
  cases o with
  | reg r =>
    obtain ⟨d, hd, hunique, hobject⟩ := hx.checked.exists_definition hb
      (ho.resolve_right (by simp))
    rw [hobject, ObjectRef.resolve_value_eq_ok_iff] at hid
    refine ⟨.ofDefinition f d, ?_, ?_, hid⟩
    · exact (Module.denotes_register_iff hl hb.mem_functionList).2 ⟨d, hd, rfl⟩
    · intro w hw
      obtain ⟨d', hd', rfl⟩ := (Module.denotes_register_iff hl hb.mem_functionList).1 hw
      rw [hunique d' hd']
  | imm c =>
    have hc : x.setup.unit.HasConstant c := by
      rcases ho with ho | ⟨c', hc', heq⟩
      · exact hx.checked.reads c (Module.reads_of_mem_blockOperands hb ho)
      · cases heq
        exact hcases function (Module.mem_functions_of_mem hb.mem_functionList) b hb.mem_blocks
          c hc'
    refine ⟨_, (Module.denotes_constant_iff hc).2 rfl, ?_, ObjectRef.resolve_value_eq_ok_iff.1 hid⟩
    exact fun w hw => (Module.denotes_constant_iff hc).1 hw
  | label l =>
    have hidOf := ObjectRef.resolve_value_eq_ok_iff.1 hid
    have hcontains := (hx.contains_block_iff hl hb.mem_functionList).1
      (ObjectTable.contains_iff_idOf.2 ⟨id, hidOf⟩)
    refine ⟨.block f l, .block ?_, fun w hw => Module.eq_block_of_denotes hw, hidOf⟩
    rwa [Module.block?, Module.mem_functionList_iff.1 hb.mem_functionList]

/-- In a checked module every operand denotes one value. The operand facts of a description
are the uses in the module, in layout order, each with the id of the value that its operand
denotes; this holds for all models that write no such facts themselves. -/
theorem useFacts_of_generate (hl : s.unit.Labelled)
    (hm : s.models.Write fun r => r.relation.name ≠ "operand")
    (hnew : (Extractor.new s).1 = .ok x)
    (hok : (x.generate types (.new .standard)).outcome = .ok ()) :
    List.Forall₂ x.UseFact s.unit.useList
      ((x.generate types (.new .standard)).store.relation "operand") := by
  obtain ⟨rfl, hx⟩ := registered_of_new hl hnew
  have hplain : ∀ st ∈ x.setup.plan x.matched, st.PlainIn "operand" :=
    fun st hst => Setup.plainIn_of_mem (by decide) hm hst
  have hrows := forall₂_becomes hok hplain
  rw [Setup.rows_plan hm] at hrows
  refine (forall₂_of_flatMap_map hrows).imp fun u fact hu => ?_
  obtain ⟨⟨f, function⟩, hf, hmem, hbecomes⟩ := hu
  obtain ⟨b, hb, hmem⟩ := List.mem_flatMap.1 hmem
  obtain ⟨rfl, hoperand⟩ := Block.operand_of_mem_useList hmem
  obtain ⟨user, target, huser, htarget, rfl⟩ := hbecomes.eq_indexed
  obtain ⟨v, hdenotes, hunique, hv⟩ :=
    hx.exists_denotes hl (casesExist_of_outcome hok) ⟨hf, hb⟩ hoperand htarget
  exact ⟨user, v, target, ObjectRef.resolve_value_eq_ok_iff.1 huser, hdenotes, hunique, hv, rfl⟩

theorem allocating_useFacts :
    allocating.unit.Labelled ∧ (allocating.models.Write fun r => r.relation.name ≠ "operand") ∧
      ∃ x, (Extractor.new allocating).1 = .ok x ∧
        (x.generate .empty (.new .standard)).outcome = .ok () ∧
        List.Forall₂ x.UseFact allocating.unit.useList
          ((x.generate .empty (.new .standard)).store.relation "operand") := by
  have hnew : ∃ x, (Extractor.new allocating).1 = .ok x := ⟨_, rfl⟩
  obtain ⟨x, hx⟩ := hnew
  have hwrite : allocating.models.Write fun r => r.relation.name ≠ "operand" :=
    bundled_allocating.write_ne (by decide)
  exact ⟨labelled_allocating, hwrite, x, hx, outcome_allocating hx,
    useFacts_of_generate labelled_allocating hwrite hx (outcome_allocating hx)⟩

end Extractor

end PointsTo
