import Mathlib
import PointsTo.Proofs.Renumbering

/-!
# Descriptions under other numbers

A walk over renumbered constants meets the same constants in the same order, so the plan for a
renumbered module is the plan for the module with the new numbers written in.
-/

namespace PointsTo

/-! ## Steps with other numbers -/

section Steps

variable (π : ConstId → ConstId)

def Value.renumber : Value → Value
  | .constant c => .constant (π c)
  | v => v

def Mark.renumber : Mark → Mark
  | .enter c => .enter (π c)
  | .leave c => .leave (π c)

def Fault.renumber : Fault → Fault
  | .undefinedConstant c => .undefinedConstant (π c)
  | fault => fault

def ObjectRef.renumber : ObjectRef → ObjectRef
  | .special k => .special k
  | .value v => .value (v.renumber π)
  | .storage v => .storage (v.renumber π)
  | .affiliated v k => .affiliated (v.renumber π) k
  | .missing fault => .missing (fault.renumber π)

def Cell.renumber : Cell → Cell
  | .object o => .object (o.renumber π)
  | .int n => .int n
  | .str s => .str s
  | .typeText t => .typeText t

def Row.renumber (r : Row) : Row := ⟨r.relation, r.cells.map (Cell.renumber π)⟩

def Remark.renumber : Remark → Remark
  | .visiting c => .visiting (π c)
  | .handled call model => .handled (call.renumber π) model
  | .untraceable v name origin => .untraceable (v.renumber π) name origin
  | r => r

def Step.renumber : Step → Step
  | .row r => .row (r.renumber π)
  | .typed v ty => .typed (v.renumber π) ty
  | .intern ty => .intern ty
  | .ifPointer ty rows => .ifPointer ty (rows.map (Row.renumber π))
  | .need o => .need (o.renumber π)
  | .remark r => .remark (r.renumber π)
  | .visited c => .visited (π c)
  | .acts choose => .acts choose

@[simp] theorem Value.renumber_constant (c : ConstId) :
    (Value.constant c).renumber π = .constant (π c) := rfl
@[simp] theorem Value.renumber_global (g : GlobalId) : (global g).renumber π = .global g := rfl
@[simp] theorem Value.renumber_function (f : FunctionId) :
    (function f).renumber π = .function f := rfl
@[simp] theorem Value.renumber_argument (f : FunctionId) (k : Nat) :
    (argument f k).renumber π = .argument f k := rfl
@[simp] theorem Value.renumber_block (f : FunctionId) (l : Label) :
    (block f l).renumber π = .block f l := rfl
@[simp] theorem Value.renumber_instruction (i : Place) :
    (instruction i).renumber π = .instruction i := rfl
@[simp] theorem Value.renumber_terminator (f : FunctionId) (l : Label) :
    (terminator f l).renumber π = .terminator f l := rfl

@[simp] theorem ObjectRef.renumber_special (k : Nat) : (special k).renumber π = .special k := rfl
@[simp] theorem ObjectRef.renumber_value (v : Value) :
    (value v).renumber π = .value (v.renumber π) := rfl
@[simp] theorem ObjectRef.renumber_storage (v : Value) :
    (storage v).renumber π = .storage (v.renumber π) := rfl
@[simp] theorem ObjectRef.renumber_affiliated (v : Value) (k : Nat) :
    (affiliated v k).renumber π = .affiliated (v.renumber π) k := rfl
@[simp] theorem ObjectRef.renumber_missing (fault : Fault) :
    (missing fault).renumber π = .missing (fault.renumber π) := rfl

@[simp] theorem Cell.renumber_object (o : ObjectRef) :
    (object o).renumber π = .object (o.renumber π) := rfl
@[simp] theorem Cell.renumber_int (n : Int) : (int n).renumber π = .int n := rfl
@[simp] theorem Cell.renumber_str (s : String) : (str s).renumber π = .str s := rfl
@[simp] theorem Cell.renumber_typeText (t : TypeId) : (typeText t).renumber π = .typeText t := rfl

@[simp] theorem Row.renumber_mk (r : Relation) (cells : List Cell) :
    (Row.mk r cells).renumber π = ⟨r, cells.map (Cell.renumber π)⟩ := rfl

@[simp] theorem Step.renumber_row (r : Row) : (row r).renumber π = .row (r.renumber π) := rfl
@[simp] theorem Step.renumber_typed (v : Value) (ty : StaticType) :
    (typed v ty).renumber π = .typed (v.renumber π) ty := rfl
@[simp] theorem Step.renumber_intern (ty : StaticType) :
    (intern ty).renumber π = .intern ty := rfl
@[simp] theorem Step.renumber_ifPointer (ty : StaticType) (rows : List Row) :
    (ifPointer ty rows).renumber π = .ifPointer ty (rows.map (Row.renumber π)) := rfl
@[simp] theorem Step.renumber_need (o : ObjectRef) :
    (need o).renumber π = .need (o.renumber π) := rfl
@[simp] theorem Step.renumber_remark (r : Remark) :
    (remark r).renumber π = .remark (r.renumber π) := rfl
@[simp] theorem Step.renumber_visited (c : ConstId) :
    (visited c).renumber π = .visited (π c) := rfl

/-- The second computation meets the constants of the first and gives its steps, under the new
numbers. -/
def Tour.Renumbers : Tour (List Step) → Tour (List Step) → Prop :=
  Tour.Along (List.map (Mark.renumber π)) fun l l' => l' = l.map (Step.renumber π)

variable {π}

theorem Value.renumber_injective (hπ : Function.Injective π) :
    Function.Injective (Value.renumber π) := by
  intro v w heq
  cases v <;> cases w <;> simp only [renumber, reduceCtorEq, Value.constant.injEq] at heq ⊢ <;>
    first | exact heq | exact hπ heq

theorem Mark.renumber_injective (hπ : Function.Injective π) :
    Function.Injective (Mark.renumber π) := by
  intro a b heq
  cases a <;> cases b <;> simp only [renumber, reduceCtorEq, Mark.enter.injEq,
    Mark.leave.injEq] at heq ⊢ <;> exact hπ heq

@[simp] theorem Value.isConstant_renumber (v : Value) :
    (v.renumber π).isConstant = v.isConstant := by
  cases v <;> rfl

theorem Tour.Renumbers.collect {α β : Type} {l : List α} {l' : List β}
    {t : α → Tour (List Step)} {t' : β → Tour (List Step)}
    (h : List.Forall₂ (fun a b => Tour.Renumbers π (t a) (t' b)) l l') :
    Tour.Renumbers π (Tour.collect l t) (Tour.collect l' t') := by
  refine Tour.Along.collect (A := fun l l' => l' = l.map (Step.renumber π)) rfl ?_ h
  rintro l _ k _ rfl rfl
  exact List.map_append.symm

end Steps

/-! ## Constants -/

namespace Module.Renumbers

variable {m m' : Module} {π : ConstId → ConstId} {c : ConstId}

theorem constantValue (h : m.Renumbers π m') (hc : m.Leads c) :
    m'.constantValue (π c) = (m.constantValue c).renumber π := by
  rw [Module.constantValue, Module.constantValue, h.get? c hc]
  cases m.constants.get? c with
  | none => rfl
  | some e =>
    obtain ⟨value, ty⟩ := e
    cases value <;> rfl

theorem constantChildren (h : m.Renumbers π m') (hc : m.Leads c) :
    m'.constantChildren (π c) = (m.constantChildren c).map π := by
  rw [Module.constantChildren, Module.constantChildren, h.get? c hc]
  cases m.constants.get? c with
  | none => rfl
  | some e =>
    obtain ⟨value, ty⟩ := e
    cases value <;> rfl

theorem visit (h : m.Renumbers π m') (hπ : Function.Injective π) (depth : Nat) (marks : List Mark)
    (hc : m.Leads c) :
    m'.visit depth (marks.map (Mark.renumber π)) (π c) =
      (m.visit depth marks c).map (Mark.renumber π) := by
  induction depth generalizing marks c with
  | zero => rfl
  | succ depth ih =>
    have hfold {ids : List ConstId} (hids : ∀ d ∈ ids, m.Leads d) (marks : List Mark) :
        (ids.map π).foldl (m'.visit depth) (marks.map (Mark.renumber π)) =
          (ids.foldl (m.visit depth) marks).map (Mark.renumber π) := by
      induction ids generalizing marks with
      | nil => rfl
      | cons d ids ihs =>
        rw [List.forall_mem_cons] at hids
        rw [List.map_cons, List.foldl_cons, List.foldl_cons, ih _ hids.1, ihs hids.2]
    have hcontains : (marks.map (Mark.renumber π)).contains (.leave (π c)) =
        marks.contains (.leave c) := by
      rw [List.contains_eq_mem, List.contains_eq_mem, decide_eq_decide]
      exact List.mem_map_of_injective (Mark.renumber_injective hπ) (a := .leave c)
    have hchildren := hfold (fun d => hc.child) (marks ++ [.enter c])
    rw [Module.visit, Module.visit, h.constantValue hc, Value.isConstant_renumber, hcontains,
      h.constantChildren hc]
    split
    · rfl
    · rw [List.map_append, ← hchildren, List.map_append]
      rfl

/-- Each module walks as deep as its own pool needs, which makes no difference. -/
theorem visit_constantDepth (h : m.Renumbers π m') (hπ : Function.Injective π) (marks : List Mark)
    (hc : m.Leads c) :
    m'.visit m'.constantDepth (marks.map (Mark.renumber π)) (π c) =
      (m.visit m.constantDepth marks c).map (Mark.renumber π) := by
  have hdepth := (m.within_constantDepth c).mono (le_max_left _ m'.constantDepth)
  have hdepth' := (m'.within_constantDepth (π c)).mono (le_max_right m.constantDepth _)
  rw [visit_eq_of_within (within_constantDepth _) hdepth', h.visit hπ _ _ hc,
    visit_eq_of_within (within_constantDepth _) hdepth]

end Module.Renumbers

/-- The setups differ in the numbers of constants only. -/
structure Setup.Renumbers (π : ConstId → ConstId) (s s' : Setup) : Prop where
  config : s'.config = s.config
  models : s'.models = s.models
  unit : s.unit.Renumbers π s'.unit

namespace Setup

variable {s s' : Setup} {π : ConstId → ConstId} {c : ConstId}

theorem shapeRows_renumber (h : s.Renumbers π s') {value : Const}
    (hchildren : ∀ d ∈ value.children, s.unit.Leads d) :
    s'.shapeRows (π c) (value.renumber π) = (s.shapeRows c value).map (Row.renumber π) := by
  cases value with
  | aggregate ty elements =>
    simp only [Const.renumber, shapeRows, List.zipIdx_map, List.map_map]
    apply List.map_congr_left
    rintro ⟨d, k⟩ hd
    have hvalue := h.unit.constantValue (hchildren d (List.fst_mem_of_mem_zipIdx hd))
    simp [hvalue]
  | elementAddr base ty indices =>
    simp [Const.renumber, shapeRows, h.unit.constantValue (hchildren base List.mem_cons_self)]
  | null =>
    simp only [Const.renumber, shapeRows, h.config]
    split <;> simp
  | _ => rfl

theorem markSteps_renumber (h : s.Renumbers π s') {mark : Mark}
    (hmark : s.unit.Leads mark.subject) :
    s'.markSteps (mark.renumber π) = (s.markSteps mark).map (Step.renumber π) := by
  cases mark with
  | enter c =>
    have hpool := h.unit.get? c hmark
    simp only [Mark.renumber, markSteps, hpool, Option.isSome_map]
    split <;> rfl
  | leave c =>
    have hpool := h.unit.get? c hmark
    simp only [Mark.renumber, markSteps, hpool]
    cases he : s.unit.constants.get? c with
    | none => rfl
    | some e =>
      have hrows : s'.shapeRows (π c) (e.value.renumber π) =
          (s.shapeRows c e.value).map (Row.renumber π) := by
        refine shapeRows_renumber h fun d hd => hmark.child ?_
        simpa [Module.constantChildren, Mark.subject, he] using hd
      have hkind : (e.value.renumber π).kind = e.value.kind := by
        cases e.value <;> rfl
      simp [TypedConst.renumber, hrows, hkind]

theorem renumbers_constantSteps (h : s.Renumbers π s') (hπ : Function.Injective π)
    (hc : s.unit.Leads c) :
    Tour.Renumbers π (s.constantSteps c) (s'.constantSteps (π c)) := by
  intro marks
  have hrun (s : Setup) (marks : List Mark) (c : ConstId) : (s.constantSteps c).run marks =
      (((s.unit.visit s.unit.constantDepth marks c).drop marks.length).flatMap s.markSteps,
        s.unit.visit s.unit.constantDepth marks c) := rfl
  obtain ⟨new, hnew, hadds⟩ := Module.visit_adds (m := s.unit) s.unit.constantDepth marks c
  rw [hrun, hrun, h.unit.visit_constantDepth hπ marks hc, hnew]
  refine ⟨rfl, ?_⟩
  simp only [List.map_append, List.length_map, List.drop_left', List.flatMap_map, List.map_flatMap]
  apply List.flatMap_congr
  intro mark hmark
  obtain ⟨d, hd, hr⟩ := hadds.reaches mark hmark
  obtain rfl := List.mem_singleton.1 hd
  obtain ⟨e, he, hre⟩ := hc
  exact markSteps_renumber h ⟨e, he, hre.trans hr⟩

end Setup

/-! ## Operands -/

namespace Module

/-- If the operand is a constant, references of the module lead to it. -/
def LeadsTo (m : Module) (o : Operand) : Prop := ∀ c, o = .imm c → m.Leads c

theorem leadsTo_of_constants {m : Module} {operands : List Operand}
    (h : ∀ c ∈ operands.filterMap Operand.constant?, m.Leads c) : ∀ o ∈ operands, m.LeadsTo o := by
  rintro _ ho c rfl
  exact h c (mem_filterMap_constant?.2 ho)

namespace Renumbers

variable {m m' : Module} {π : ConstId → ConstId} {o : Operand}

theorem globalList (h : m.Renumbers π m') :
    m'.globalList = m.globalList.map fun e => (e.1, e.2.renumber π) := by
  simp [Module.globalList, h.globals, List.zipIdx_map]

theorem functionList (h : m.Renumbers π m') :
    m'.functionList = m.functionList.map fun e => (e.1, e.2.renumber π) := by
  simp [Module.functionList, h.functions, List.zipIdx_map]

theorem object (h : m.Renumbers π m') (ho : m.LeadsTo o) (f : FunctionId) (function : Function) :
    (Scope.new f function).object m' (o.renumber π) =
      ((Scope.new f function).object m o).renumber π := by
  cases o with
  | reg r =>
    simp only [Operand.renumber, Scope.object, Scope.lookup_new]
    cases function.definitions.get? r with
    | none => rfl
    | some d => cases d <;> rfl
  | imm c => simp [Operand.renumber, Scope.object, h.constantValue (ho c rfl)]
  | label l => rfl

theorem typeOf? (h : m.Renumbers π m') (ho : m.LeadsTo o) (scope : Scope) :
    scope.typeOf? m' (o.renumber π) = scope.typeOf? m o := by
  cases o with
  | imm c =>
    simp only [Operand.renumber, Scope.typeOf?, h.get? c (ho c rfl), Option.map_map]
    rfl
  | _ => rfl

theorem ifPointer (h : m.Renumbers π m') (ho : m.LeadsTo o) (scope : Scope) (rows : List Row) :
    scope.ifPointer m' (o.renumber π) (rows.map (Row.renumber π)) =
      (scope.ifPointer m o rows).map (Step.renumber π) := by
  rw [Scope.ifPointer, Scope.ifPointer, h.typeOf? ho]
  split <;> simp

end Renumbers

end Module

namespace Setup

variable {s s' : Setup} {π : ConstId → ConstId} {f : FunctionId} {function : Function}
  {matched : MatchedCalls}

theorem renumbers_operandSteps (h : s.Renumbers π s') (hπ : Function.Injective π) (user : Value)
    {operands : List Operand} (hoperands : ∀ o ∈ operands, s.unit.LeadsTo o) :
    Tour.Renumbers π (s.operandSteps (Scope.new f function) user operands)
      (s'.operandSteps (Scope.new f function) (user.renumber π)
        (operands.map (Operand.renumber π))) := by
  apply Tour.Renumbers.collect
  rw [List.zipIdx_map, List.forall₂_map_right_iff, List.forall₂_same]
  rintro ⟨o, k⟩ hmem
  have ho := hoperands o (List.fst_mem_of_mem_zipIdx hmem)
  have hobject := h.unit.object ho f function
  cases o with
  | imm c =>
    refine (renumbers_constantSteps h hπ (ho c rfl)).map fun _ _ hl => ?_
    simp_all [Operand.renumber]
  | reg r => exact Tour.along_pure (by simp_all [Operand.renumber])
  | label l => exact Tour.along_pure (by simp_all [Operand.renumber])

theorem renumbers_caseSteps (h : s.Renumbers π s') (hπ : Function.Injective π) (user : Value)
    (start : Nat) {cases : List ConstId} (hcases : ∀ c ∈ cases, s.unit.Leads c) :
    Tour.Renumbers π (s.caseSteps user start cases)
      (s'.caseSteps (user.renumber π) start (cases.map π)) := by
  apply Tour.Renumbers.collect
  rw [List.zipIdx_map, List.forall₂_map_right_iff, List.forall₂_same]
  rintro ⟨c, k⟩ hmem
  have hc := hcases c (List.fst_mem_of_mem_zipIdx hmem)
  refine (renumbers_constantSteps h hπ hc).map fun _ _ hl => ?_
  simp [hl, h.unit.constantValue hc]

/-! ## Instructions -/

theorem unknownSourceSteps_renumber (h : s.Renumbers π s') (place : Place) (origin : String) :
    s'.unknownSourceSteps (.instruction place) origin =
      (s.unknownSourceSteps (.instruction place) origin).map (Step.renumber π) := by
  have hname : s'.unit.valueName (.instruction place) = s.unit.valueName (.instruction place) := by
    simp only [Module.valueName, Module.functionName, Module.function?, h.unit.functions,
      List.getElem?_map, Option.map_map]
    rfl
  simp only [unknownSourceSteps, h.config, hname]
  split <;> rfl

theorem generalCallSteps_renumber (h : s.Renumbers π s') (place : Place) {invoke : Invoke}
    (hfunction : s.unit.LeadsTo invoke.function) (hargs : ∀ o ∈ invoke.args, s.unit.LeadsTo o) :
    s'.generalCallSteps (Scope.new f function) (.instruction place) (invoke.renumber π) =
      (s.generalCallSteps (Scope.new f function) (.instruction place) invoke).map
        (Step.renumber π) := by
  have harguments : ((invoke.renumber π).args.zipIdx.flatMap fun e =>
      (Scope.new f function).ifPointer s'.unit e.1 [⟨.callArg, [Value.instruction place, e.2,
        (Scope.new f function).object s'.unit e.1]⟩]) =
      (invoke.args.zipIdx.flatMap fun e =>
        (Scope.new f function).ifPointer s.unit e.1 [⟨.callArg, [Value.instruction place, e.2,
          (Scope.new f function).object s.unit e.1]⟩]).map (Step.renumber π) := by
    rw [Invoke.renumber, List.zipIdx_map, List.flatMap_map, List.map_flatMap]
    apply List.flatMap_congr
    rintro ⟨o, k⟩ hmem
    have ho := hargs o (List.fst_mem_of_mem_zipIdx hmem)
    rw [← h.unit.ifPointer ho]
    simp [h.unit.object ho]
  simp only [generalCallSteps, harguments, List.map_append, List.map_cons]
  congr 1
  · simp [Invoke.renumber, h.unit.object hfunction]
  · simp only [Invoke.renumber]
    split <;> simp

/-- What the bundled models say of a call under other numbers. -/
theorem describe_renumber (h : s.Renumbers π s') (hb : s.models.Bundled) {model : CallModel}
    (hmodel : model ∈ s.models.models) (place : Place) {invoke : Invoke}
    (callee callee' : ObjectRef) (hargs : ∀ o ∈ invoke.args, s.unit.LeadsTo o) :
    model.describe (.new s'.unit place (invoke.renumber π)) ⟨.instruction place, callee',
        (invoke.renumber π).args.map ((Scope.new f function).object s'.unit)⟩ =
      (model.describe (.new s.unit place invoke) ⟨.instruction place, callee,
        invoke.args.map ((Scope.new f function).object s.unit)⟩).map (Step.renumber π) := by
  rcases hb model hmodel with ⟨symbols, rfl⟩ | rfl
  · simp [CallModel.heapAllocator]
  · have hobjects : (invoke.renumber π).args.map ((Scope.new f function).object s'.unit) =
        (invoke.args.map ((Scope.new f function).object s.unit)).map (ObjectRef.renumber π) := by
      rw [Invoke.renumber, List.map_map, List.map_map]
      exact List.map_congr_left fun o ho => h.unit.object (hargs o ho) f function
    rw [hobjects]
    have hdest : (CallSite.new s'.unit place (invoke.renumber π)).invoke.dest =
        (CallSite.new s.unit place invoke).invoke.dest := rfl
    simp only [CallModel.memoryCopy, hdest]
    generalize invoke.args.map _ = args
    rcases args with _ | ⟨destination, _ | ⟨source, rest⟩⟩
    · rfl
    · rfl
    · simp only [List.map_cons]
      split <;> simp

theorem callSteps_renumber (h : s.Renumbers π s') (hb : s.models.Bundled) (place : Place)
    {invoke : Invoke} (hfunction : s.unit.LeadsTo invoke.function)
    (hargs : ∀ o ∈ invoke.args, s.unit.LeadsTo o) :
    s'.callSteps matched (Scope.new f function) place (invoke.renumber π) =
      (s.callSteps matched (Scope.new f function) place invoke).map (Step.renumber π) := by
  simp only [callSteps, h.models]
  split
  next model hmodel =>
    obtain ⟨position, -, hposition⟩ := Option.bind_eq_some_iff.1 hmodel
    rw [describe_renumber h hb (List.mem_of_getElem? hposition) place
      ((Scope.new f function).object s.unit invoke.function) _ hargs]
    simp [Remark.renumber]
  next => exact generalCallSteps_renumber h place hfunction hargs

theorem effectSteps_renumber (h : s.Renumbers π s') (hb : s.models.Bundled) (place : Place)
    {i : Instr} (hoperands : ∀ o ∈ i.operands, s.unit.LeadsTo o) :
    s'.effectSteps matched (Scope.new f function) place (i.renumber π) =
      (s.effectSteps matched (Scope.new f function) place i).map (Step.renumber π) := by
  have hobject : ∀ o ∈ i.operands, (Scope.new f function).object s'.unit (o.renumber π) =
      ((Scope.new f function).object s.unit o).renumber π := fun o ho =>
    h.unit.object (hoperands o ho) f function
  cases i with
  | store addr value access =>
    have hvalue := hoperands value (by simp [Instr.operands])
    simp only [Instr.operands, List.forall_mem_cons] at hobject
    simp only [Instr.renumber, effectSteps]
    rw [← h.unit.ifPointer hvalue]
    simp [hobject]
  | phi dest ty incoming =>
    simp only [Instr.renumber, effectSteps, List.map_map, List.map_cons, List.map_nil,
      Step.renumber]
    congr 2
    apply List.map_congr_left
    rintro ⟨l, o⟩ hmem
    simp [hobject o (List.mem_map_of_mem hmem)]
  | cast dest op ty value =>
    simp only [Instr.operands, List.forall_mem_cons] at hobject
    cases op with
    | bitcast => simp [Instr.renumber, effectSteps, hobject]
    | intToPtr => exact unknownSourceSteps_renumber h place "inttoptr"
    | _ => rfl
  | invoke call =>
    rw [Instr.operands, List.forall_mem_cons] at hoperands
    exact callSteps_renumber h hb place hoperands.1 hoperands.2
  | _ =>
    simp only [Instr.operands, List.forall_mem_cons] at hobject
    simp [Instr.renumber, effectSteps, hobject]

theorem renumbers_instrSteps (h : s.Renumbers π s') (hπ : Function.Injective π)
    (hb : s.models.Bundled) (place : Place) (l : Label) {i : Instr}
    (hoperands : ∀ o ∈ i.operands, s.unit.LeadsTo o) :
    Tour.Renumbers π (s.instrSteps matched (Scope.new f function) place (.block f l) i)
      (s'.instrSteps matched (Scope.new f function) place (.block f l) (i.renumber π)) := by
  rw [instrSteps, instrSteps, Instr.operands_renumber, Instr.resultType?_renumber,
    Instr.opcode_renumber, effectSteps_renumber h hb place hoperands]
  refine (renumbers_operandSteps h hπ (.instruction place) hoperands).map fun _ _ hl => ?_
  simp [hl, Function.comp_def]

/-! ## Blocks -/

theorem returnSteps_renumber (h : s.Renumbers π s') {t : Terminator}
    (hoperands : ∀ o ∈ t.operands, s.unit.LeadsTo o) :
    s'.returnSteps (Scope.new f function) (t.renumber π) =
      (s.returnSteps (Scope.new f function) t).map (Step.renumber π) := by
  cases t with
  | ret value =>
    cases value with
    | none => rfl
    | some o =>
      have ho := hoperands o (by simp [Terminator.operands])
      simp only [Terminator.renumber, Option.map_some, returnSteps]
      rw [← h.unit.ifPointer ho]
      simp [h.unit.object ho]
  | _ => rfl

theorem renumbers_terminatorSteps (h : s.Renumbers π s') (hπ : Function.Injective π) (l : Label)
    {t : Terminator} (hoperands : ∀ o ∈ t.operands, s.unit.LeadsTo o)
    (hcases : ∀ c ∈ t.caseValues, s.unit.Leads c) :
    Tour.Renumbers π (s.terminatorSteps (Scope.new f function) l t)
      (s'.terminatorSteps (Scope.new f function) l (t.renumber π)) := by
  have hsuccessors : successorRows f (.block f l) (t.renumber π) =
      (successorRows f (.block f l) t).map (Row.renumber π) := by
    simp [successorRows]
  rw [terminatorSteps, terminatorSteps, Terminator.operands_renumber,
    Terminator.caseValues_renumber, Terminator.opcode_renumber, List.length_map,
    returnSteps_renumber h hoperands]
  refine (renumbers_operandSteps h hπ (.terminator f l) hoperands).map₂
    (fun _ _ _ _ hl hk => ?_) (renumbers_caseSteps h hπ (.terminator f l) _ hcases)
  simp [hl, hk, Scope.new, hsuccessors, Function.comp_def]

/-! ## Functions -/

theorem renumbers_blockSteps (h : s.Renumbers π s') (hπ : Function.Injective π)
    (hb : s.models.Bundled) {b : Block} (hconstants : ∀ c ∈ b.constants, s.unit.Leads c) :
    Tour.Renumbers π (s.blockSteps matched (Scope.new f function) b)
      (s'.blockSteps matched (Scope.new f function) (b.renumber π)) := by
  simp only [Block.constants, Terminator.constants, List.forall_mem_append,
    List.forall_mem_flatMap] at hconstants
  obtain ⟨hinstrs, hoperands, hcases⟩ := hconstants
  have hsteps : Tour.Renumbers π
      (Tour.collect b.instrs.zipIdx fun e =>
        s.instrSteps matched (Scope.new f function) ⟨f, b.label, e.2⟩ (.block f b.label) e.1)
      (Tour.collect (b.renumber π).instrs.zipIdx fun e =>
        s'.instrSteps matched (Scope.new f function) ⟨f, b.label, e.2⟩ (.block f b.label) e.1) := by
    apply Tour.Renumbers.collect
    rw [Block.renumber, List.zipIdx_map, List.forall₂_map_right_iff, List.forall₂_same]
    rintro ⟨i, k⟩ hmem
    have hi := hinstrs i (List.fst_mem_of_mem_zipIdx hmem)
    exact renumbers_instrSteps h hπ hb _ _ (Module.leadsTo_of_constants hi)
  refine hsteps.map₂ (fun _ _ _ _ hl hk => ?_)
    (renumbers_terminatorSteps h hπ b.label (Module.leadsTo_of_constants hoperands) hcases)
  simp [hl, hk, Scope.new, Block.renumber]

theorem argumentSteps_renumber (h : s.Renumbers π s') (k : Nat) (ty : TypeId) :
    s'.argumentSteps f (function.renumber π) k ty =
      (s.argumentSteps f function k ty).map (Step.renumber π) := by
  have hadmits : s'.config.freeArguments.admits (function.renumber π) =
      s.config.freeArguments.admits function := by
    simp only [h.config, FreeArguments.admits, Function.isDeclaration_renumber]
    rfl
  simp only [argumentSteps, FreeArguments.isFree, hadmits, Bool.true_and]
  split <;> simp

theorem renumbers_bodySteps (h : s.Renumbers π s') (hπ : Function.Injective π)
    (hb : s.models.Bundled) (hconstants : ∀ c ∈ function.constants, s.unit.Leads c) :
    Tour.Renumbers π (s.bodySteps matched f function)
      (s'.bodySteps matched f (function.renumber π)) := by
  have hblocks : Tour.Renumbers π
      (Tour.collect function.blocks (s.blockSteps matched (Scope.new f function)))
      (Tour.collect (function.renumber π).blocks
        (s'.blockSteps matched (Scope.new f function))) := by
    apply Tour.Renumbers.collect
    rw [Function.blocks_renumber, List.forall₂_map_right_iff, List.forall₂_same]
    intro b hblock
    exact renumbers_blockSteps h hπ hb fun c hc =>
      hconstants c (List.mem_flatMap.2 ⟨b, hblock, hc⟩)
  have hinterns : ((Scope.new f function).names.filterMap fun e => e.2.2.map Step.intern).map
      (Step.renumber π) = (Scope.new f function).names.filterMap fun e => e.2.2.map .intern := by
    simp [List.map_filterMap, Function.comp_def]
  have hname : (function.renumber π).name = function.name := rfl
  have hsize : (function.renumber π).body.size = function.body.size := Table.size_map _ _
  rw [bodySteps, bodySteps, Scope.new_renumber]
  refine hblocks.map fun _ _ hl => ?_
  simp only [hl, hsize, hname, List.map_append, List.map_cons, hinterns]
  rfl

theorem renumbers_functionSteps (h : s.Renumbers π s') (hπ : Function.Injective π)
    (hb : s.models.Bundled) (hconstants : ∀ c ∈ function.constants, s.unit.Leads c) :
    Tour.Renumbers π (s.functionSteps matched f function)
      (s'.functionSteps matched f (function.renumber π)) := by
  have harguments : ((function.renumber π).params.zipIdx.flatMap fun e =>
      s'.argumentSteps f (function.renumber π) e.2 e.1.2) =
      (function.params.zipIdx.flatMap fun e => s.argumentSteps f function e.2 e.1.2).map
        (Step.renumber π) := by
    rw [List.map_flatMap]
    exact List.flatMap_congr fun e _ => argumentSteps_renumber h e.2 e.1.2
  have hname : (function.renumber π).name = function.name := rfl
  simp only [functionSteps, Function.isDeclaration_renumber, harguments, hname]
  split
  · exact Tour.along_pure (by simp)
  · refine (renumbers_bodySteps h hπ hb hconstants).map fun _ _ hl => ?_
    simp [hl]

/-! ## Modules -/

theorem renumbers_globalSteps (h : s.Renumbers π s') (hπ : Function.Injective π) (g : GlobalId)
    {global : Global} (hc : ∀ c, global.initializer = some c → s.unit.Leads c) :
    Tour.Renumbers π (s.globalSteps g global) (s'.globalSteps g (global.renumber π)) := by
  simp only [globalSteps, Global.renumber]
  cases hinit : global.initializer with
  | none => exact Tour.along_pure (by simp)
  | some c =>
    refine (renumbers_constantSteps h hπ (hc c hinit)).map fun _ _ hl => ?_
    simp [hl, h.unit.constantValue (hc c hinit)]

/-- The plan of a renumbered module is that of the module, under the new numbers. -/
theorem plan_renumber (h : s.Renumbers π s') (hπ : Function.Injective π) (hb : s.models.Bundled)
    (matched : MatchedCalls) : s'.plan matched = (s.plan matched).map (Step.renumber π) := by
  have hglobals : Tour.Renumbers π
      (Tour.collect s.unit.globalList fun e => s.globalSteps e.1 e.2)
      (Tour.collect s'.unit.globalList fun e => s'.globalSteps e.1 e.2) := by
    apply Tour.Renumbers.collect
    rw [h.unit.globalList, List.forall₂_map_right_iff, List.forall₂_same]
    rintro e he
    exact renumbers_globalSteps h hπ e.1 fun c hc =>
      Module.leads_of_initializer (Module.mem_globals_of_mem he) hc
  have hfunctions : Tour.Renumbers π
      (Tour.collect s.unit.functionList fun e => s.functionSteps matched e.1 e.2)
      (Tour.collect s'.unit.functionList fun e => s'.functionSteps matched e.1 e.2) := by
    apply Tour.Renumbers.collect
    rw [h.unit.functionList, List.forall₂_map_right_iff, List.forall₂_same]
    rintro e he
    exact renumbers_functionSteps h hπ hb fun c hc =>
      Module.leads_of_mem_constants (Module.mem_functions_of_mem he) hc
  have hplan : Tour.Renumbers π (s.planTour matched) (s'.planTour matched) := by
    refine hglobals.map₂ (fun _ _ _ _ hl hk => ?_) hfunctions
    simp [hl, hk, h.config, h.unit.name, Function.comp_def]
  exact (hplan []).2

end Setup

end PointsTo
