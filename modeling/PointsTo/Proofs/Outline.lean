import Mathlib
import PointsTo.Extract.Plan
import PointsTo.Proofs.Parts

/-!
# The outline of a plan

A plan says two things in turns: what the parts of the module are, and what the constants
are that it meets on the way. The outline is the plan with the constants left out; it needs
no record of a walk. A plan interleaves its outline with the steps of one walk to all the
constants that the module refers to.
-/

namespace PointsTo

/-! ## Interleavings -/

/-- The third list is made of the first two, each in its own order. -/
inductive Interleaves {α : Type} : List α → List α → List α → Prop
  | nil : Interleaves [] [] []
  | left {a : α} {l r t : List α} : Interleaves l r t → Interleaves (a :: l) r (a :: t)
  | right {a : α} {l r t : List α} : Interleaves l r t → Interleaves l (a :: r) (a :: t)

namespace Interleaves

variable {α β : Type} {l l' r r' t t' : List α}

theorem all_left (l : List α) : Interleaves l [] l := by
  induction l with
  | nil => exact .nil
  | cons a l ih => exact ih.left

theorem all_right (r : List α) : Interleaves [] r r := by
  induction r with
  | nil => exact .nil
  | cons a r ih => exact ih.right

theorem append (h : Interleaves l r t) (h' : Interleaves l' r' t') :
    Interleaves (l ++ l') (r ++ r') (t ++ t') := by
  induction h with
  | nil => exact h'
  | left _ ih => exact ih.left
  | right _ ih => exact ih.right

theorem mem_iff (h : Interleaves l r t) {a : α} : a ∈ t ↔ a ∈ l ∨ a ∈ r := by
  induction h with
  | nil => simp
  | left _ ih => simp [ih, or_assoc]
  | right _ ih => simp [ih, or_left_comm]

/-- What is drawn from the first list alone is drawn from it in order. -/
theorem filterMap_left (h : Interleaves l r t) {f : α → Option β} (hr : r.filterMap f = []) :
    t.filterMap f = l.filterMap f := by
  induction h with
  | nil => rfl
  | left _ ih => simp only [List.filterMap_cons, ih hr]
  | @right a l r t _ ih =>
    rw [List.filterMap_eq_nil_iff, List.forall_mem_cons] at hr
    rw [List.filterMap_cons_none hr.1, ih (List.filterMap_eq_nil_iff.2 hr.2)]

/-- The same for what is drawn as a list. -/
theorem flatMap_left (h : Interleaves l r t) {f : α → List β} (hr : r.flatMap f = []) :
    t.flatMap f = l.flatMap f := by
  induction h with
  | nil => rfl
  | left _ ih => rw [List.flatMap_cons, List.flatMap_cons, ih hr]
  | right _ ih =>
    obtain ⟨ha, hr⟩ := List.append_eq_nil_iff.1 hr
    rw [List.flatMap_cons, ih hr, ha, List.nil_append]

theorem filter_left (h : Interleaves l r t) {p : α → Bool} (hr : r.filter p = []) :
    t.filter p = l.filter p := by
  rw [← List.filterMap_eq_filter] at hr ⊢
  exact h.filterMap_left hr

theorem symm (h : Interleaves l r t) : Interleaves r l t := by
  induction h with
  | nil => exact .nil
  | left _ ih => exact ih.right
  | right _ ih => exact ih.left

theorem filterMap (h : Interleaves l r t) (f : α → Option β) :
    Interleaves (l.filterMap f) (r.filterMap f) (t.filterMap f) := by
  induction h with
  | nil => exact .nil
  | @left a l r t _ ih =>
    cases ha : f a with
    | none => rwa [List.filterMap_cons_none ha, List.filterMap_cons_none ha]
    | some b =>
      rw [List.filterMap_cons_some ha, List.filterMap_cons_some ha]
      exact ih.left
  | @right a l r t _ ih =>
    cases ha : f a with
    | none => rwa [List.filterMap_cons_none ha, List.filterMap_cons_none ha]
    | some b =>
      rw [List.filterMap_cons_some ha, List.filterMap_cons_some ha]
      exact ih.right

/-- What corresponds to an interleaving element by element is one too. -/
theorem forall₂ {R : α → β → Prop} (h : Interleaves l r t) {t' : List β}
    (ht : List.Forall₂ R t t') :
    ∃ l' r', Interleaves l' r' t' ∧ List.Forall₂ R l l' ∧ List.Forall₂ R r r' := by
  induction h generalizing t' with
  | nil =>
    cases ht
    exact ⟨[], [], .nil, .nil, .nil⟩
  | left _ ih =>
    cases ht with
    | cons ha ht =>
      obtain ⟨l', r', h', hl, hr⟩ := ih ht
      exact ⟨_ :: l', r', h'.left, .cons ha hl, hr⟩
  | right _ ih =>
    cases ht with
    | cons ha ht =>
      obtain ⟨l', r', h', hl, hr⟩ := ih ht
      exact ⟨l', _ :: r', h'.right, hl, .cons ha hr⟩

end Interleaves

/-! ## Computations along a walk -/

theorem Tour.collect_cons {α β : Type} (a : α) (l : List α) (t : α → Tour (List β)) :
    Tour.collect (a :: l) t = do
      let first ← t a
      let rest ← Tour.collect l t
      return first ++ rest := by
  simp [Tour.collect]

namespace Setup

variable {s : Setup}

/-- The computation walks to the constants `ids` and gives the steps `own`, with the
steps of the walk in between. -/
def Outlines (s : Setup) (t : Tour (List Step)) (ids : List ConstId) (own : List Step) : Prop :=
  ∀ marks, ∃ new, s.unit.visitAll s.unit.constantDepth marks ids = marks ++ new ∧
    (t.run marks).2 = marks ++ new ∧ Interleaves own (new.flatMap s.markSteps) (t.run marks).1

theorem Outlines.pure (own : List Step) : s.Outlines (pure own) [] own :=
  fun marks => ⟨[], (List.append_nil marks).symm, (List.append_nil marks).symm, .all_left own⟩

theorem outlines_constantSteps (c : ConstId) : s.Outlines (s.constantSteps c) [c] [] := by
  intro marks
  obtain ⟨new, hnew, -⟩ := Module.visit_adds (m := s.unit) s.unit.constantDepth marks c
  refine ⟨new, hnew, hnew, ?_⟩
  have hout : ((s.constantSteps c).run marks).1 =
      ((s.unit.visit s.unit.constantDepth marks c).drop marks.length).flatMap s.markSteps := rfl
  rw [hout, hnew, List.drop_left]
  exact Interleaves.all_right _

theorem Outlines.append {t t' : Tour (List Step)} {ids ids' : List ConstId} {own own' : List Step}
    (h : s.Outlines t ids own) (h' : s.Outlines t' ids' own') :
    s.Outlines (do let a ← t; let b ← t'; return a ++ b) (ids ++ ids') (own ++ own') := by
  intro marks
  obtain ⟨new, hvisit, hafter, hout⟩ := h marks
  obtain ⟨new', hvisit', hafter', hout'⟩ := h' (marks ++ new)
  have hrun : ((do let a ← t; let b ← t'; return a ++ b : Tour (List Step)).run marks) =
      ((t.run marks).1 ++ (t'.run (t.run marks).2).1, (t'.run (t.run marks).2).2) := rfl
  refine ⟨new ++ new', ?_, ?_, ?_⟩
  · rw [Module.visitAll_append, hvisit, hvisit', List.append_assoc]
  · rw [hrun, hafter, hafter', List.append_assoc]
  · rw [hrun, hafter, List.flatMap_append]
    exact hout.append hout'

theorem Outlines.before {t : Tour (List Step)} {ids : List ConstId} {own : List Step}
    (h : s.Outlines t ids own) (steps : List Step) :
    s.Outlines (do let a ← t; return steps ++ a) ids (steps ++ own) :=
  (Outlines.pure steps).append h

theorem Outlines.after {t : Tour (List Step)} {ids : List ConstId} {own : List Step}
    (h : s.Outlines t ids own) (steps : List Step) :
    s.Outlines (do let a ← t; return a ++ steps) ids (own ++ steps) := by
  have hall := h.append (.pure steps)
  rwa [List.append_nil] at hall

theorem Outlines.collect {α : Type} {l : List α} {t : α → Tour (List Step)}
    {ids : α → List ConstId} {own : α → List Step} (h : ∀ a ∈ l, s.Outlines (t a) (ids a) (own a)) :
    s.Outlines (Tour.collect l t) (l.flatMap ids) (l.flatMap own) := by
  induction l with
  | nil => exact .pure []
  | cons a l ih =>
    rw [List.forall_mem_cons] at h
    rw [Tour.collect_cons]
    exact h.1.append (ih h.2)

/-! ## The outline -/

/-- The operands of a user. -/
def operandOutline (s : Setup) (scope : Scope) (user : Value) (operands : List Operand) :
    List Step :=
  operands.zipIdx.map fun (o, k) => .row ⟨.operand, [user, k, scope.object s.unit o]⟩

/-- The case values of a switch. -/
def caseOutline (s : Setup) (user : Value) (start : Nat) (cases : List ConstId) : List Step :=
  cases.zipIdx.map fun (c, k) => .row ⟨.operand, [user, start + k, s.unit.constantValue c]⟩

/-- What an instruction is: its place, its type and its operands. -/
def instrHead (s : Setup) (scope : Scope) (place : Place) (block : Value) (i : Instr) :
    List Step :=
  let self := Value.instruction place
  .row ⟨.instr, [self, i.opcode, block]⟩ :: (i.resultType?.toList.map fun ty => .typed self ty) ++
    s.operandOutline scope self i.operands

def instrOutline (s : Setup) (matched : MatchedCalls) (scope : Scope) (place : Place)
    (block : Value) (i : Instr) : List Step :=
  s.instrHead scope place block i ++ s.effectSteps matched scope place i

def terminatorOutline (s : Setup) (scope : Scope) (label : Label) (t : Terminator) : List Step :=
  let self := Value.terminator scope.function label
  let block := Value.block scope.function label
  .row ⟨.instr, [self, t.opcode, block]⟩ :: s.operandOutline scope self t.operands ++
    (successorRows scope.function block t).map .row ++ s.returnSteps scope t ++
    s.caseOutline self t.operands.length t.caseValues

def blockOutline (s : Setup) (matched : MatchedCalls) (scope : Scope) (b : Block) : List Step :=
  let block := Value.block scope.function b.label
  .row ⟨.block, [block, Value.function scope.function]⟩ ::
    (b.instrs.zipIdx.flatMap fun (i, k) =>
      s.instrOutline matched scope ⟨scope.function, b.label, k⟩ block i) ++
    s.terminatorOutline scope b.label b.terminator

/-- What a function is, ahead of its blocks. -/
def functionHead (s : Setup) (f : FunctionId) (function : Function) : List Step :=
  let self := Value.function f
  [.row ⟨.function, [self, function.name]⟩,
      .row ⟨.memoryObject, [self, "function"]⟩,
      .row ⟨.addressOf, [self, self]⟩,
      .typed self .pointer] ++
    (function.params.zipIdx.flatMap fun (p, k) => s.argumentSteps f function k p.2) ++
    if function.isDeclaration then [.row ⟨.functionDecl, [self]⟩]
    else .remark (.emitting function.name function.body.size) ::
      .row ⟨.functionEntry, [self, Value.block f .entry]⟩ ::
      ((Scope.new f function).names.filterMap fun (_, _, ty) => ty.map .intern)

def functionOutline (s : Setup) (matched : MatchedCalls) (f : FunctionId) (function : Function) :
    List Step :=
  s.functionHead f function ++ function.blocks.flatMap (s.blockOutline matched (.new f function))

def globalOutline (s : Setup) (g : GlobalId) (global : Global) : List Step :=
  let self := Value.global g
  let storage := ObjectRef.storage self
  [.row ⟨.global, [self, global.name]⟩,
      .typed self .pointer,
      .row ⟨.memoryObject, [storage, "global"]⟩,
      .row ⟨.objectType, [storage, .typeText global.ty]⟩,
      .row ⟨.addressOf, [self, storage]⟩] ++
    global.initializer.toList.map fun c => .row ⟨.globalInit, [storage, s.unit.constantValue c]⟩

/-- What is said first: the special objects and the name of the module. -/
def preamble (s : Setup) : List Step :=
  (s.config.specialObjects.zipIdx.map fun (name, k) =>
      .row ⟨.specialObject, [ObjectRef.special k, name]⟩) ++
    [.row ⟨.moduleName, [s.unit.name]⟩]

/-- What a plan says of the parts of the module. -/
def outline (s : Setup) (matched : MatchedCalls) : List Step :=
  s.preamble ++ (s.unit.globalList.flatMap fun (g, global) => s.globalOutline g global) ++
    s.unit.functionList.flatMap fun (f, function) => s.functionOutline matched f function

/-! ## Plans interleave their outlines -/

variable {matched : MatchedCalls}

theorem outlines_operandSteps (scope : Scope) (user : Value) (operands : List Operand) :
    s.Outlines (s.operandSteps scope user operands) (operands.filterMap Operand.constant?)
      (s.operandOutline scope user operands) := by
  have hids : operands.filterMap Operand.constant? =
      operands.zipIdx.flatMap fun e => e.1.constant?.toList := by
    rw [flatMap_zipIdx_fst operands fun o => o.constant?.toList,
      List.filterMap_eq_flatMap_toList]
  rw [hids, operandOutline, List.map_eq_flatMap]
  refine Outlines.collect fun e _ => ?_
  obtain ⟨o, k⟩ := e
  cases o with
  | imm c => exact (outlines_constantSteps c).after _
  | reg r => exact (Outlines.pure []).after _
  | label l => exact (Outlines.pure []).after _

theorem outlines_caseSteps (user : Value) (start : Nat) (cases : List ConstId) :
    s.Outlines (s.caseSteps user start cases) cases (s.caseOutline user start cases) := by
  have hids : cases = cases.zipIdx.flatMap fun e => [e.1] := by
    rw [← List.map_eq_flatMap, List.zipIdx_map_fst]
  rw [caseOutline, List.map_eq_flatMap]
  nth_rewrite 2 [hids]
  exact Outlines.collect fun e _ => (outlines_constantSteps e.1).after _

theorem outlines_instrSteps (scope : Scope) (place : Place) (block : Value) (i : Instr) :
    s.Outlines (s.instrSteps matched scope place block i) i.constants
      (s.instrOutline matched scope place block i) :=
  ((outlines_operandSteps scope (.instruction place) i.operands).before (_ :: _)).after _

theorem outlines_terminatorSteps (scope : Scope) (label : Label) (t : Terminator) :
    s.Outlines (s.terminatorSteps scope label t) t.constants
      (s.terminatorOutline scope label t) :=
  ((((outlines_operandSteps scope (.terminator scope.function label) t.operands).before
    [_]).after _).after _).append
      (outlines_caseSteps (.terminator scope.function label) t.operands.length t.caseValues)

theorem outlines_blockSteps (scope : Scope) (b : Block) :
    s.Outlines (s.blockSteps matched scope b) b.constants (s.blockOutline matched scope b) := by
  have hinstrs : s.Outlines
      (Tour.collect b.instrs.zipIdx fun e => s.instrSteps matched scope
        ⟨scope.function, b.label, e.2⟩ (.block scope.function b.label) e.1)
      (b.instrs.zipIdx.flatMap fun e => e.1.constants)
      (b.instrs.zipIdx.flatMap fun e => s.instrOutline matched scope
        ⟨scope.function, b.label, e.2⟩ (.block scope.function b.label) e.1) :=
    Outlines.collect fun e _ => outlines_instrSteps scope _ _ e.1
  rw [flatMap_zipIdx_fst b.instrs Instr.constants] at hinstrs
  exact (hinstrs.before [_]).append (outlines_terminatorSteps scope b.label b.terminator)

theorem outlines_bodySteps (f : FunctionId) (function : Function) :
    s.Outlines (s.bodySteps matched f function) function.constants
      (.remark (.emitting function.name function.body.size) ::
        .row ⟨.functionEntry, [Value.function f, Value.block f .entry]⟩ ::
        ((Scope.new f function).names.filterMap fun (_, _, ty) => ty.map .intern) ++
        function.blocks.flatMap (s.blockOutline matched (.new f function))) := by
  have hblocks : s.Outlines
      (Tour.collect function.blocks (s.blockSteps matched (Scope.new f function)))
      (function.blocks.flatMap Block.constants)
      (function.blocks.flatMap (s.blockOutline matched (Scope.new f function))) :=
    Outlines.collect fun b _ => outlines_blockSteps _ b
  exact hblocks.before (_ :: _ :: _)

theorem outlines_functionSteps (f : FunctionId) (function : Function) :
    s.Outlines (s.functionSteps matched f function) function.constants
      (s.functionOutline matched f function) := by
  unfold functionSteps functionOutline functionHead
  rw [List.append_assoc]
  by_cases hd : function.isDeclaration = true
  · have hnone : function.constants = [] := by
      rw [Function.constants, Function.blocks_of_isDeclaration hd, List.flatMap_nil]
    simp only [hd, if_true, hnone, Function.blocks_of_isDeclaration hd]
    exact (Outlines.pure _).before _
  · simp only [hd, Bool.false_eq_true, if_false]
    exact (outlines_bodySteps f function).before _

theorem outlines_globalSteps (g : GlobalId) (global : Global) :
    s.Outlines (s.globalSteps g global) global.initializer.toList (s.globalOutline g global) := by
  unfold globalSteps globalOutline
  cases global.initializer with
  | none => exact (Outlines.pure []).before _
  | some c => exact ((outlines_constantSteps c).after _).before _

theorem outlines_planTour (s : Setup) (matched : MatchedCalls) :
    s.Outlines (s.planTour matched) s.unit.references (s.outline matched) := by
  have hglobals : s.Outlines
      (Tour.collect s.unit.globalList fun e => s.globalSteps e.1 e.2)
      (s.unit.globalList.flatMap fun e => e.2.initializer.toList)
      (s.unit.globalList.flatMap fun e => s.globalOutline e.1 e.2) :=
    Outlines.collect fun e _ => outlines_globalSteps e.1 e.2
  have hfunctions : s.Outlines
      (Tour.collect s.unit.functionList fun e => s.functionSteps matched e.1 e.2)
      (s.unit.functionList.flatMap fun e => e.2.constants)
      (s.unit.functionList.flatMap fun e => s.functionOutline matched e.1 e.2) :=
    Outlines.collect fun e _ => outlines_functionSteps e.1 e.2
  have hids : s.unit.references =
      (s.unit.globalList.flatMap fun e => e.2.initializer.toList) ++
        s.unit.functionList.flatMap fun e => e.2.constants := by
    rw [Module.references, ← s.unit.map_snd_globalList, ← s.unit.map_snd_functionList,
      List.flatMap_map, List.filterMap_map, List.filterMap_eq_flatMap_toList]
    rfl
  rw [hids, outline, preamble, List.append_assoc (List.map _ _)]
  exact ((hglobals.before [_]).before _).append hfunctions

/-- A plan interleaves its outline with the walk to the constants that the module refers
to. -/
theorem plan_interleaves (s : Setup) (matched : MatchedCalls) :
    Interleaves (s.outline matched)
      ((s.unit.marksOf s.unit.references).flatMap s.markSteps) (s.plan matched) := by
  obtain ⟨new, hvisit, -, hout⟩ := outlines_planTour s matched []
  rwa [Module.marksOf, hvisit, List.nil_append]

end Setup

end PointsTo
