import Mathlib
import PointsTo.Proofs.Shapes

/-!
# The types that a plan names

A module names types by their ids in a type table. A plan asks only for those, for pointers
and for bits; so if a table has the types that the module names, then it has all that
the plan asks for.
-/

namespace PointsTo

/-! ## The types that a module names -/

def Instr.typeIds : Instr → List TypeId
  | .iarith _ ty _ _ _ => [ty]
  | .icmp _ ty _ _ _ => [ty]
  | .farith _ ty _ _ _ => [ty]
  | .fcmp _ ty _ _ _ => [ty]
  | .load _ ty _ _ => [ty]
  | .store .. => []
  | .alloca _ ty _ _ => [ty]
  | .elementPtr _ ty _ _ => [ty]
  | .invoke call => call.ty.toList
  | .phi _ ty _ => [ty]
  | .select _ _ _ _ ty => [ty]
  | .cast _ _ ty _ => [ty]

def Const.typeIds : Const → List TypeId
  | .undef ty => [ty]
  | .zero ty => [ty]
  | .aggregate ty _ => [ty]
  | .elementAddr _ ty _ => [ty]
  | _ => []

def Function.typeIds (f : Function) : List TypeId :=
  f.params.map (·.2) ++ f.returnType.toList ++
    f.blocks.flatMap fun b => b.instrs.flatMap Instr.typeIds

/-- The types that a module names: those of its globals, of its constants and in its
functions. -/
def Module.typeIds (m : Module) : List TypeId :=
  m.globals.map (·.ty) ++ (m.constants.entries.flatMap fun e => e.ty :: e.value.typeIds) ++
    m.functions.flatMap Function.typeIds

namespace Module

variable {m : Module} {f : FunctionId} {function : Function}

theorem global_mem_typeIds {g : GlobalId} {global : Global} (h : (g, global) ∈ m.globalList) :
    global.ty ∈ m.typeIds := by
  have hmem : global ∈ m.globals := List.mem_of_getElem? (mem_globalList_iff.1 h)
  simp only [typeIds, List.mem_append, List.mem_map]
  exact .inl (.inl ⟨global, hmem, rfl⟩)

theorem constant_mem_typeIds {c : ConstId} {e : TypedConst} (h : m.constants.get? c = some e) :
    e.ty ∈ m.typeIds := by
  have hmem : e ∈ m.constants.entries := List.mem_of_getElem? h
  simp only [typeIds, List.mem_append, List.mem_flatMap]
  exact .inl (.inr ⟨e, hmem, List.mem_cons_self⟩)

theorem param_mem_typeIds (hf : (f, function) ∈ m.functionList) {p : Register × TypeId}
    (h : p ∈ function.params) : p.2 ∈ m.typeIds := by
  simp only [typeIds, Function.typeIds, List.mem_append, List.mem_flatMap, List.mem_map]
  exact .inr ⟨function, mem_functions_of_mem hf, .inl (.inl ⟨p, h, rfl⟩)⟩

theorem instr_mem_typeIds (hf : (f, function) ∈ m.functionList) {b : Block}
    (hb : b ∈ function.blocks) {i : Instr} (hi : i ∈ b.instrs) {id : TypeId}
    (h : id ∈ i.typeIds) : id ∈ m.typeIds := by
  simp only [typeIds, Function.typeIds, List.mem_append, List.mem_flatMap]
  exact .inr ⟨function, mem_functions_of_mem hf, .inr ⟨b, hb, i, hi, h⟩⟩

end Module

/-! ## The types that a step names -/

/-- The type is a pointer, a bit or one of the list. -/
def StaticType.Among (ids : List TypeId) : StaticType → Prop
  | .named id => id ∈ ids
  | _ => True

/-- The types that the row gives the texts of are in the list. -/
def Row.Among (ids : List TypeId) (r : Row) : Prop := ∀ id, .typeText id ∈ r.cells → id ∈ ids

/-- The types that the step asks for are known beforehand: pointers, bits or in the list. -/
def Step.Among (ids : List TypeId) : Step → Prop
  | .row r => r.Among ids
  | .typed _ ty => ty.Among ids
  | .intern ty => ty.Among ids
  | .ifPointer ty rows => ty.Among ids ∧ ∀ r ∈ rows, r.Among ids
  | .need _ => True
  | .remark _ => True
  | .visited _ => True
  | .acts _ => False

/-- The models that are always there give no texts of types. -/
theorem CallModels.Bundled.among {models : CallModels} (h : models.Bundled) {model : CallModel}
    (hmodel : model ∈ models.models) (site : CallSite) (call : CallObjects) (ids : List TypeId) :
    ∀ st ∈ model.describe site call, st.Among ids := by
  rcases h model hmodel with ⟨symbols, rfl⟩ | rfl
  · simp [CallModel.heapAllocator, Step.Among, Row.Among]
  · simp only [CallModel.memoryCopy]
    split
    · split <;> simp [Step.Among, Row.Among]
    · simp

theorem Instr.among_resultType? {i : Instr} {ty : StaticType} (h : i.resultType? = some ty) :
    ty.Among i.typeIds := by
  cases i with
  | store addr value access => cases h
  | invoke call =>
    obtain ⟨id, hid, rfl⟩ := Option.map_eq_some_iff.1 h
    simp [StaticType.Among, typeIds, hid]
  | _ =>
    cases h
    simp [StaticType.Among, typeIds]

theorem StaticType.Among.mono {ids ids' : List TypeId} {ty : StaticType} (h : ty.Among ids)
    (hsub : ids ⊆ ids') : ty.Among ids' := by
  cases ty with
  | named id => exact hsub h
  | pointer => trivial
  | bit => trivial

namespace Setup

variable {s : Setup} {matched : MatchedCalls} {f : FunctionId} {function : Function}

theorem among_definitionType? (hf : (f, function) ∈ s.unit.functionList) {d : Definition}
    {ty : StaticType} (h : Scope.definitionType? function d = some ty) :
    ty.Among s.unit.typeIds := by
  cases d with
  | param k =>
    obtain ⟨p, hp, rfl⟩ := Option.map_eq_some_iff.1 h
    exact Module.param_mem_typeIds hf (List.mem_of_getElem? hp)
  | instr label k =>
    obtain ⟨i, hi, hty⟩ := Option.bind_eq_some_iff.1 h
    obtain ⟨b, hb, hi⟩ := Option.bind_eq_some_iff.1 hi
    have hblock : b ∈ function.blocks := List.mem_map.2 ⟨_, Table.get?_eq_some_iff.1 hb, rfl⟩
    exact (Instr.among_resultType? hty).mono fun id hid =>
      Module.instr_mem_typeIds hf hblock (List.mem_of_getElem? hi) hid

theorem among_typeOf? (hf : (f, function) ∈ s.unit.functionList) {o : Operand} {ty : StaticType}
    (h : (Scope.new f function).typeOf? s.unit o = some ty) : ty.Among s.unit.typeIds := by
  cases o with
  | reg r =>
    rw [Scope.typeOf?, Scope.lookup_new] at h
    obtain ⟨p, hp, hty⟩ := Option.bind_eq_some_iff.1 h
    obtain ⟨d, -, rfl⟩ := Option.map_eq_some_iff.1 hp
    exact among_definitionType? hf hty
  | imm c =>
    obtain ⟨pooled, hpooled, rfl⟩ := Option.map_eq_some_iff.1 h
    exact Module.constant_mem_typeIds hpooled
  | label l => cases h

/-- What is said of a part asks for types that the part names, one case for each kind of step. -/
theorem EffectStep.among (hb : s.models.Bundled) {b : Block} {i : Instr} {k : Nat}
    (hi : s.unit.HasInstr f function b i k) {place : Place} {st : Step}
    (h : s.EffectStep matched (.new f function) place i st) : st.Among s.unit.typeIds := by
  have hids {id : TypeId} (hid : id ∈ i.typeIds) : id ∈ s.unit.typeIds :=
    Module.instr_mem_typeIds hi.mem_functionList hi.mem_blocks
      (List.fst_mem_of_mem_zipIdx hi.mem_instrs) hid
  cases h with
  | allocaType => simpa [Step.Among, Row.Among] using hids List.mem_cons_self
  | load => exact ⟨hids List.mem_cons_self, by simp [Row.Among]⟩
  | store hty => exact ⟨among_typeOf? hi.mem_functionList hty, by simp [Row.Among]⟩
  | phi =>
    refine ⟨hids List.mem_cons_self, fun r hr => ?_⟩
    obtain ⟨q, -, rfl⟩ := List.mem_map.1 hr
    simp [Row.Among]
  | select => exact ⟨hids List.mem_cons_self, by simp [Row.Among]⟩
  | bitcast => exact ⟨hids List.mem_cons_self, by simp [Row.Among]⟩
  | callArg _ _ hty => exact ⟨among_typeOf? hi.mem_functionList hty, by simp [Row.Among]⟩
  | callReturn _ hty =>
    exact ⟨hids (by simp [Instr.typeIds, hty]), by simp [Row.Among]⟩
  | described hmodel hst =>
    obtain ⟨position, -, hget⟩ := Option.bind_eq_some_iff.1 hmodel
    exact hb.among (List.mem_of_getElem? hget) _ _ _ _ hst
  | _ => simp [Step.Among, Row.Among]

theorem FunctionStep.among (hf : (f, function) ∈ s.unit.functionList) {st : Step}
    (h : s.FunctionStep f function st) : st.Among s.unit.typeIds := by
  have hparam {p : Register × TypeId} {k : Nat} (hp : (p, k) ∈ function.params.zipIdx) :
      p.2 ∈ s.unit.typeIds :=
    Module.param_mem_typeIds hf (List.fst_mem_of_mem_zipIdx hp)
  cases h with
  | typed => trivial
  | argumentTyped hp => exact hparam hp
  | freeArgument hp => exact ⟨hparam hp, by simp [Row.Among]⟩
  | intern _ hr =>
    obtain ⟨d, -, heq⟩ := List.mem_map.1 hr
    exact among_definitionType? hf (congrArg (·.2.2) heq)
  | _ => simp [Step.Among, Row.Among]

/-- The types that a plan asks for are those that its module names, pointers and bits. -/
theorem among_plan (hb : s.models.Bundled) : ∀ st ∈ s.plan matched, st.Among s.unit.typeIds := by
  intro st hst
  cases mem_plan_iff.1 hst with
  | preamble h => cases h <;> simp [Step.Among, Row.Among]
  | global hg h =>
    cases h with
    | typed => trivial
    | type => simpa [Step.Among, Row.Among] using Module.global_mem_typeIds hg
    | _ => simp [Step.Among, Row.Among]
  | function hf h => exact h.among hf
  | block => simp [Step.Among, Row.Among]
  | terminator hblock h =>
    cases h with
    | returned _ hty => exact ⟨among_typeOf? hblock.mem_functionList hty, by simp [Row.Among]⟩
    | _ => simp [Step.Among, Row.Among]
  | instr hi h =>
    cases h with
    | typed hty =>
      exact (Instr.among_resultType? hty).mono fun id hid =>
        Module.instr_mem_typeIds hi.mem_functionList hi.mem_blocks
          (List.fst_mem_of_mem_zipIdx hi.mem_instrs) hid
    | _ => simp [Step.Among, Row.Among]
  | effect hi h => exact h.among hb hi
  | mark _ h =>
    cases h with
    | typed hc => exact Module.constant_mem_typeIds hc
    | _ => simp [Step.Among, Row.Among]

end Setup

end PointsTo
