import Mathlib
import PointsTo.Proofs.Outline

/-!
# The steps of a plan

What is true of all steps of a plan is proved by a look at each kind of step, with the part of
the module that it is about at hand. The kinds are listed here once, one constructor for each,
and membership in a plan is shown to be just that.

What is drawn from a plan in order is drawn from its pieces. A relation between steps and what is
drawn from them that holds of the pieces holds of the outline, if it goes with appending.

## Main definitions

* `Setup.PlanStep s matched`: the steps of a plan, by kind.
* `Setup.Pieces β`, `Setup.Piecewise R`: what is drawn from the pieces of an outline, and a relation
  `R` between steps and what is drawn from them that goes with appending.
-/

namespace PointsTo

@[simp] theorem Scope.function_new (f : FunctionId) (function : Function) :
    (Scope.new f function).function = f := rfl

theorem Label.mem_ordered_iff {labels : List Label} {l : Label} :
    l ∈ Label.ordered labels ↔ l ∈ labels := by
  rw [Label.ordered, ← Table.contains_iff_mem_keys, Table.contains_ofList]
  simp

namespace Setup

variable (s : Setup) (matched : MatchedCalls)

/-! ## Kinds of steps -/

inductive PreambleStep : Step → Prop
  | special {name : String} {k : Nat} (h : (name, k) ∈ s.config.specialObjects.zipIdx) :
      PreambleStep (.row ⟨.specialObject, [ObjectRef.special k, name]⟩)
  | moduleName : PreambleStep (.row ⟨.moduleName, [s.unit.name]⟩)

inductive GlobalStep (g : GlobalId) (global : Global) : Step → Prop
  | global : GlobalStep g global (.row ⟨.global, [Value.global g, global.name]⟩)
  | typed : GlobalStep g global (.typed (.global g) .pointer)
  | memory : GlobalStep g global
      (.row ⟨.memoryObject, [ObjectRef.storage (.global g), "global"]⟩)
  | type : GlobalStep g global
      (.row ⟨.objectType, [ObjectRef.storage (.global g), .typeText global.ty]⟩)
  | address : GlobalStep g global
      (.row ⟨.addressOf, [Value.global g, ObjectRef.storage (.global g)]⟩)
  | initializer {c : ConstId} (h : global.initializer = some c) : GlobalStep g global
      (.row ⟨.globalInit, [ObjectRef.storage (.global g), s.unit.constantValue c]⟩)

/-- The steps of a function ahead of its blocks. -/
inductive FunctionStep (f : FunctionId) (function : Function) : Step → Prop
  | function : FunctionStep f function (.row ⟨.function, [Value.function f, function.name]⟩)
  | memory : FunctionStep f function (.row ⟨.memoryObject, [Value.function f, "function"]⟩)
  | address : FunctionStep f function (.row ⟨.addressOf, [Value.function f, Value.function f]⟩)
  | typed : FunctionStep f function (.typed (.function f) .pointer)
  | argument {p : Register × TypeId} {k : Nat} (h : (p, k) ∈ function.params.zipIdx) :
      FunctionStep f function (.row ⟨.argument, [Value.function f, k, Value.argument f k]⟩)
  | argumentTyped {p : Register × TypeId} {k : Nat} (h : (p, k) ∈ function.params.zipIdx) :
      FunctionStep f function (.typed (.argument f k) (.named p.2))
  | freeArgument {p : Register × TypeId} {k : Nat} (h : (p, k) ∈ function.params.zipIdx)
      (hfree : s.config.freeArguments.isFree function true = true) : FunctionStep f function
        (.ifPointer (.named p.2) [⟨.freeArgument, [Value.argument f k]⟩])
  | declaration (h : function.isDeclaration = true) :
      FunctionStep f function (.row ⟨.functionDecl, [Value.function f]⟩)
  | emitting (h : function.isDeclaration = false) :
      FunctionStep f function (.remark (.emitting function.name function.body.size))
  | entry (h : function.isDeclaration = false) :
      FunctionStep f function (.row ⟨.functionEntry, [Value.function f, Value.block f .entry]⟩)
  | intern (h : function.isDeclaration = false) {r : Register} {v : Value} {ty : StaticType}
      (hr : (r, v, some ty) ∈ (Scope.new f function).names) : FunctionStep f function (.intern ty)

inductive TerminatorStep (scope : Scope) (label : Label) (t : Terminator) : Step → Prop
  | instr : TerminatorStep scope label t (.row ⟨.instr,
      [Value.terminator scope.function label, t.opcode, Value.block scope.function label]⟩)
  | operand {o : Operand} {k : Nat} (h : (o, k) ∈ t.operands.zipIdx) :
      TerminatorStep scope label t (.row ⟨.operand,
        [Value.terminator scope.function label, k, scope.object s.unit o]⟩)
  | successor {l : Label} (h : l ∈ t.successors) :
      TerminatorStep scope label t (.row ⟨.successor,
        [Value.block scope.function label, Value.block scope.function l]⟩)
  | returned {o : Operand} {ty : StaticType} (h : t = .ret (some o))
      (hty : scope.typeOf? s.unit o = some ty) :
      TerminatorStep scope label t (.ifPointer ty [⟨.returned,
        [Value.function scope.function, scope.object s.unit o]⟩])
  | caseValue {c : ConstId} {k : Nat} (h : (c, k) ∈ t.caseValues.zipIdx) :
      TerminatorStep scope label t (.row ⟨.operand, [Value.terminator scope.function label,
        t.operands.length + k, s.unit.constantValue c]⟩)

/-- The steps that say what an instruction is. -/
inductive InstrStep (scope : Scope) (place : Place) (block : Value) (i : Instr) : Step → Prop
  | instr : InstrStep scope place block i
      (.row ⟨.instr, [Value.instruction place, i.opcode, block]⟩)
  | typed {ty : StaticType} (h : i.resultType? = some ty) :
      InstrStep scope place block i (.typed (.instruction place) ty)
  | operand {o : Operand} {k : Nat} (h : (o, k) ∈ i.operands.zipIdx) :
      InstrStep scope place block i
        (.row ⟨.operand, [Value.instruction place, k, scope.object s.unit o]⟩)

/-- The steps that say what an instruction does. -/
inductive EffectStep (scope : Scope) (place : Place) : Instr → Step → Prop
  | allocaMemory {d ty n a} : EffectStep scope place (.alloca d ty n a)
      (.row ⟨.memoryObject, [ObjectRef.storage (.instruction place), "stack"]⟩)
  | allocaType {d ty n a} : EffectStep scope place (.alloca d ty n a)
      (.row ⟨.objectType, [ObjectRef.storage (.instruction place), .typeText ty]⟩)
  | allocaAddress {d ty n a} : EffectStep scope place (.alloca d ty n a)
      (.row ⟨.addressOf, [Value.instruction place, ObjectRef.storage (.instruction place)]⟩)
  | load {d ty addr a} : EffectStep scope place (.load d ty addr a) (.ifPointer (.named ty)
      [⟨.load, [Value.instruction place, scope.object s.unit addr]⟩])
  | store {addr value a ty} (hty : scope.typeOf? s.unit value = some ty) :
      EffectStep scope place (.store addr value a) (.ifPointer ty [⟨.store,
        [Value.instruction place, scope.object s.unit addr, scope.object s.unit value]⟩])
  | elementPtr {d ty base indices} : EffectStep scope place (.elementPtr d ty base indices)
      (.row ⟨.elementAddr, [Value.instruction place, scope.object s.unit base]⟩)
  | phi {d ty incoming} : EffectStep scope place (.phi d ty incoming)
      (.ifPointer (.named ty) (incoming.map fun (l, o) => ⟨.phi,
        [Value.instruction place, Value.block scope.function l, scope.object s.unit o]⟩))
  | select {d c ifTrue ifFalse ty} : EffectStep scope place (.select d c ifTrue ifFalse ty)
      (.ifPointer (.named ty) ([ifTrue, ifFalse].map fun o =>
        ⟨.move, [Value.instruction place, scope.object s.unit o]⟩))
  | bitcast {d ty value} : EffectStep scope place (.cast d .bitcast ty value)
      (.ifPointer (.named ty) [⟨.move, [Value.instruction place, scope.object s.unit value]⟩])
  | unknownSource {d ty value id} (hid : s.config.specialId? unknownObject = some id) :
      EffectStep scope place (.cast d .intToPtr ty value)
        (.row ⟨.unknownSource, [Value.instruction place, ObjectRef.special id.index]⟩)
  | untraceable {d ty value id} (hid : s.config.specialId? unknownObject = some id) :
      EffectStep scope place (.cast d .intToPtr ty value)
      (.remark (.untraceable (.instruction place) (s.unit.valueName (.instruction place))
        "inttoptr"))
  | untraced {d ty value} (hid : s.config.specialId? unknownObject = none) :
      EffectStep scope place (.cast d .intToPtr ty value)
        (.remark (.untraced (s.unit.valueName (.instruction place))))
  /-- The general account of a call, which no model took over. -/
  | call {call} (h : (matched.lookup place).bind (s.models.models[·]?) = none) :
      EffectStep scope place (.invoke call)
        (.row ⟨.call, [Value.instruction place, scope.object s.unit call.function]⟩)
  | callArg {call ty} {o : Operand} {k : Nat}
      (h : (matched.lookup place).bind (s.models.models[·]?) = none)
      (ho : (o, k) ∈ call.args.zipIdx) (hty : scope.typeOf? s.unit o = some ty) :
      EffectStep scope place (.invoke call) (.ifPointer ty
        [⟨.callArg, [Value.instruction place, k, scope.object s.unit o]⟩])
  | callReturn {call ty} (h : (matched.lookup place).bind (s.models.models[·]?) = none)
      (hty : call.ty = some ty) : EffectStep scope place (.invoke call)
        (.ifPointer (.named ty) [⟨.callReturn, [Value.instruction place]⟩])
  | handled {call model} (h : (matched.lookup place).bind (s.models.models[·]?) = some model) :
      EffectStep scope place (.invoke call)
        (.remark (.handled (.instruction place) model.name))
  | described {call model st}
      (h : (matched.lookup place).bind (s.models.models[·]?) = some model)
      (hst : st ∈ model.describe (.new s.unit place call) ⟨.instruction place,
        scope.object s.unit call.function, call.args.map (scope.object s.unit)⟩) :
      EffectStep scope place (.invoke call) st

/-- The steps at a mark of the walk over the constants. -/
inductive MarkStep : Mark → Step → Prop
  | need {c : ConstId} : MarkStep (.enter c) (.need (Value.constant c))
  | visiting {c : ConstId} (h : s.unit.HasConstant c) :
      MarkStep (.enter c) (.remark (.visiting c))
  | missing {c : ConstId} (h : ¬ s.unit.HasConstant c) :
      MarkStep (.enter c) (.need (.missing (.undefinedConstant c)))
  | constant {c : ConstId} {pooled : TypedConst} (h : s.unit.constants.get? c = some pooled) :
      MarkStep (.leave c) (.row ⟨.constant, [Value.constant c, pooled.value.kind]⟩)
  | typed {c : ConstId} {pooled : TypedConst} (h : s.unit.constants.get? c = some pooled) :
      MarkStep (.leave c) (.typed (.constant c) (.named pooled.ty))
  | element {c : ConstId} {pooled : TypedConst} (h : s.unit.constants.get? c = some pooled)
      {ty : TypeId} {elements : List ConstId} (hvalue : pooled.value = .aggregate ty elements)
      {e : ConstId} {k : Nat} (he : (e, k) ∈ elements.zipIdx) : MarkStep (.leave c)
        (.row ⟨.constElement, [Value.constant c, k, s.unit.constantValue e]⟩)
  | elementAddr {c : ConstId} {pooled : TypedConst} (h : s.unit.constants.get? c = some pooled)
      {base : ConstId} {ty : TypeId} {indices : List Nat}
      (hvalue : pooled.value = .elementAddr base ty indices) : MarkStep (.leave c)
        (.row ⟨.elementAddr, [Value.constant c, s.unit.constantValue base]⟩)
  | null {c : ConstId} {pooled : TypedConst} (h : s.unit.constants.get? c = some pooled)
      (hvalue : pooled.value = .null) {id : ObjectId}
      (hid : s.config.specialId? nullObject = some id) : MarkStep (.leave c)
        (.row ⟨.addressOf, [Value.constant c, ObjectRef.special id.index]⟩)
  | visited {c : ConstId} {pooled : TypedConst} (h : s.unit.constants.get? c = some pooled) :
      MarkStep (.leave c) (.visited c)

/-- The steps of a plan, by the part of the module that they are about. -/
inductive PlanStep : Step → Prop
  | preamble {st : Step} (h : s.PreambleStep st) : PlanStep st
  | global {g : GlobalId} {global : Global} {st : Step} (hg : (g, global) ∈ s.unit.globalList)
      (h : s.GlobalStep g global st) : PlanStep st
  | function {f : FunctionId} {function : Function} {st : Step}
      (hf : (f, function) ∈ s.unit.functionList) (h : s.FunctionStep f function st) : PlanStep st
  | block {f : FunctionId} {function : Function} {b : Block}
      (hb : s.unit.HasBlock f function b) :
      PlanStep (.row ⟨.block, [Value.block f b.label, Value.function f]⟩)
  | terminator {f : FunctionId} {function : Function} {b : Block} {st : Step}
      (hb : s.unit.HasBlock f function b)
      (h : s.TerminatorStep (.new f function) b.label b.terminator st) : PlanStep st
  | instr {f : FunctionId} {function : Function} {b : Block} {i : Instr} {k : Nat} {st : Step}
      (hi : s.unit.HasInstr f function b i k)
      (h : s.InstrStep (.new f function) ⟨f, b.label, k⟩ (.block f b.label) i st) : PlanStep st
  | effect {f : FunctionId} {function : Function} {b : Block} {i : Instr} {k : Nat} {st : Step}
      (hi : s.unit.HasInstr f function b i k)
      (h : s.EffectStep matched (.new f function) ⟨f, b.label, k⟩ i st) : PlanStep st
  | mark {mark : Mark} {st : Step} (hmark : mark ∈ s.unit.marksOf s.unit.references)
      (h : s.MarkStep mark st) : PlanStep st

/-! ## Membership -/

variable {s matched} {st : Step}

theorem mem_preamble_iff : st ∈ s.preamble ↔ s.PreambleStep st := by
  constructor
  · intro h
    simp only [preamble, List.mem_append, List.mem_map, List.mem_singleton] at h
    rcases h with ⟨e, he, rfl⟩ | rfl
    · exact .special he
    · exact .moduleName
  · intro h
    cases h with
    | special h => exact List.mem_append_left _ (List.mem_map.2 ⟨_, h, rfl⟩)
    | moduleName => simp [preamble]

theorem mem_globalOutline_iff {g : GlobalId} {global : Global} :
    st ∈ s.globalOutline g global ↔ s.GlobalStep g global st := by
  constructor
  · intro h
    simp only [globalOutline, List.cons_append, List.nil_append, List.mem_cons, List.mem_map,
      Option.mem_toList] at h
    rcases h with rfl | rfl | rfl | rfl | rfl | ⟨c, hc, rfl⟩
    · exact .global
    · exact .typed
    · exact .memory
    · exact .type
    · exact .address
    · exact .initializer hc
  · intro h
    cases h with
    | initializer h => simp [globalOutline, h]
    | _ => simp [globalOutline]

theorem mem_argumentSteps_iff {f : FunctionId} {function : Function} {k : Nat} {ty : TypeId} :
    st ∈ s.argumentSteps f function k ty ↔
      st = .row ⟨.argument, [Value.function f, k, Value.argument f k]⟩ ∨
      st = .typed (.argument f k) (.named ty) ∨
      s.config.freeArguments.isFree function true = true ∧
        st = .ifPointer (.named ty) [⟨.freeArgument, [Value.argument f k]⟩] := by
  unfold argumentSteps
  split
  next h => simp [h]
  next h => simp [h]

theorem mem_functionHead_iff {f : FunctionId} {function : Function} :
    st ∈ s.functionHead f function ↔ s.FunctionStep f function st := by
  constructor
  · intro h
    simp only [functionHead, List.cons_append, List.nil_append, List.mem_cons, List.mem_append,
      List.mem_flatMap, mem_argumentSteps_iff] at h
    rcases h with rfl | rfl | rfl | rfl | ⟨p, hp, rfl | rfl | ⟨hfree, rfl⟩⟩ | h
    · exact .function
    · exact .memory
    · exact .address
    · exact .typed
    · exact .argument hp
    · exact .argumentTyped hp
    · exact .freeArgument hp hfree
    · split at h
      next hd =>
        rw [List.mem_singleton] at h
        subst h
        exact .declaration hd
      next hd =>
        rw [Bool.not_eq_true] at hd
        simp only [List.mem_cons, List.mem_filterMap, Option.map_eq_some_iff] at h
        rcases h with rfl | rfl | ⟨⟨r, v, ty?⟩, hr, ty, rfl, rfl⟩
        · exact .emitting hd
        · exact .entry hd
        · exact .intern hd hr
  · intro h
    have hargument {p : Register × TypeId} {k : Nat} (hp : (p, k) ∈ function.params.zipIdx)
        (hst : st ∈ s.argumentSteps f function k p.2) : st ∈ s.functionHead f function := by
      rw [functionHead, List.mem_append, List.mem_append, List.mem_flatMap]
      exact .inl (.inr ⟨_, hp, hst⟩)
    cases h with
    | argument hp => exact hargument hp (mem_argumentSteps_iff.2 (.inl rfl))
    | argumentTyped hp => exact hargument hp (mem_argumentSteps_iff.2 (.inr (.inl rfl)))
    | freeArgument hp hfree =>
      exact hargument hp (mem_argumentSteps_iff.2 (.inr (.inr ⟨hfree, rfl⟩)))
    | declaration hd =>
      rw [functionHead, List.mem_append, if_pos hd]
      exact .inr (.head _)
    | emitting hd =>
      rw [functionHead, List.mem_append, if_neg (by simp [hd])]
      exact .inr (.head _)
    | entry hd =>
      rw [functionHead, List.mem_append, if_neg (by simp [hd])]
      exact .inr (.tail _ (.head _))
    | intern hd hr =>
      rw [functionHead, List.mem_append, if_neg (by simp [hd])]
      exact .inr (.tail _ (.tail _ (List.mem_filterMap.2 ⟨_, hr, rfl⟩)))
    | _ => simp [functionHead]

theorem mem_ifPointer_iff {scope : Scope} {o : Operand} {rows : List Row} :
    st ∈ scope.ifPointer s.unit o rows ↔
      ∃ ty, scope.typeOf? s.unit o = some ty ∧ st = .ifPointer ty rows := by
  unfold Scope.ifPointer
  split
  next ty hty => simp [hty]
  next hnone => simp [hnone]

theorem mem_operandOutline_iff {scope : Scope} {user : Value} {operands : List Operand} :
    st ∈ s.operandOutline scope user operands ↔ ∃ o k, (o, k) ∈ operands.zipIdx ∧
      st = .row ⟨.operand, [user, k, scope.object s.unit o]⟩ := by
  simp [operandOutline, eq_comm]

theorem mem_returnSteps_iff {scope : Scope} {t : Terminator} :
    st ∈ s.returnSteps scope t ↔ ∃ o ty, t = .ret (some o) ∧
      scope.typeOf? s.unit o = some ty ∧ st = .ifPointer ty
        [⟨.returned, [Value.function scope.function, scope.object s.unit o]⟩] := by
  unfold returnSteps
  split
  next o => simp [mem_ifPointer_iff]
  next hother =>
    simp only [List.not_mem_nil, false_iff, not_exists, not_and]
    exact fun o _ ho => absurd ho (hother o)

theorem mem_terminatorOutline_iff {scope : Scope} {label : Label} {t : Terminator} :
    st ∈ s.terminatorOutline scope label t ↔ s.TerminatorStep scope label t st := by
  simp only [terminatorOutline, List.cons_append, List.mem_cons, List.mem_append, List.mem_map,
    mem_operandOutline_iff, successorRows, mem_returnSteps_iff, caseOutline]
  constructor
  · rintro (rfl | ((⟨o, k, ho, rfl⟩ | ⟨r, ⟨l, hl, rfl⟩, rfl⟩) | ⟨o, ty, ht, hty, rfl⟩) |
      ⟨e, he, rfl⟩)
    · exact .instr
    · exact .operand ho
    · exact .successor (Label.mem_ordered_iff.1 hl)
    · exact .returned ht hty
    · exact .caseValue he
  · intro h
    cases h with
    | instr => exact .inl rfl
    | operand ho => exact .inr (.inl (.inl (.inl ⟨_, _, ho, rfl⟩)))
    | successor hl => exact .inr (.inl (.inl (.inr ⟨_, ⟨_, Label.mem_ordered_iff.2 hl, rfl⟩, rfl⟩)))
    | returned ht hty => exact .inr (.inl (.inr ⟨_, _, ht, hty, rfl⟩))
    | caseValue hc => exact .inr (.inr ⟨_, hc, rfl⟩)

theorem mem_instrHead_iff {scope : Scope} {place : Place} {block : Value} {i : Instr} :
    st ∈ s.instrHead scope place block i ↔ s.InstrStep scope place block i st := by
  simp only [instrHead, List.cons_append, List.mem_cons, List.mem_append, List.mem_map,
    Option.mem_toList, mem_operandOutline_iff]
  constructor
  · rintro (rfl | ⟨ty, hty, rfl⟩ | ⟨o, k, ho, rfl⟩)
    · exact .instr
    · exact .typed hty
    · exact .operand ho
  · intro h
    cases h with
    | instr => exact .inl rfl
    | typed hty => exact .inr (.inl ⟨_, hty, rfl⟩)
    | operand ho => exact .inr (.inr ⟨_, _, ho, rfl⟩)

theorem mem_callSteps_iff {scope : Scope} {place : Place} {call : Invoke} :
    st ∈ s.callSteps matched scope place call ↔
      s.EffectStep matched scope place (.invoke call) st := by
  unfold callSteps
  constructor
  · intro h
    split at h
    next model hmodel =>
      rcases List.mem_cons.1 h with rfl | h
      · exact .handled hmodel
      · exact .described hmodel h
    next hnone =>
      simp only [generalCallSteps, List.cons_append, List.mem_cons, List.mem_append,
        List.mem_flatMap, mem_ifPointer_iff] at h
      rcases h with rfl | ⟨e, he, ty, hty, rfl⟩ | h
      · exact .call hnone
      · exact .callArg hnone he hty
      · split at h
        next ty hty =>
          rw [List.mem_singleton] at h
          subst h
          exact .callReturn hnone hty
        next => cases h
  · intro h
    cases h with
    | call hnone => simp [hnone, generalCallSteps]
    | callArg hnone ho hty =>
      simp only [hnone, generalCallSteps]
      exact List.mem_append_left _ (List.mem_cons_of_mem _ (List.mem_flatMap.2
        ⟨_, ho, mem_ifPointer_iff.2 ⟨_, hty, rfl⟩⟩))
    | callReturn hnone hty => simp [hnone, generalCallSteps, hty]
    | handled hmodel => simp [hmodel]
    | described hmodel hst =>
      simp only [hmodel]
      exact List.mem_cons_of_mem _ hst

/-- The steps of an instruction are those of its kind. Other kinds of instructions have none. -/
theorem effectStep_of_mem {scope : Scope} {place : Place} {i : Instr}
    (h : st ∈ s.effectSteps matched scope place i) : s.EffectStep matched scope place i st := by
  unfold effectSteps at h
  split at h
  next =>
    simp only [List.mem_cons, List.not_mem_nil, or_false] at h
    rcases h with rfl | rfl | rfl
    · exact .allocaMemory
    · exact .allocaType
    · exact .allocaAddress
  next =>
    rw [List.mem_singleton] at h
    subst h
    exact .load
  next =>
    obtain ⟨ty, hty, rfl⟩ := mem_ifPointer_iff.1 h
    exact .store hty
  next =>
    rw [List.mem_singleton] at h
    subst h
    exact .elementPtr
  next =>
    rw [List.mem_singleton] at h
    subst h
    exact .phi
  next =>
    rw [List.mem_singleton] at h
    subst h
    exact .select
  next =>
    rw [List.mem_singleton] at h
    subst h
    exact .bitcast
  next =>
    simp only [unknownSourceSteps] at h
    split at h
    next id hid =>
      simp only [List.mem_cons, List.not_mem_nil, or_false] at h
      rcases h with rfl | rfl
      · exact .untraceable hid
      · exact .unknownSource hid
    next hid =>
      rw [List.mem_singleton] at h
      subst h
      exact .untraced hid
  next => exact mem_callSteps_iff.1 h
  next => cases h

theorem mem_effectSteps_iff {scope : Scope} {place : Place} {i : Instr} :
    st ∈ s.effectSteps matched scope place i ↔ s.EffectStep matched scope place i st := by
  refine ⟨effectStep_of_mem, fun h => ?_⟩
  cases h with
  | store hty => exact mem_ifPointer_iff.2 ⟨_, hty, rfl⟩
  | unknownSource hid => simp [effectSteps, unknownSourceSteps, hid]
  | untraceable hid => simp [effectSteps, unknownSourceSteps, hid]
  | untraced hid => simp [effectSteps, unknownSourceSteps, hid]
  | call h => exact mem_callSteps_iff.2 (.call h)
  | callArg h ho hty => exact mem_callSteps_iff.2 (.callArg h ho hty)
  | callReturn h hty => exact mem_callSteps_iff.2 (.callReturn h hty)
  | handled h => exact mem_callSteps_iff.2 (.handled h)
  | described h hst => exact mem_callSteps_iff.2 (.described h hst)
  | _ => simp [effectSteps]

theorem mem_shapeRows_iff {c : ConstId} {value : Const} {r : Row} :
    r ∈ s.shapeRows c value ↔
      (∃ ty elements, value = .aggregate ty elements ∧ ∃ e k, (e, k) ∈ elements.zipIdx ∧
        r = ⟨.constElement, [Value.constant c, k, s.unit.constantValue e]⟩) ∨
      (∃ base ty indices, value = .elementAddr base ty indices ∧
        r = ⟨.elementAddr, [Value.constant c, s.unit.constantValue base]⟩) ∨
      value = .null ∧ ∃ id, s.config.specialId? nullObject = some id ∧
        r = ⟨.addressOf, [Value.constant c, ObjectRef.special id.index]⟩ := by
  cases value with
  | aggregate ty elements => simp [shapeRows, eq_comm]
  | elementAddr base ty indices => simp [shapeRows]
  | null =>
    cases hid : s.config.specialId? nullObject with
    | none => simp [shapeRows, hid]
    | some id => simp [shapeRows, hid]
  | _ => simp [shapeRows]

theorem mem_markSteps_iff {mark : Mark} : st ∈ s.markSteps mark ↔ s.MarkStep mark st := by
  constructor
  · intro h
    cases mark with
    | enter c =>
      simp only [markSteps, List.mem_cons, List.not_mem_nil, or_false] at h
      rcases h with rfl | rfl
      · exact .need
      · split
        next hc => exact .visiting hc
        next hc => exact .missing hc
    | leave c =>
      simp only [markSteps] at h
      split at h
      next pooled hc =>
        simp only [List.cons_append, List.nil_append, List.mem_cons, List.mem_append,
          List.mem_map, List.not_mem_nil, or_false, mem_shapeRows_iff] at h
        rcases h with rfl | rfl | ⟨r, hr, rfl⟩ | rfl
        · exact .constant hc
        · exact .typed hc
        · rcases hr with ⟨ty, elements, hvalue, e, k, he, rfl⟩ |
            ⟨base, ty, indices, hvalue, rfl⟩ | ⟨hvalue, id, hid, rfl⟩
          · exact .element hc hvalue he
          · exact .elementAddr hc hvalue
          · exact .null hc hvalue hid
        · exact .visited hc
      next => cases h
  · intro h
    have hshape {c : ConstId} {pooled : TypedConst} {r : Row}
        (hc : s.unit.constants.get? c = some pooled) (hr : r ∈ s.shapeRows c pooled.value) :
        .row r ∈ s.markSteps (.leave c) := by
      simp [markSteps, hc, hr]
    cases h with
    | need => simp [markSteps]
    | visiting hc => simp [markSteps, show (s.unit.constants.get? _).isSome = true from hc]
    | missing hc =>
      simp [markSteps, show ¬ (s.unit.constants.get? _).isSome = true from hc]
    | element hc hvalue he =>
      exact hshape hc (mem_shapeRows_iff.2 (.inl ⟨_, _, hvalue, _, _, he, rfl⟩))
    | elementAddr hc hvalue =>
      exact hshape hc (mem_shapeRows_iff.2 (.inr (.inl ⟨_, _, _, hvalue, rfl⟩)))
    | null hc hvalue hid =>
      exact hshape hc (mem_shapeRows_iff.2 (.inr (.inr ⟨hvalue, _, hid, rfl⟩)))
    | constant hc => simp [markSteps, hc]
    | typed hc => simp [markSteps, hc]
    | visited hc => simp [markSteps, hc]

/-- The steps of a plan are those of the kinds that are listed. -/
theorem mem_plan_iff : st ∈ s.plan matched ↔ s.PlanStep matched st := by
  simp only [(s.plan_interleaves matched).mem_iff, outline, functionOutline, blockOutline,
    instrOutline, List.cons_append, List.mem_append, List.mem_cons, List.mem_flatMap,
    mem_preamble_iff, mem_globalOutline_iff, mem_functionHead_iff, mem_instrHead_iff,
    mem_effectSteps_iff, mem_terminatorOutline_iff, mem_markSteps_iff]
  constructor
  · rintro (((h | ⟨e, hg, h⟩) | ⟨e, hf, h | ⟨b, hb, rfl | ⟨i, hi, h | h⟩ | h⟩⟩) |
      ⟨mark, hmark, h⟩)
    · exact .preamble h
    · exact .global hg h
    · exact .function hf h
    · exact .block ⟨hf, hb⟩
    · exact .instr ⟨⟨hf, hb⟩, hi⟩ h
    · exact .effect ⟨⟨hf, hb⟩, hi⟩ h
    · exact .terminator ⟨hf, hb⟩ h
    · exact .mark hmark h
  · intro h
    cases h with
    | preamble h => exact .inl (.inl (.inl h))
    | global hg h => exact .inl (.inl (.inr ⟨_, hg, h⟩))
    | function hf h => exact .inl (.inr ⟨_, hf, .inl h⟩)
    | block hb =>
      exact .inl (.inr ⟨_, hb.mem_functionList, .inr ⟨_, hb.mem_blocks, .inl rfl⟩⟩)
    | instr hi h =>
      exact .inl (.inr ⟨_, hi.mem_functionList, .inr ⟨_, hi.mem_blocks,
        .inr (.inl ⟨_, hi.mem_instrs, .inl h⟩)⟩⟩)
    | effect hi h =>
      exact .inl (.inr ⟨_, hi.mem_functionList, .inr ⟨_, hi.mem_blocks,
        .inr (.inl ⟨_, hi.mem_instrs, .inr h⟩)⟩⟩)
    | terminator hb h =>
      exact .inl (.inr ⟨_, hb.mem_functionList, .inr ⟨_, hb.mem_blocks, .inr (.inr h)⟩⟩)
    | mark hmark h => exact .inr ⟨_, hmark, h⟩

/-! ## What is drawn from a plan -/

section

variable {β : Type} {g : Step → List β}

/-- What the constants have nothing of is drawn from the outline. -/
theorem flatMap_plan_outline (hmark : ∀ mark st, s.MarkStep mark st → g st = []) :
    (s.plan matched).flatMap g = (s.outline matched).flatMap g := by
  refine (s.plan_interleaves matched).flatMap_left (List.flatMap_eq_nil_iff.2 fun st hst => ?_)
  obtain ⟨mark, -, hst⟩ := List.mem_flatMap.1 hst
  exact hmark mark st (mem_markSteps_iff.1 hst)

theorem flatMap_outline_functions (hpreamble : ∀ st, s.PreambleStep st → g st = [])
    (hglobal : ∀ i global st, s.GlobalStep i global st → g st = []) :
    (s.outline matched).flatMap g =
      s.unit.functionList.flatMap fun e => (s.functionOutline matched e.1 e.2).flatMap g := by
  have hsymbols : (s.preamble ++
      s.unit.globalList.flatMap fun e => s.globalOutline e.1 e.2).flatMap g = [] := by
    rw [List.flatMap_eq_nil_iff, List.forall_mem_append]
    refine ⟨fun st hst => hpreamble st (mem_preamble_iff.1 hst), fun st hst => ?_⟩
    obtain ⟨e, -, hst⟩ := List.mem_flatMap.1 hst
    exact hglobal e.1 e.2 st (mem_globalOutline_iff.1 hst)
  rw [outline, List.flatMap_append, hsymbols, List.nil_append, List.flatMap_assoc]

theorem flatMap_functionOutline_blocks {f : FunctionId} {function : Function}
    (h : ∀ st, s.FunctionStep f function st → g st = []) :
    (s.functionOutline matched f function).flatMap g = function.blocks.flatMap fun b =>
      (s.blockOutline matched (.new f function) b).flatMap g := by
  have hhead : (s.functionHead f function).flatMap g = [] :=
    List.flatMap_eq_nil_iff.2 fun st hst => h st (mem_functionHead_iff.1 hst)
  rw [functionOutline, List.flatMap_append, hhead, List.nil_append, List.flatMap_assoc]

theorem flatMap_instrOutline_effects {scope : Scope} {place : Place} {block : Value} {i : Instr}
    (h : ∀ st, s.InstrStep scope place block i st → g st = []) :
    (s.instrOutline matched scope place block i).flatMap g =
      (s.effectSteps matched scope place i).flatMap g := by
  have hhead : (s.instrHead scope place block i).flatMap g = [] :=
    List.flatMap_eq_nil_iff.2 fun st hst => h st (mem_instrHead_iff.1 hst)
  rw [instrOutline, List.flatMap_append, hhead, List.nil_append]

theorem flatMap_blockOutline_instrs {scope : Scope} {b : Block}
    (hblock : g (.row ⟨.block, [Value.block scope.function b.label,
      Value.function scope.function]⟩) = [])
    (hterminator : ∀ st, s.TerminatorStep scope b.label b.terminator st → g st = []) :
    (s.blockOutline matched scope b).flatMap g = b.instrs.zipIdx.flatMap fun e =>
      (s.instrOutline matched scope ⟨scope.function, b.label, e.2⟩
        (.block scope.function b.label) e.1).flatMap g := by
  have hend : (s.terminatorOutline scope b.label b.terminator).flatMap g = [] :=
    List.flatMap_eq_nil_iff.2 fun st hst => hterminator st (mem_terminatorOutline_iff.1 hst)
  rw [blockOutline, List.flatMap_append, hend, List.append_nil, List.flatMap_cons, hblock,
    List.nil_append, List.flatMap_assoc]

theorem flatMap_blockOutline_terminator {scope : Scope} {b : Block}
    (hblock : g (.row ⟨.block, [Value.block scope.function b.label,
      Value.function scope.function]⟩) = [])
    (hinstr : ∀ place block i st, s.InstrStep scope place block i st → g st = [])
    (heffect : ∀ place i st, s.EffectStep matched scope place i st → g st = []) :
    (s.blockOutline matched scope b).flatMap g =
      (s.terminatorOutline scope b.label b.terminator).flatMap g := by
  have hinstrs : (b.instrs.zipIdx.flatMap fun e => s.instrOutline matched scope
      ⟨scope.function, b.label, e.2⟩ (.block scope.function b.label) e.1).flatMap g = [] := by
    rw [List.flatMap_assoc, List.flatMap_eq_nil_iff]
    intro e _
    rw [flatMap_instrOutline_effects (hinstr _ _ _), List.flatMap_eq_nil_iff]
    exact fun st hst => heffect _ _ st (mem_effectSteps_iff.1 hst)
  rw [blockOutline, List.flatMap_append, List.flatMap_cons, hblock, List.nil_append, hinstrs,
    List.nil_append]

end

/-- What is drawn from the pieces of an outline: what comes first, the globals, and each function
with its blocks. -/
structure Pieces (β : Type) where
  preamble : List β
  global : GlobalId → List β
  function : FunctionId → Function → List β
  block : FunctionId → Label → List β
  instr : Place → Instr → List β
  terminator : FunctionId → Label → List β

/-- The pieces of a module in layout order. -/
def Pieces.all {β : Type} (d : Pieces β) (m : Module) : List β :=
  d.preamble ++ (m.globalList.flatMap fun e => d.global e.1) ++
    m.functionList.flatMap fun e => d.function e.1 e.2 ++ e.2.blocks.flatMap fun b =>
      d.block e.1 b.label ++
        (b.instrs.zipIdx.flatMap fun q => d.instr ⟨e.1, b.label, q.2⟩ q.1) ++
        d.terminator e.1 b.label

/-- If nothing is drawn from blocks, what is drawn comes from what stands before them. -/
theorem Pieces.all_of_blocks_nil {β : Type} {d : Pieces β} (m : Module)
    (hblock : ∀ f label, d.block f label = []) (hinstr : ∀ place i, d.instr place i = [])
    (hterminator : ∀ f label, d.terminator f label = []) :
    d.all m = d.preamble ++ (m.globalList.flatMap fun e => d.global e.1) ++
      m.functionList.flatMap fun e => d.function e.1 e.2 := by
  have hnil {α : Type} (l : List α) : (l.flatMap fun _ => ([] : List β)) = [] := by simp
  simp only [all, hblock, hinstr, hterminator, hnil, List.append_nil]

theorem Pieces.all_sublist {β : Type} {d d' : Pieces β} (m : Module)
    (hpreamble : d.preamble.Sublist d'.preamble) (hglobal : ∀ g, (d.global g).Sublist (d'.global g))
    (hfunction : ∀ f function, (d.function f function).Sublist (d'.function f function))
    (hblock : ∀ f label, (d.block f label).Sublist (d'.block f label))
    (hinstr : ∀ place i, (d.instr place i).Sublist (d'.instr place i))
    (hterminator : ∀ f label, (d.terminator f label).Sublist (d'.terminator f label)) :
    (d.all m).Sublist (d'.all m) := by
  refine (hpreamble.append (.flatMap_right _ fun e _ => hglobal e.1)).append
    (.flatMap_right _ fun e _ => (hfunction e.1 e.2).append (.flatMap_right _ fun b _ => ?_))
  exact ((hblock e.1 b.label).append (.flatMap_right _ fun q _ => hinstr _ q.1)).append
    (hterminator e.1 b.label)

/-- The values of the pieces of an outline. -/
def valuePieces : Pieces Value where
  preamble := []
  global g := [.global g]
  function f function := [.function f] ++ function.params.zipIdx.flatMap fun e => [.argument f e.2]
  block f label := [.block f label]
  instr place _ := [.instruction place]
  terminator f label := [.terminator f label]

theorem all_valuePieces (s : Setup) : valuePieces.all s.unit =
    (s.unit.globalList.map fun e => Value.global e.1) ++ s.unit.functionList.flatMap fun e =>
      [Value.function e.1] ++ (s.functionParts e.1 e.2).map Prod.fst := by
  have hfunction (e : FunctionId × Function) : valuePieces.function e.1 e.2 ++
      (e.2.blocks.flatMap fun b => [Value.block e.1 b.label] ++
        (b.instrs.zipIdx.flatMap fun q => [Value.instruction ⟨e.1, b.label, q.2⟩]) ++
        [Value.terminator e.1 b.label]) =
      [Value.function e.1] ++ (s.functionParts e.1 e.2).map Prod.fst := by
    simp only [valuePieces, fst_functionParts, fst_blockParts, List.append_assoc]
  rw [List.map_eq_flatMap]
  exact congrArg _ (List.flatMap_congr fun e _ => hfunction e)

/-- The pieces have the parts of the module. The table has the functions before all that is in
them. -/
theorem perm_all_valuePieces (s : Setup) :
    (valuePieces.all s.unit).Perm (s.parts.map Prod.fst) := by
  rw [all_valuePieces, fst_parts, bodyParts, List.map_flatMap]
  exact (List.map_append_flatMap_perm _ _ _).symm.append_left _

theorem nodup_all_valuePieces (hl : s.unit.Labelled) : (valuePieces.all s.unit).Nodup :=
  s.perm_all_valuePieces.nodup_iff.2 (nodup_parts hl)

/-- The relation between steps and what is drawn from them goes with appending. -/
structure Piecewise {β : Type} (R : List Step → List β → Prop) : Prop where
  nil : R [] []
  append : ∀ {steps steps' : List Step} {drawn drawn' : List β}, R steps drawn →
    R steps' drawn' → R (steps ++ steps') (drawn ++ drawn')

theorem piecewise_filterMap {β : Type} (f : Step → Option β) :
    Piecewise fun steps drawn => steps.filterMap f = drawn :=
  ⟨rfl, fun h h' => by rw [List.filterMap_append, h, h']⟩

theorem piecewise_flatMap {β : Type} (g : Step → List β) :
    Piecewise fun steps drawn => steps.flatMap g = drawn :=
  ⟨rfl, fun h h' => by rw [List.flatMap_append, h, h']⟩

namespace Piecewise

variable {α β : Type} {R : List Step → List β → Prop}

theorem flatMap (h : Piecewise R) {l : List α} {steps : α → List Step} {drawn : α → List β}
    (hl : ∀ a ∈ l, R (steps a) (drawn a)) : R (l.flatMap steps) (l.flatMap drawn) := by
  induction l with
  | nil => exact h.nil
  | cons a l ih =>
    rw [List.forall_mem_cons] at hl
    exact h.append hl.1 (ih hl.2)

/-- What is drawn from the pieces of an outline is drawn from the outline. -/
theorem outline (h : Piecewise R) (d : Pieces β) (hpreamble : R s.preamble d.preamble)
    (hglobal : ∀ g global, (g, global) ∈ s.unit.globalList →
      R (s.globalOutline g global) (d.global g))
    (hfunction : ∀ f function, (f, function) ∈ s.unit.functionList →
      R (s.functionHead f function) (d.function f function))
    (hblock : ∀ f label,
      R [.row ⟨.block, [Value.block f label, Value.function f]⟩] (d.block f label))
    (hinstr : ∀ {f function b i k}, s.unit.HasInstr f function b i k →
      R (s.instrOutline matched (.new f function) ⟨f, b.label, k⟩ (.block f b.label) i)
        (d.instr ⟨f, b.label, k⟩ i))
    (hterminator : ∀ {f function b}, s.unit.HasBlock f function b →
      R (s.terminatorOutline (.new f function) b.label b.terminator)
        (d.terminator f b.label)) :
    R (s.outline matched) (d.all s.unit) := by
  refine h.append (h.append hpreamble (h.flatMap fun e he => hglobal e.1 e.2 he))
    (h.flatMap fun e he => h.append (hfunction e.1 e.2 he) (h.flatMap fun b hb => ?_))
  exact h.append (h.append (hblock e.1 b.label) (h.flatMap fun q hq => hinstr ⟨⟨he, hb⟩, hq⟩))
    (hterminator ⟨he, hb⟩)

end Piecewise

end Setup

end PointsTo
