import Mathlib
import PointsTo.Proofs.ConstantPools
import PointsTo.Proofs.PointerValues
import PointsTo.Proofs.Subjects

/-!
# Guards at uses

Whether a row behind a guard is meant is decided where a value is used, by the type that the
scope or the pool knows of the operand. Whether a value is a pointer is said where the value is
defined. The two come to the same for every kind of operand. Symbols are the case that takes
a reason: their addresses have the type that the pool gives them, while the symbols themselves
are pointers; these are the same type because the pool was filled with the same table of types
at hand.
-/

namespace PointsTo

/-! ## Pools and their types -/

namespace ConstPool

variable {p : ConstPool} {t : TypeTable}

/-- The pool was filled with the table at hand, and the table has only grown since. -/
inductive InternedIn : ConstPool → TypeTable → Prop
  | empty (t : TypeTable) : InternedIn .empty t
  | type {p : ConstPool} {t : TypeTable} (ty : Ty) : InternedIn p t → InternedIn p (t.intern ty).2
  | constant {p : ConstPool} {t : TypeTable} (c : Const) :
      InternedIn p t → InternedIn (p.intern t c).pool (p.intern t c).types

theorem extends_typeOf (t : TypeTable) (c : Const) : (typeOf t c).2.Extends t := by
  unfold typeOf
  split
  · exact .refl t
  · exact t.extends_intern _

/-- A constant whose type is implied has this type in the table. -/
theorem InternedIn.find?_of_implied (h : p.InternedIn t) {c : ConstId} {e : TypedConst} {ty : Ty}
    (he : p.get? c = some e) (hty : e.value.typeSource = .implied ty) :
    t.find? ty = some e.ty := by
  induction h generalizing c with
  | empty t => simp [get?, ConstPool.empty] at he
  | type ty' _ ih => exact (TypeTable.extends_intern _ ty').find? (ih he)
  | @constant p t d _ ih =>
    rcases p.intern_cases t d with ⟨id, -, heq⟩ | ⟨hchildren, -, -, heq⟩ | ⟨missing, -, -, heq⟩
    · rw [heq] at he ⊢
      exact ih he
    · rw [heq] at he ⊢
      have hget : (p.entries ++ [⟨d, (typeOf t d).1⟩])[c.index]? = some e := he
      rcases List.mem_append.1 (List.mem_of_getElem? hget) with hmem | hmem
      · obtain ⟨n, hn⟩ := List.mem_iff_getElem?.1 hmem
        exact (extends_typeOf t d).find? (ih (c := ⟨n⟩) hn)
      · obtain rfl := List.mem_singleton.1 hmem
        dsimp only at hty ⊢
        simp only [typeOf, hty]
        exact t.find?_intern ty
    · rw [heq] at he ⊢
      exact ih he

end ConstPool

/-! ## The types of parts -/

namespace Setup

variable {s : Setup} {ty : StaticType}

theorem typed_argument_iff {f : FunctionId} {function : Function}
    (hf : s.unit.function? f = some function) {k : Nat} :
    s.Typed (.argument f k) ty ↔ (function.params[k]?).map (fun p => .named p.2) = some ty := by
  rw [Option.map_eq_some_iff]
  constructor
  · intro h
    cases h with
    | @argument f function' k p hf' hp =>
      rw [Module.mem_functionList_iff, hf] at hf'
      cases hf'
      exact ⟨p, hp, rfl⟩
  · rintro ⟨p, hp, rfl⟩
    exact .argument (Module.mem_functionList_iff.2 hf) hp

theorem typed_instruction_iff (hl : s.unit.Labelled) {place : Place} :
    s.Typed (.instruction place) ty ↔
      (s.unit.instruction? place).bind Instr.resultType? = some ty := by
  rw [Option.bind_eq_some_iff]
  constructor
  · intro h
    cases h with
    | @instruction f function b i k _ hi hty => exact ⟨i, hi.instruction? hl, hty⟩
  · rintro ⟨i, hi, hty⟩
    obtain ⟨f, l, k⟩ := place
    obtain ⟨function, b, hinstr, hlabel⟩ := (Module.instruction?_eq_some_iff hl).1 hi
    obtain rfl : b.label = l := hlabel
    exact .instruction hinstr hty

theorem typed_global_iff {g : GlobalId} (h : s.unit.Has (.global g)) :
    s.Typed (.global g) ty ↔ ty = .pointer := by
  constructor
  · rintro ⟨⟩
    rfl
  · rintro rfl
    cases h with
    | global hg =>
      obtain ⟨global, hg⟩ := Option.isSome_iff_exists.1 hg
      exact .global (Module.mem_globalList_iff.2 hg)

theorem typed_function_iff {f : FunctionId} (h : s.unit.Has (.function f)) :
    s.Typed (.function f) ty ↔ ty = .pointer := by
  constructor
  · rintro ⟨⟩
    rfl
  · rintro rfl
    cases h with
    | function hf =>
      obtain ⟨function, hf⟩ := Option.isSome_iff_exists.1 hf
      exact .function (Module.mem_functionList_iff.2 hf)

theorem typed_constant_iff {c : ConstId} {pooled : TypedConst} (h : s.unit.Has (.constant c))
    (hpooled : s.unit.constants.get? c = some pooled) :
    s.Typed (.constant c) ty ↔ ty = .named pooled.ty := by
  constructor
  · intro htyped
    cases htyped with
    | constant _ hpooled' =>
      rw [hpooled] at hpooled'
      cases hpooled'
      rfl
  · rintro rfl
    exact .constant (Module.leave_mem_marksOf_references_iff.2 h) hpooled

/-- A definition has the type that its scope knows. -/
theorem typed_ofDefinition_iff (hl : s.unit.Labelled) {f : FunctionId} {function : Function}
    (hf : s.unit.function? f = some function) (d : Definition) :
    s.Typed (.ofDefinition f d) ty ↔ Scope.definitionType? function d = some ty := by
  cases d with
  | param k => exact typed_argument_iff hf
  | instr label k =>
    have hinstr : s.unit.instruction? ⟨f, label, k⟩ =
        (function.body.get? label).bind fun b => b.instrs[k]? := by
      simp [Module.instruction?, Module.block?, hf]
    rw [Value.ofDefinition, typed_instruction_iff hl, hinstr]
    rfl

end Setup

/-! ## Guards -/

/-- Whether the operand holds a pointer, by what the scope knows and the answers of a state. -/
def Scope.gate (scope : Scope) (m : Module) (e : Emission) (o : Operand) : Bool :=
  ((scope.typeOf? m o).map e.holds).getD false

theorem Scope.gate_eq_true_iff {scope : Scope} {m : Module} {e : Emission} {o : Operand} :
    scope.gate m e o = true ↔ ∃ ty, scope.typeOf? m o = some ty ∧ e.holds ty = true := by
  unfold gate
  cases scope.typeOf? m o <;> simp

theorem Step.said_ifPointer {e : Emission} {name : String} {ty : StaticType} {rows : List Row}
    (h : ∀ r ∈ rows, r.relation.name = name) :
    (Step.ifPointer ty rows).said e name = if e.holds ty then rows else [] := by
  rw [said, rowsIn]
  split
  · exact List.filter_eq_self.2 fun r hr => decide_eq_true (h r hr)
  · rfl

theorem Scope.said_ifPointer {scope : Scope} {m : Module} {e : Emission} {name : String}
    {o : Operand} {rows : List Row} (h : ∀ r ∈ rows, r.relation.name = name) :
    (scope.ifPointer m o rows).flatMap (Step.said e name) =
      if scope.gate m e o then rows else [] := by
  unfold Scope.ifPointer gate
  cases scope.typeOf? m o with
  | none => rfl
  | some ty => simp [Step.said_ifPointer h]

namespace Extractor

variable {x : Extractor} {types : TypeTable} {f : FunctionId} {function : Function} {b : Block}
  {o : Operand} {v : Value} {id : ObjectId}

/-- Whether a description says that the object holds a pointer. -/
def isPointer (x : Extractor) (types : TypeTable) (id : ObjectId) : Bool :=
  decide ([.object id] ∈ (x.generate types (.new .standard)).store.relation "pointer_value")

/-- The operand denotes one value, and the id is that of the value. -/
def OperandId (x : Extractor) (f : FunctionId) (o : Operand) (id : ObjectId) : Prop :=
  ∃ v, x.setup.unit.Denotes f o v ∧ (∀ w, x.setup.unit.Denotes f o w → w = v) ∧
    x.objects.idOf v = .ok id

theorem OperandId.unique {id' : ObjectId} (h : x.OperandId f o id) (h' : x.OperandId f o id') :
    id' = id := by
  obtain ⟨v, -, hunique, hv⟩ := h
  obtain ⟨w, hw, -, hid⟩ := h'
  rw [hunique w hw, hv] at hid
  exact (Except.ok.inj hid).symm

namespace Finished

/-- A value is a pointer if its type holds one. -/
theorem isPointer_iff (hx : x.Finished types) (hid : x.objects.idOf v = .ok id) :
    x.isPointer types id = true ↔
      ∃ ty, x.setup.Typed v ty ∧ (x.run types (.new .standard)).state.holds ty = true := by
  rw [isPointer, decide_eq_true_eq, mem_pointerValue_iff hx.bundled hx.outcome]
  constructor
  · rintro ⟨w, ty, htyped, hholds, hw⟩
    obtain rfl := hx.registered.blocks.eq_of_idOf hw hid
    exact ⟨ty, htyped, hholds⟩
  · rintro ⟨ty, htyped, hholds⟩
    exact ⟨v, ty, htyped, hholds, hid⟩

theorem isPointer_instruction (hx : x.Finished types) {place : Place} {i : Instr}
    (hi : x.setup.unit.instruction? place = some i)
    (hid : x.objects.idOf (.instruction place) = .ok id) :
    x.isPointer types id =
      ((i.resultType?.map (x.run types (.new .standard)).state.holds).getD false) := by
  rw [Bool.eq_iff_iff, hx.isPointer_iff hid]
  simp only [Setup.typed_instruction_iff hx.labelled, hi, Option.bind_some]
  cases i.resultType? <;> simp

end Finished

/-- A new extractor has described its module. Each block is kept under its own label, the
constants were interned in the table of types, and the models are those that are always there. -/
structure Described (x : Extractor) (types : TypeTable) : Prop where
  created : (Extractor.new x.setup).1 = .ok x
  labelled : x.setup.unit.Labelled
  bundled : x.setup.models.Bundled
  interned : x.setup.unit.constants.InternedIn types
  outcome : (x.generate types (.new .standard)).outcome = .ok ()

theorem holds_pointer {ty : TypeId} (h : types.find? .ptr = some ty) :
    (x.run types (.new .standard)).state.holds .pointer =
      (x.run types (.new .standard)).state.holds (.named ty) := by
  have hid : (x.run types (.new .standard)).state.types.idOf? .pointer = some ty :=
    (x.extends_state types (.new .standard)).find? h
  rw [Emission.holds, Emission.answer?, hid]
  rfl

namespace Described

theorem finished (hx : x.Described types) : x.Finished types :=
  ⟨⟨hx.created, hx.bundled, hx.outcome⟩, hx.labelled⟩

theorem registered (hx : x.Described types) : x.Registered := hx.finished.registered

/-- The guard at a register asks for the type of what defines the register. -/
theorem gate_register (hx : x.Described types) (hblock : x.setup.unit.HasBlock f function b)
    {r : Register} (hr : .reg r ∈ Function.blockOperands b) (hid : x.OperandId f (.reg r) id) :
    (Scope.new f function).gate x.setup.unit (x.run types (.new .standard)).state (.reg r) =
      x.isPointer types id := by
  obtain ⟨d, hd, hunique, hobject⟩ := hx.registered.checked.exists_definition hblock hr
  have htype : (Scope.new f function).typeOf? x.setup.unit (.reg r) =
      Scope.definitionType? function d := by
    rw [Scope.object, Scope.lookup_new] at hobject
    rw [Scope.typeOf?, Scope.lookup_new]
    cases hget : function.definitions.get? r with
    | none => simp [hget] at hobject
    | some d' =>
      obtain rfl := hunique d' (Table.mem_of_get?_ofList hget)
      rfl
  have hfunction := Module.mem_functionList_iff.1 hblock.mem_functionList
  obtain ⟨v, hv, -, hid⟩ := hid
  obtain ⟨d', hd', rfl⟩ := (Module.denotes_register_iff hx.labelled hblock.mem_functionList).1 hv
  obtain rfl := hunique d' hd'
  rw [Bool.eq_iff_iff, Scope.gate_eq_true_iff, hx.finished.isPointer_iff hid, htype]
  simp only [Setup.typed_ofDefinition_iff hx.labelled hfunction]

/-- The guard at a constant asks for the type that the pool has for it. -/
theorem gate_constant (hx : x.Described types) (hblock : x.setup.unit.HasBlock f function b)
    {c : ConstId} (hc : .imm c ∈ Function.blockOperands b) (hid : x.OperandId f (.imm c) id) :
    (Scope.new f function).gate x.setup.unit (x.run types (.new .standard)).state (.imm c) =
      x.isPointer types id := by
  have hconstant := hx.registered.checked.reads c (Module.reads_of_mem_blockOperands hblock hc)
  obtain ⟨pooled, hpooled⟩ := Option.isSome_iff_exists.1 hconstant
  obtain ⟨v, hv, -, hid⟩ := hid
  have hhas := (hx.registered.contains_iff_has hx.labelled).1
    (ObjectTable.contains_iff_idOf.2 ⟨id, hid⟩)
  have haddress {value : Const} (hvalue : (x.setup.unit.constants.get? c).map TypedConst.value =
      some value) (hsource : value.typeSource = .implied .ptr) :
      types.find? .ptr = some pooled.ty := by
    rw [hpooled] at hvalue
    cases hvalue
    exact hx.interned.find?_of_implied hpooled hsource
  -- A symbol is a pointer by itself, and its address by the type that the pool has for it.
  have htype : ∃ ty, (∀ ty', x.setup.Typed v ty' ↔ ty' = ty) ∧
      (x.run types (.new .standard)).state.holds ty =
        (x.run types (.new .standard)).state.holds (.named pooled.ty) := by
    cases hv with
    | constant => exact ⟨_, fun _ => Setup.typed_constant_iff hhas hpooled, rfl⟩
    | global hg => exact ⟨_, fun _ => Setup.typed_global_iff hhas, holds_pointer (haddress hg rfl)⟩
    | function hg =>
      exact ⟨_, fun _ => Setup.typed_function_iff hhas, holds_pointer (haddress hg rfl)⟩
  obtain ⟨ty, htyped, hholds⟩ := htype
  rw [Bool.eq_iff_iff, hx.finished.isPointer_iff hid]
  simp [Scope.gate, Scope.typeOf?, hpooled, htyped, hholds]

/-- A guard is open exactly if the value that the operand denotes is a pointer. -/
theorem gate_eq (hx : x.Described types) (hblock : x.setup.unit.HasBlock f function b)
    (ho : o ∈ Function.blockOperands b) (hid : x.OperandId f o id) :
    (Scope.new f function).gate x.setup.unit (x.run types (.new .standard)).state o =
      x.isPointer types id := by
  cases o with
  | reg r => exact hx.gate_register hblock ho hid
  | imm c => exact hx.gate_constant hblock ho hid
  | label l =>
    obtain ⟨v, hv, -, hid⟩ := hid
    obtain rfl := Module.eq_block_of_denotes hv
    have hnot : ¬ x.isPointer types id = true := by
      rw [hx.finished.isPointer_iff hid]
      rintro ⟨ty, ⟨⟩, -⟩
    rw [Bool.not_eq_true] at hnot
    rw [hnot]
    rfl

/-! ### Operands have ids -/

theorem operandId_of_resolve (hx : x.Described types)
    (hblock : x.setup.unit.HasBlock f function b) (ho : o ∈ Function.blockOperands b)
    (hid : ((Scope.new f function).object x.setup.unit o).resolve x.objects = .ok id) :
    x.OperandId f o id :=
  hx.registered.exists_denotes hx.labelled (casesExist_of_outcome hx.outcome) hblock (.inl ho) hid

/-- An operand of a block is resolved in a description, so it has an id. -/
theorem exists_operandId (hx : x.Described types) (hblock : x.setup.unit.HasBlock f function b)
    (ho : o ∈ Function.blockOperands b) : ∃ id, x.OperandId f o id := by
  obtain ⟨user, k, hstep⟩ := Setup.operand_mem_plan hblock ho x.matched
  obtain ⟨new, hnew⟩ := exists_appends_of_mem hx.outcome hstep
  obtain ⟨id, hid⟩ := resolve_of_row hnew
    (o := (Scope.new f function).object x.setup.unit o) (by simp)
  exact ⟨id, hx.operandId_of_resolve hblock ho hid⟩

end Described

end Extractor

end PointsTo
