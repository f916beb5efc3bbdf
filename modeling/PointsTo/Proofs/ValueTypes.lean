import Mathlib
import PointsTo.Proofs.Listing
import PointsTo.Proofs.OperandGuards
import PointsTo.Proofs.Sites
import PointsTo.Proofs.TypingRuns

/-!
# Types of values

A plan gives no value a type twice: it comes to each part of a module once, and leaves each
constant once. So a description has at most one type for an object, which is that of the value
whose object it is, and it says at most once that the object is a pointer.
-/

namespace PointsTo

/-! ## Typings of a plan -/

theorem Interleaves.perm {α : Type} {l r t : List α} (h : Interleaves l r t) : t.Perm (l ++ r) := by
  induction h with
  | nil => exact .nil
  | left _ ih => exact ih.cons _
  | right _ ih => exact (ih.cons _).trans List.perm_middle.symm

theorem Step.mem_typings {st : Step} {q : Typing} : q ∈ st.typings ↔ st = .typed q.value q.ty := by
  cases st with
  | typed v ty =>
    simp only [typings, List.mem_singleton, Step.typed.injEq]
    constructor
    · rintro rfl
      exact ⟨rfl, rfl⟩
    · rintro ⟨rfl, rfl⟩
      rfl
  | _ => simp [typings]

namespace Setup

variable {s : Setup} {matched : MatchedCalls}

/-- The values that steps give types. -/
def typedValues (steps : List Step) : List Value := (steps.flatMap Step.typings).map Typing.value

/-- The values that steps give types are among those drawn from the steps. -/
theorem piecewise_typedValues :
    Piecewise fun steps drawn => (typedValues steps).Sublist drawn where
  nil := .refl _
  append h h' := by
    rw [typedValues, List.flatMap_append, List.map_append]
    exact h.append h'

theorem typedValues_eq_nil {steps : List Step} (h : ∀ v ty, .typed v ty ∉ steps) :
    typedValues steps = [] := by
  rw [typedValues, List.map_eq_nil_iff, List.flatMap_eq_nil_iff]
  intro st hst
  rw [List.eq_nil_iff_forall_not_mem]
  intro q hq
  exact h q.value q.ty (Step.mem_typings.1 hq ▸ hst)

theorem typedValues_sublist {steps : List Step} (h : ∀ v ty, .typed v ty ∉ steps)
    (values : List Value) : (typedValues steps).Sublist values := by
  rw [typedValues_eq_nil h]
  exact List.nil_sublist _

theorem typedValues_instrOutline (hb : s.models.Bundled) (scope : Scope) (place : Place)
    (block : Value) (i : Instr) :
    (typedValues (s.instrOutline matched scope place block i)).Sublist [.instruction place] := by
  have htyped : (typedValues (.row ⟨.instr, [Value.instruction place, i.opcode, block]⟩ ::
      i.resultType?.toList.map fun ty => .typed (.instruction place) ty)).Sublist
      [.instruction place] := by
    cases i.resultType? with
    | none => exact List.nil_sublist _
    | some ty => exact .refl _
  have hoperands : (typedValues (s.operandOutline scope (.instruction place) i.operands)).Sublist
      [] := by
    refine typedValues_sublist (fun v ty hmem => ?_) _
    obtain ⟨o, k, -, heq⟩ := mem_operandOutline_iff.1 hmem
    cases heq
  have heffects : (typedValues (s.effectSteps matched scope place i)).Sublist [] :=
    typedValues_sublist
      (fun v ty hmem => EffectStep.not_typed hb (mem_effectSteps_iff.1 hmem)) _
  exact piecewise_typedValues.append (piecewise_typedValues.append htyped hoperands) heffects

theorem typedValues_functionHead (f : FunctionId) (function : Function) :
    (typedValues (s.functionHead f function)).Sublist (valuePieces.function f function) := by
  have hself : (typedValues [.row ⟨.function, [Value.function f, function.name]⟩,
      .row ⟨.memoryObject, [Value.function f, "function"]⟩,
      .row ⟨.addressOf, [Value.function f, Value.function f]⟩,
      .typed (.function f) .pointer]).Sublist [.function f] := .refl _
  have hargument (k : Nat) (ty : TypeId) :
      (typedValues (s.argumentSteps f function k ty)).Sublist [.argument f k] := by
    unfold argumentSteps
    split <;> exact .refl _
  have hbody : (typedValues (if function.isDeclaration
      then [.row ⟨.functionDecl, [Value.function f]⟩]
      else .remark (.emitting function.name function.body.size) ::
        .row ⟨.functionEntry, [Value.function f, Value.block f .entry]⟩ ::
        ((Scope.new f function).names.filterMap fun q => q.2.2.map .intern))).Sublist [] := by
    refine typedValues_sublist (fun v ty => ?_) _
    split <;> simp
  have h := piecewise_typedValues.append (piecewise_typedValues.append hself
    (piecewise_typedValues.flatMap fun (e : (Register × TypeId) × Nat)
      (_ : e ∈ function.params.zipIdx) => hargument e.2 e.1.2)) hbody
  rwa [List.append_nil] at h

theorem typedValues_globalOutline (g : GlobalId) (global : Global) :
    (typedValues (s.globalOutline g global)).Sublist [.global g] := by
  unfold globalOutline
  cases global.initializer <;> exact .refl _

theorem typedValues_outline (hb : s.models.Bundled) :
    (typedValues (s.outline matched)).Sublist (valuePieces.all s.unit) := by
  refine piecewise_typedValues.outline valuePieces (typedValues_sublist ?preamble _)
    (fun g global _ => typedValues_globalOutline g global)
    (fun f function _ => typedValues_functionHead f function) (fun f label => List.nil_sublist _)
    (fun _ => typedValues_instrOutline hb _ _ _ _) fun _ => typedValues_sublist ?terminator _
  case preamble =>
    intro v ty hmem
    cases mem_preamble_iff.1 hmem
  case terminator =>
    intro v ty hmem
    cases mem_terminatorOutline_iff.1 hmem

theorem typedValues_leave (c : ConstId) :
    (typedValues (s.markSteps (.leave c))).Sublist [.constant c] := by
  simp only [markSteps]
  split
  next pooled _ =>
    have hrest : typedValues ((s.shapeRows c pooled.value).map .row ++ [.visited c]) = [] :=
      typedValues_eq_nil (by simp)
    rw [List.append_assoc, List.cons_append, List.cons_append, List.nil_append]
    change (_ :: typedValues _).Sublist _
    rw [hrest]
  next => exact List.nil_sublist _

theorem typedValues_marks (marks : List Mark) :
    (typedValues (marks.flatMap s.markSteps)).Sublist
      ((marks.filterMap Mark.left?).map Value.constant) := by
  have henter (c : ConstId) : typedValues (s.markSteps (.enter c)) = [] := by
    refine typedValues_eq_nil fun v ty hmem => ?_
    cases mem_markSteps_iff.1 hmem
  have hmarks : typedValues (marks.flatMap s.markSteps) =
      marks.flatMap fun mark => typedValues (s.markSteps mark) := by
    simp [typedValues, List.flatMap_assoc, List.map_flatMap]
  rw [hmarks, Mark.flatMap_left? henter, List.map_eq_flatMap]
  exact .flatMap_right _ fun c _ => typedValues_leave c

/-- No value gets a type twice. -/
theorem nodup_typedValues (hl : s.unit.Labelled) (hb : s.models.Bundled) :
    (typedValues (s.plan matched)).Nodup := by
  have hperm : (typedValues (s.plan matched)).Perm
      (typedValues (s.outline matched) ++
        typedValues ((s.unit.marksOf s.unit.references).flatMap s.markSteps)) := by
    rw [typedValues, typedValues, typedValues, ← List.map_append, ← List.flatMap_append]
    exact ((s.plan_interleaves matched).perm.flatMap_right _).map _
  rw [hperm.nodup_iff, List.nodup_append]
  refine ⟨(nodup_all_valuePieces hl).sublist (typedValues_outline hb),
    List.Nodup.sublist (typedValues_marks _) ?_, ?_⟩
  · exact (Module.adds_marksOf _).nodup.map fun _ _ h => by simpa using h
  · -- No part is a constant.
    rintro v hv w hw rfl
    have hpart := s.perm_all_valuePieces.mem_iff.1 ((typedValues_outline hb).subset hv)
    obtain ⟨c, -, rfl⟩ := List.mem_map.1 ((typedValues_marks _).subset hw)
    cases isConstant_of_mem_parts hpart

theorem mem_typings_plan (hb : s.models.Bundled) {q : Typing} :
    q ∈ (s.plan matched).flatMap Step.typings ↔ s.Typed q.value q.ty := by
  have htyped : .typed q.value q.ty ∈ s.plan matched ↔ s.Typed q.value q.ty :=
    typed_mem_plan_iff hb
  rw [← htyped, List.mem_flatMap]
  simp only [Step.mem_typings]
  constructor
  · rintro ⟨st, hst, rfl⟩
    exact hst
  · exact fun h => ⟨_, h, rfl⟩

/-- The pointers of a plan are the values with a type that holds one. -/
theorem said_pointerValue (hb : s.models.Bundled) (e : Emission) :
    (s.plan matched).flatMap (Step.said e "pointer_value") =
      (((s.plan matched).flatMap Step.typings).filter fun q => e.holds q.ty).map fun q =>
        ⟨.pointerValue, [q.value]⟩ := by
  rw [List.filter_flatMap, List.map_flatMap]
  refine List.flatMap_congr fun st hst => ?_
  by_cases htyped : ∃ v ty, st = .typed v ty
  · obtain ⟨v, ty, rfl⟩ := htyped
    cases hholds : e.holds ty <;>
      simp [Step.said, Step.rowsIn, Step.typings, hholds, Relation.valueType, Relation.pointerValue]
  · have havoids : st.Avoids "pointer_value" := fun r hr hname =>
      htyped ((regular_of_bundled hb hst).exists_typed hr (hname ▸ by decide))
    have hnone : st.typings = [] := by
      rw [List.eq_nil_iff_forall_not_mem]
      exact fun q hq => htyped ⟨_, _, Step.mem_typings.1 hq⟩
    rw [havoids.said_eq_nil, hnone]
    rfl

end Setup

/-! ## The type of a value -/

namespace Module

/-- The type of a value of the module. Symbols are pointers. -/
def typeOf? (m : Module) : Value → Option StaticType
  | .global _ => some .pointer
  | .function _ => some .pointer
  | .argument f k =>
    ((m.function? f).bind fun function => function.params[k]?).map fun p => .named p.2
  | .instruction place => (m.instruction? place).bind Instr.resultType?
  | .constant c => (m.constants.get? c).map fun pooled => .named pooled.ty
  | .block .. => none
  | .terminator .. => none

/-- The value is one that has a type: a symbol, an argument, a constant, or an instruction with a
result. -/
def HasType (m : Module) : Value → Prop
  | .instruction place => ∃ i ty, m.instruction? place = some i ∧ i.resultType? = some ty
  | .block .. => False
  | .terminator .. => False
  | _ => True

end Module

theorem Setup.typed_iff_typeOf? {s : Setup} (hl : s.unit.Labelled) {v : Value}
    (h : s.unit.Has v) {ty : StaticType} : s.Typed v ty ↔ s.unit.typeOf? v = some ty := by
  cases v with
  | global g => rw [typed_global_iff h, Module.typeOf?, Option.some.injEq, eq_comm]
  | function f => rw [typed_function_iff h, Module.typeOf?, Option.some.injEq, eq_comm]
  | argument f k =>
    cases h with
    | argument hf _ => rw [typed_argument_iff hf, Module.typeOf?, hf, Option.bind_some]
  | instruction place => exact typed_instruction_iff hl
  | constant c =>
    cases hpooled : s.unit.constants.get? c with
    | none =>
      rw [Module.typeOf?, hpooled]
      refine iff_of_false ?_ nofun
      intro htyped
      cases htyped with
      | constant _ hget => cases hpooled.symm.trans hget
    | some pooled =>
      rw [typed_constant_iff h hpooled, Module.typeOf?, hpooled, Option.map_some,
        Option.some.injEq, eq_comm]
  | block f l => exact iff_of_false nofun nofun
  | terminator f l => exact iff_of_false nofun nofun

namespace Extractor

variable {x : Extractor} {types : TypeTable} {name : String} {v : Value} {id : ObjectId}

/-- Facts that begin with the ids of values, among them those about one value. -/
theorem factsAbout_eq_map (hblocks : x.objects.Blocks) {l : List Typing} {rest : Typing → List Term}
    (h : List.Forall₂
      (fun q fact => ∃ id, x.objects.idOf q.value = .ok id ∧ fact = .object id :: rest q) l
      ((x.generate types (.new .standard)).store.relation name))
    (hid : x.objects.idOf v = .ok id) :
    x.factsAbout types name id =
      (l.filter (·.value = v)).map fun q => .object id :: rest q := by
  rw [factsAbout]
  generalize (x.generate types (.new .standard)).store.relation name = facts at h ⊢
  induction h with
  | nil => rfl
  | @cons q fact l facts hq _ ih =>
    obtain ⟨id', hid', rfl⟩ := hq
    rw [List.filter_cons, List.filter_cons, ih]
    by_cases hv : q.value = v
    · obtain rfl : id' = id := by
        rw [hv, hid] at hid'
        exact (Except.ok.inj hid').symm
      simp [hv]
    · have hne : id' ≠ id := by
        rintro rfl
        exact hv (hblocks.eq_of_idOf hid' hid)
      simp [hv, hne]

namespace Finished

theorem has_of_idOf (hx : x.Finished types) (hid : x.objects.idOf v = .ok id) :
    x.setup.unit.Has v :=
  (hx.registered.contains_iff_has hx.labelled).1 (ObjectTable.contains_iff_idOf.2 ⟨id, hid⟩)

/-- A fact is about a value, in a relation whose rows begin with one. -/
theorem exists_idOf_of_mem (hx : x.Finished types)
    (hname : name ∉ Relation.withoutSubject.map Relation.name) {fact : Fact}
    (hfact : fact ∈ (x.generate types (.new .standard)).store.relation name) :
    ∃ v id, x.objects.idOf v = .ok id ∧ fact.head? = some (.object id) := by
  obtain ⟨r, hr, hbecomes⟩ :=
    exists_left_of_mem_right (forall₂_said hx.bundled hx.outcome name) hfact
  obtain ⟨st, hst, hr⟩ := List.mem_flatMap.1 hr
  obtain ⟨v, hv⟩ := Setup.exists_subject_of_mem_said hx.bundled hname hst hr
  obtain ⟨id, hid, hhead⟩ := hbecomes.head?_of_subject? hv
  exact ⟨v, id, hid, hhead⟩

/-- A plan gives a value its type, once. -/
theorem filter_typings (hx : x.Finished types) (hid : x.objects.idOf v = .ok id) :
    ((x.setup.plan x.matched).flatMap Step.typings).filter (·.value = v) =
      (x.setup.unit.typeOf? v).toList.map (Typing.mk v) := by
  have htype {ty : StaticType} : ⟨v, ty⟩ ∈ (x.setup.plan x.matched).flatMap Step.typings ↔
      x.setup.unit.typeOf? v = some ty :=
    (Setup.mem_typings_plan hx.bundled).trans
      (Setup.typed_iff_typeOf? hx.labelled (hx.has_of_idOf hid))
  cases hty : x.setup.unit.typeOf? v with
  | none =>
    rw [Option.toList_none, List.map_nil, List.filter_eq_nil_iff]
    rintro ⟨w, ty⟩ hq heq
    obtain rfl : w = v := of_decide_eq_true heq
    rw [htype, hty] at hq
    cases hq
  | some ty =>
    have hnodup : (((x.setup.plan x.matched).flatMap Step.typings).map Typing.value).Nodup :=
      Setup.nodup_typedValues hx.labelled hx.bundled
    exact filter_eq_singleton hnodup (htype.2 hty)

/-- A value is said once to be a pointer if its type holds one, by the answers that were
given. -/
theorem factsAbout_pointerValue (hx : x.Finished types) (hid : x.objects.idOf v = .ok id) :
    x.factsAbout types "pointer_value" id =
      ((x.setup.unit.typeOf? v).toList.filter (x.run types (.new .standard)).state.holds).map
        fun _ => [.object id] := by
  have hrows := forall₂_said hx.bundled hx.outcome "pointer_value"
  rw [Setup.said_pointerValue hx.bundled, List.forall₂_map_left_iff] at hrows
  have hfacts : List.Forall₂
      (fun q fact => ∃ id, x.objects.idOf q.value = .ok id ∧ fact = [.object id])
      (((x.setup.plan x.matched).flatMap Step.typings).filter fun q =>
        (x.run types (.new .standard)).state.holds q.ty)
      ((x.generate types (.new .standard)).store.relation "pointer_value") := by
    refine hrows.imp fun q fact h => ?_
    obtain ⟨id, hid, hfact⟩ := h.eq_object
    exact ⟨id, ObjectRef.resolve_value_eq_ok_iff.1 hid, hfact⟩
  rw [factsAbout_eq_map hx.registered.blocks hfacts hid, List.filter_comm, hx.filter_typings hid,
    List.filter_map, List.map_map]
  rfl

/-- A value that was registered has a type if it is of a kind that has one. -/
theorem isSome_typeOf?_iff (hx : x.Finished types) (hid : x.objects.idOf v = .ok id) :
    (x.setup.unit.typeOf? v).isSome = true ↔ x.setup.unit.HasType v := by
  have hhas := hx.has_of_idOf hid
  cases v with
  | argument f k =>
    cases hhas with
    | argument hf hk => simp [Module.typeOf?, Module.HasType, hf, hk]
  | instruction place =>
    cases hi : x.setup.unit.instruction? place <;>
      simp [Module.typeOf?, Module.HasType, hi, Option.isSome_iff_exists]
  | constant c =>
    have hrun : (x.run types (.new .standard)).outcome = .ok () := hx.outcome
    have hpooled : (x.setup.unit.constants.get? c).isSome = true :=
      hasConstant_of_mark hx.registered.checked hrun
        (Module.leave_mem_marksOf_references_iff.2 hhas)
    simp [Module.typeOf?, Module.HasType, hpooled]
  | _ => simp [Module.typeOf?, Module.HasType]

end Finished

/-! ## Facts about types -/

/-- Types are given to values once, and as the table has them. -/
structure TypedOnce (x : Extractor) (types : TypeTable) : Prop where
  /-- A value that was registered has one fact with the text of its type, if it has a type. -/
  typed : ∀ v id, x.objects.idOf v = .ok id →
    x.factsAbout types "value_type" id =
      (x.setup.unit.typeOf? v).toList.map fun ty => [.object id, .str (types.textOf ty)]
  /-- Symbols, arguments, constants and results have types. -/
  exactly : ∀ v id, x.objects.idOf v = .ok id →
    (x.factsAbout types "value_type" id ≠ [] ↔ x.setup.unit.HasType v)
  /-- A value is said once to be a pointer if its type holds one. -/
  pointer : ∀ v id ty, x.objects.idOf v = .ok id → x.setup.unit.typeOf? v = some ty →
    types.HoldsOf ty → x.factsAbout types "pointer_value" id = [[.object id]]
  /-- Otherwise it is not said. -/
  other : ∀ v id, x.objects.idOf v = .ok id →
    (∀ ty, x.setup.unit.typeOf? v = some ty → ¬ types.HoldsOf ty) →
    x.factsAbout types "pointer_value" id = []
  /-- Only values have types and are pointers. -/
  only : ∀ name ∈ ["value_type", "pointer_value"],
    ∀ fact ∈ (x.generate types (.new .standard)).store.relation name, ∃ v id,
      x.objects.idOf v = .ok id ∧ fact.head? = some (.object id)
  /-- No object has two types. -/
  unique : ∀ id, (x.factsAbout types "value_type" id).length ≤ 1

/-- In a description that succeeds, over a table that knows the types of the module, each value
has its type once and is said once to be a pointer if the type holds one. -/
theorem typedOnce_of_generate {s : Setup} (hl : s.unit.Labelled) (hb : s.models.Bundled)
    (hknown : ∀ id ∈ s.unit.typeIds, types.Known id) (hnew : (Extractor.new s).1 = .ok x)
    (hok : (x.generate types (.new .standard)).outcome = .ok ()) : x.TypedOnce types := by
  have hmemo : x.memo.Settled types := by
    obtain ⟨-, r, -, rfl⟩ := exists_settle_of_new hnew
    exact PointerMemo.settled_empty types
  obtain ⟨rfl, hregistered⟩ := registered_of_new hl hnew
  have hx : x.Finished types := ⟨⟨hnew, hb, hok⟩, hl⟩
  obtain ⟨hholds, htypes⟩ := forall₂_typings hb hmemo hknown hok
  have htyped {v : Value} {id : ObjectId} (hid : x.objects.idOf v = .ok id) :
      x.factsAbout types "value_type" id =
        (x.setup.unit.typeOf? v).toList.map fun ty => [.object id, .str (types.textOf ty)] := by
    rw [factsAbout_eq_map hregistered.blocks htypes hid, hx.filter_typings hid, List.map_map]
    rfl
  have hiff {v : Value} {id : ObjectId} {ty : StaticType} (hid : x.objects.idOf v = .ok id)
      (hty : x.setup.unit.typeOf? v = some ty) :
      (x.run types (.new .standard)).state.holds ty = true ↔ types.HoldsOf ty := by
    refine hholds ⟨v, ty⟩ ((Setup.mem_typings_plan hb).2 ?_)
    exact (Setup.typed_iff_typeOf? hl (hx.has_of_idOf hid)).2 hty
  have hsubject : ∀ name ∈ ["value_type", "pointer_value"],
      name ∉ Relation.withoutSubject.map Relation.name := by decide
  constructor
  case typed => exact fun v id hid => htyped hid
  case exactly =>
    intro v id hid
    rw [htyped hid, ← hx.isSome_typeOf?_iff hid]
    cases x.setup.unit.typeOf? v <;> simp
  case pointer =>
    intro v id ty hid hty hpointer
    rw [hx.factsAbout_pointerValue hid, hty]
    simp [(hiff hid hty).2 hpointer]
  case other =>
    intro v id hid hnone
    rw [hx.factsAbout_pointerValue hid]
    cases hty : x.setup.unit.typeOf? v with
    | none => rfl
    | some ty =>
      have hholds : (x.run types (.new .standard)).state.holds ty = false := by
        rw [← Bool.not_eq_true, hiff hid hty]
        exact hnone ty hty
      simp [hholds]
  case only => exact fun name hname fact => hx.exists_idOf_of_mem (hsubject name hname)
  case unique =>
    intro id
    rcases hfacts : x.factsAbout types "value_type" id with _ | ⟨fact, rest⟩
    · exact Nat.zero_le 1
    · have hmem : fact ∈ x.factsAbout types "value_type" id := by simp [hfacts]
      obtain ⟨hmem, hhead⟩ := List.mem_filter.1 hmem
      obtain ⟨v, id', hid, hhead'⟩ := hx.exists_idOf_of_mem (by decide) hmem
      rw [hhead', decide_eq_true_eq, Option.some.injEq, Term.object.injEq] at hhead
      subst hhead
      rw [← hfacts, htyped hid]
      cases x.setup.unit.typeOf? v <;> simp

/-- A stack slot is loaded from, and constants are compared. -/
def comparing : Setup where
  unit :=
    { name := "m"
      globals := [⟨"g", ⟨2⟩, some ⟨1⟩, .external, .default, false⟩]
      functions :=
        [.define "f" [(⟨0⟩, ⟨2⟩)] none
          [⟨.entry,
            [.alloca ⟨1⟩ ⟨3⟩ (.imm ⟨0⟩) none, .load ⟨2⟩ ⟨3⟩ (.reg ⟨1⟩) ⟨none, none, false⟩,
              .icmp ⟨3⟩ ⟨1⟩ .eq (.imm ⟨0⟩) (.imm ⟨0⟩)],
            .ret none⟩]]
      constants := Module.fewConstants }
  config := .default
  models := ⟨.firstMatch, []⟩

/-- A table in which an array comes before its elements, and which has no bit. -/
def arrayFirst : TypeTable := .ofList [.ptr, .int .i64, .array ⟨3⟩ 2, .vector .ptr 4]

theorem known_arrayFirst : ∀ id ∈ comparing.unit.typeIds, arrayFirst.Known id := by
  have hflat : ∀ id ∈ [⟨0⟩, ⟨1⟩, ⟨3⟩], arrayFirst.Known id := by
    have hget : ∀ id ∈ ([⟨0⟩, ⟨1⟩, ⟨3⟩] : List TypeId),
        ∃ ty, arrayFirst.get? id = some ty ∧ ty.children = [] := by
      simp only [List.forall_mem_cons]
      exact ⟨⟨_, rfl, rfl⟩, ⟨_, rfl, rfl⟩, ⟨_, rfl, rfl⟩, by simp⟩
    intro id hid
    obtain ⟨ty, hty, hchildren⟩ := hget id hid
    exact .intro hty (by simp [hchildren])
  have harray : arrayFirst.Known ⟨2⟩ :=
    .intro rfl (List.forall_mem_singleton.2 (hflat ⟨3⟩ (by simp)))
  have hids : comparing.unit.typeIds ⊆ [⟨2⟩, ⟨0⟩, ⟨1⟩, ⟨3⟩] := by decide
  exact fun id hid => (List.forall_mem_cons.2 ⟨harray, hflat⟩) id (hids hid)

theorem comparing_typedOnce :
    comparing.unit.Labelled ∧ comparing.models.Bundled ∧
      (∀ id ∈ comparing.unit.typeIds, arrayFirst.Known id) ∧
      ∃ x, (Extractor.new comparing).1 = .ok x ∧
        (x.generate arrayFirst (.new .standard)).outcome = .ok () ∧
        (x.generate arrayFirst (.new .standard)).store.relation "value_type" =
          [[.object ⟨2⟩, .str "ptr"], [.object ⟨5⟩, .str "ptr"], [.object ⟨4⟩, .str "ptr"],
            [.object ⟨6⟩, .str "[2 x <4 x ptr>]"], [.object ⟨8⟩, .str "ptr"],
            [.object ⟨10⟩, .str "i64"], [.object ⟨11⟩, .str "<4 x ptr>"],
            [.object ⟨12⟩, .str "i1"]] ∧
        x.TypedOnce arrayFirst := by
  have hl : comparing.unit.Labelled := by
    unfold Module.Labelled Function.Labelled
    decide
  have hb : comparing.models.Bundled := by simp [CallModels.Bundled, comparing]
  have hnew : ∃ x, (Extractor.new comparing).1 = .ok x ∧
      (x.generate arrayFirst (.new .standard)).outcome = .ok () ∧
      (x.generate arrayFirst (.new .standard)).store.relation "value_type" =
        [[.object ⟨2⟩, .str "ptr"], [.object ⟨5⟩, .str "ptr"], [.object ⟨4⟩, .str "ptr"],
          [.object ⟨6⟩, .str "[2 x <4 x ptr>]"], [.object ⟨8⟩, .str "ptr"],
          [.object ⟨10⟩, .str "i64"], [.object ⟨11⟩, .str "<4 x ptr>"],
          [.object ⟨12⟩, .str "i1"]] := ⟨_, rfl, by decide +kernel⟩
  obtain ⟨x, hx, hok, hfacts⟩ := hnew
  exact ⟨hl, hb, known_arrayFirst, x, hx, hok, hfacts,
    typedOnce_of_generate hl hb known_arrayFirst hx hok⟩

end Extractor

end PointsTo
