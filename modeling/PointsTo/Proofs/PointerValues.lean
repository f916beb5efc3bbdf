import Mathlib
import PointsTo.Proofs.GuardedRows

/-!
# Values that are pointers

A description gives types to symbols, arguments, instructions with a result, and constants.
The pointers are the values whose type holds one, by the answers that were given.
-/

namespace PointsTo

namespace Setup

variable {s : Setup} {matched : MatchedCalls}

/-- The value has a type that a description mentions. -/
inductive Typed (s : Setup) : Value → StaticType → Prop
  | global {g : GlobalId} {global : Global} :
      (g, global) ∈ s.unit.globalList → s.Typed (.global g) .pointer
  | function {f : FunctionId} {function : Function} :
      (f, function) ∈ s.unit.functionList → s.Typed (.function f) .pointer
  | argument {f : FunctionId} {function : Function} {k : Nat} {p : Register × TypeId} :
      (f, function) ∈ s.unit.functionList → function.params[k]? = some p →
        s.Typed (.argument f k) (.named p.2)
  | instruction {f : FunctionId} {function : Function} {b : Block} {i : Instr} {k : Nat}
      {ty : StaticType} : s.unit.HasInstr f function b i k → i.resultType? = some ty →
        s.Typed (.instruction ⟨f, b.label, k⟩) ty
  | constant {c : ConstId} {pooled : TypedConst} :
      Mark.leave c ∈ s.unit.marksOf s.unit.references → s.unit.constants.get? c = some pooled →
        s.Typed (.constant c) (.named pooled.ty)

variable {v : Value} {ty : StaticType}

/-- The models that are always there do not give types. -/
theorem EffectStep.not_typed (hb : s.models.Bundled) {scope : Scope} {place : Place} {i : Instr} :
    ¬ s.EffectStep matched scope place i (.typed v ty) := by
  rintro ⟨⟩
  next call model hmodel hst =>
    obtain ⟨position, -, hget⟩ := Option.bind_eq_some_iff.1 hmodel
    have hrows := (hb.describes (List.mem_of_getElem? hget) hst).rows _ (.valueType v ty ⟨0⟩)
    exact absurd hrows.relation (by decide : Relation.valueType ∉ Relation.ofModels)

theorem typed_mem_plan_iff (hb : s.models.Bundled) :
    .typed v ty ∈ s.plan matched ↔ s.Typed v ty := by
  rw [mem_plan_iff]
  constructor
  · intro h
    cases h with
    | preamble h => cases h
    | global hg h =>
      cases h
      exact .global hg
    | function hf h =>
      cases h with
      | typed => exact .function hf
      | argumentTyped hp => exact .argument hf (List.mk_mem_zipIdx_iff_getElem?.1 hp)
    | terminator _ h => cases h
    | instr hi h =>
      cases h with
      | typed hty => exact .instruction hi hty
    | effect _ h => exact absurd h (EffectStep.not_typed hb)
    | mark hmark h =>
      cases h with
      | typed hc => exact .constant hmark hc
  · intro h
    cases h with
    | global hg => exact .global hg .typed
    | function hf => exact .function hf .typed
    | argument hf hp => exact .function hf (.argumentTyped (List.mk_mem_zipIdx_iff_getElem?.2 hp))
    | instruction hi hty => exact .instr hi (.typed hty)
    | constant hc hpooled => exact .mark hc (.typed hpooled)

end Setup

namespace Extractor

variable {x : Extractor} {types : TypeTable} {id : ObjectId}

/-- The pointers are the values of a type that holds one. -/
theorem mem_pointerValue_iff (hb : x.setup.models.Bundled)
    (hok : (x.generate types (.new .standard)).outcome = .ok ()) :
    [.object id] ∈ (x.generate types (.new .standard)).store.relation "pointer_value" ↔
      ∃ v ty, x.setup.Typed v ty ∧ (x.run types (.new .standard)).state.holds ty = true ∧
        x.objects.idOf v = .ok id := by
  have hfacts := forall₂_said hb hok "pointer_value"
  constructor
  · intro h
    obtain ⟨r, hr, hbecomes⟩ := exists_left_of_mem_right hfacts h
    obtain ⟨st, hst, hr⟩ := List.mem_flatMap.1 hr
    have hname := Step.relation_of_mem_said hr
    obtain ⟨v, ty, rfl⟩ := (Setup.regular_of_bundled hb hst).exists_typed
      (Step.may_of_mem_said hr) (hname ▸ by decide)
    rcases List.mem_cons.1 (List.mem_filter.1 hr).1 with rfl | hr
    · exact absurd hname (by decide : Relation.valueType.name ≠ "pointer_value")
    · split at hr
      next hholds =>
        obtain rfl := List.mem_singleton.1 hr
        obtain ⟨id', hid, heq⟩ := hbecomes.eq_object
        cases heq
        exact ⟨v, ty, (Setup.typed_mem_plan_iff hb).1 hst, hholds,
          ObjectRef.resolve_value_eq_ok_iff.1 hid⟩
      next => cases hr
  · rintro ⟨v, ty, htyped, hholds, hid⟩
    have hrow : (⟨.pointerValue, [v]⟩ : Row) ∈ (x.setup.plan x.matched).flatMap
        (Step.said (x.run types (.new .standard)).state "pointer_value") := by
      refine List.mem_flatMap.2 ⟨_, (Setup.typed_mem_plan_iff hb).2 htyped, ?_⟩
      simp [Step.said, Step.rowsIn, hholds, Relation.pointerValue]
    obtain ⟨fact, hfact, hbecomes⟩ := exists_right_of_mem_left hfacts hrow
    obtain ⟨id', hid', rfl⟩ := hbecomes.eq_object
    rw [ObjectRef.resolve_value_eq_ok_iff, hid] at hid'
    cases hid'
    exact hfact

end Extractor

end PointsTo
