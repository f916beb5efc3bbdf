import Mathlib
import PointsTo.Proofs.Mentions

/-!
# The principal objects

A plan names few of the objects that values own: the values themselves, the memory of
allocation sites, the first object of a call, and special objects. This needs nothing of the
module; the call models have to be the bundled ones.
-/

namespace PointsTo

/-- A special object, a value, the memory of a value, or the first object that it owns. -/
inductive ObjectRef.Principal (special : Nat) : ObjectRef → Prop
  | special {position : Nat} (h : position < special) : Principal special (.special position)
  | value (v : Value) : Principal special (.value v)
  | storage (v : Value) : Principal special (.storage v)
  | first (v : Value) : Principal special (.affiliated v 1)
  | missing (fault : Fault) : Principal special (.missing fault)

/-! ## Objects of a step -/

def Cell.Over (P : ObjectRef → Prop) : Cell → Prop
  | .object o => P o
  | _ => True

def Row.Over (P : ObjectRef → Prop) (r : Row) : Prop := ∀ cell ∈ r.cells, cell.Over P

/-- The objects that a step is about are known beforehand and are as `P` says. -/
def Step.Over (P : ObjectRef → Prop) : Step → Prop
  | .row r => r.Over P
  | .typed v _ => P (.value v)
  | .intern _ => True
  | .ifPointer _ rows => ∀ r ∈ rows, r.Over P
  | .need o => P o
  | .remark _ => True
  | .visited _ => True
  | .acts _ => False

section Cells

variable {P : ObjectRef → Prop}

@[simp] theorem Cell.over_object (o : ObjectRef) : (Cell.object o).Over P ↔ P o := Iff.rfl
@[simp] theorem Cell.over_int (n : Int) : (Cell.int n).Over P := trivial
@[simp] theorem Cell.over_str (s : String) : (Cell.str s).Over P := trivial
@[simp] theorem Cell.over_typeText (t : TypeId) : (Cell.typeText t).Over P := trivial

@[simp] theorem Row.over_mk (rel : Relation) (cells : List Cell) :
    (Row.mk rel cells).Over P ↔ ∀ cell ∈ cells, cell.Over P := Iff.rfl

@[simp] theorem Step.over_row (r : Row) : (Step.row r).Over P ↔ r.Over P := Iff.rfl
@[simp] theorem Step.over_typed (v : Value) (ty : StaticType) :
    (Step.typed v ty).Over P ↔ P (.value v) := Iff.rfl
@[simp] theorem Step.over_intern (ty : StaticType) : (Step.intern ty).Over P := trivial
@[simp] theorem Step.over_ifPointer (ty : StaticType) (rows : List Row) :
    (Step.ifPointer ty rows).Over P ↔ ∀ r ∈ rows, r.Over P := Iff.rfl
@[simp] theorem Step.over_need (o : ObjectRef) : (Step.need o).Over P ↔ P o := Iff.rfl
@[simp] theorem Step.over_remark (r : Remark) : (Step.remark r).Over P := trivial
@[simp] theorem Step.over_visited (c : ConstId) : (Step.visited c).Over P := trivial

end Cells

namespace ObjectRef.Principal

variable {n : Nat}

@[simp] theorem value_principal (v : Value) : Principal n (.value v) := .value v
@[simp] theorem storage_principal (v : Value) : Principal n (.storage v) := .storage v
@[simp] theorem first_principal (v : Value) : Principal n (.affiliated v 1) := .first v
@[simp] theorem missing_principal (fault : Fault) : Principal n (.missing fault) := .missing fault

/-- What an operand refers to. -/
@[simp] theorem object_principal (scope : Scope) (m : Module) (o : Operand) :
    Principal n (scope.object m o) := by
  cases o with
  | reg r =>
    rw [Scope.object]
    split
    · exact .value _
    · exact .missing _
  | imm c => exact .value _
  | label l => exact .value _

end ObjectRef.Principal

namespace Setup

open ObjectRef (Principal)

variable {s : Setup} {matched : MatchedCalls} {n : Nat}

/-- The bundled models say nothing of further objects of a call. -/
theorem principal_describe (hb : s.models.Bundled) {model : CallModel}
    (hmodel : model ∈ s.models.models) (site : CallSite) {call : CallObjects}
    (hargs : ∀ o ∈ call.args, Principal n o) :
    ∀ st ∈ model.describe site call, st.Over (Principal n) := by
  rcases hb model hmodel with ⟨symbols, rfl⟩ | rfl
  · simp [CallModel.heapAllocator]
  · simp only [CallModel.memoryCopy]
    split
    next destination source rest heq =>
      rw [heq, List.forall_mem_cons, List.forall_mem_cons] at hargs
      split <;> simp [hargs.1, hargs.2.1]
    next => simp

theorem principal_special {name : String} {id : ObjectId} (h : s.config.specialId? name = some id) :
    Principal s.config.specialCount (.special id.index) := by
  obtain ⟨position, hposition, rfl⟩ := Option.map_eq_some_iff.1 h
  exact .special (List.idxOf?_eq_some_iff.1 hposition).1

theorem EffectStep.principal (hb : s.models.Bundled) {scope : Scope} {place : Place} {i : Instr}
    {st : Step} (h : s.EffectStep matched scope place i st) :
    st.Over (Principal s.config.specialCount) := by
  cases h with
  | phi =>
    intro r hr
    obtain ⟨q, -, rfl⟩ := List.mem_map.1 hr
    simp
  | unknownSource hid => simp [principal_special hid]
  | described hmodel hst =>
    obtain ⟨position, -, hget⟩ := Option.bind_eq_some_iff.1 hmodel
    exact principal_describe hb (List.mem_of_getElem? hget) _ (by simp) _ hst
  | _ => simp

/-- A plan names principal objects only. -/
theorem principal_plan (hb : s.models.Bundled) :
    ∀ st ∈ s.plan matched, st.Over (Principal s.config.specialCount) := by
  intro st hst
  cases mem_plan_iff.1 hst with
  | preamble h =>
    cases h with
    | special h =>
      have hlt : _ < s.config.specialCount := List.snd_lt_of_mem_zipIdx h
      simpa using Principal.special hlt
    | moduleName => simp
  | global _ h => cases h <;> simp
  | function _ h => cases h <;> simp
  | block => simp
  | terminator _ h => cases h <;> simp
  | instr _ h => cases h <;> simp
  | effect _ h => exact h.principal hb
  | mark _ h =>
    cases h with
    | null _ _ hid => simp [principal_special hid]
    | _ => simp

end Setup

end PointsTo
