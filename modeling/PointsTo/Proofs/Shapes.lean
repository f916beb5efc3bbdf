import Mathlib
import PointsTo.Proofs.EmissionRuns
import PointsTo.Proofs.Mentions

/-!
# The shapes of rows

The rows of a plan have the columns of their relations, and most of them begin with the value
that they are about. Rows of a few relations alone are guarded by types. The part of the module
that a step is about says which relations its rows are of and with which value they begin. This
needs nothing of the module; only what call models write is theirs to answer for.

## Main definitions

* `Step.Describes rels P`: the rows of the step are of the relations `rels`, about values as `P`
  says, and have the columns of their relations.
* `CallModels.Write P`: the rows that the models write are as `P` says.
-/

namespace PointsTo

/-! ## Rows -/

/-- The row has the columns of a standard relation. -/
def Row.Shaped (r : Row) : Prop := r.relation.Standard (r.cells.map Cell.column)

/-- The value that a row is about. -/
def Row.subject? (r : Row) : Option Value :=
  match r.cells with
  | .object (.value v) :: _ => some v
  | _ => none

namespace Relation

/-- The relations with rows that do not begin with a value. -/
def withoutSubject : List Relation :=
  [specialObject, moduleName, globalInit, memoryObject, objectType]

/-- The relations that say the types of values. -/
def ofTypes : List Relation := [valueType, pointerValue]

/-- The relations with rows that are no steps of their own. -/
def implied : List Relation := ofTypes ++ guarded

def ofPreamble : List Relation := [specialObject, moduleName]

def ofGlobals : List Relation :=
  [global, valueType, pointerValue, memoryObject, objectType, addressOf, globalInit]

/-- The relations of what is said of a function ahead of its blocks. -/
def ofFunctions : List Relation :=
  [function, memoryObject, addressOf, valueType, pointerValue, argument, freeArgument,
    functionDecl, functionEntry]

def ofTerminators : List Relation := [instr, operand, successor, returned]

/-- The relations of what is said of an instruction, before what it does. -/
def ofInstrs : List Relation := [instr, valueType, pointerValue, operand]

def ofConstants : List Relation :=
  [constant, valueType, pointerValue, constElement, elementAddr, addressOf]

/-- The relations of what instructions do, where no model took a call over. -/
def ofEffects : List Relation :=
  [load, store, phi, move, callArg, callReturn, memoryObject, objectType, addressOf, elementAddr,
    unknownSource, call]

/-- The relations of what the models say that are always there. -/
def ofModels : List Relation := [heapAlloc, memoryObject, addressOf, memCopy, move]

end Relation

namespace Instr

/-- The relations of the guarded rows of what an instruction does. -/
def guardedRelations : Instr → List Relation
  | .load .. => [.load]
  | .store .. => [.store]
  | .phi .. => [.phi]
  | .select .. => [.move]
  | .cast _ .bitcast _ _ => [.move]
  | .invoke _ => [.callArg, .callReturn]
  | _ => []

/-- The relations of the plain rows of what an instruction does, where no model took a call
over. -/
def plainRelations : Instr → List Relation
  | .alloca .. => [.memoryObject, .objectType, .addressOf]
  | .elementPtr .. => [.elementAddr]
  | .cast _ .intToPtr _ _ => [.unknownSource]
  | .invoke _ => [.call]
  | _ => []

/-- The relations of what an instruction does, where no model took a call over. -/
def relations (i : Instr) : List Relation := i.guardedRelations ++ i.plainRelations

/-- The same, with what the models that are always there say of calls. -/
def allRelations : Instr → List Relation
  | .invoke call => (Instr.invoke call).relations ++ Relation.ofModels
  | i => i.relations

theorem relations_subset_ofEffects (i : Instr) : i.relations ⊆ Relation.ofEffects := by
  cases i with
  | cast dest op ty value =>
    cases op <;> simp [relations, guardedRelations, plainRelations, Relation.ofEffects]
  | _ => simp [relations, guardedRelations, plainRelations, Relation.ofEffects]

theorem relations_subset (i : Instr) : i.relations ⊆ i.allRelations := by
  cases i with
  | invoke call => exact List.subset_append_left _ _
  | _ => exact List.Subset.refl _

theorem allRelations_subset (i : Instr) :
    i.allRelations ⊆ i.guardedRelations ++ (i.plainRelations ++ Relation.ofModels) := by
  rw [← List.append_assoc]
  cases i with
  | invoke call => exact List.Subset.refl _
  | _ => exact List.subset_append_left _ _

end Instr

/-- A part of a module that is neither an instruction nor a constant. -/
def Value.isStructural : Value → Bool
  | .instruction _ => false
  | .constant _ => false
  | _ => true

/-- The row is of one of the relations and has its columns, and it is about a value as `P` says
if it begins with one. -/
structure Row.Describes (rels : List Relation) (P : Value → Prop) (r : Row) : Prop where
  relation : r.relation ∈ rels
  shaped : r.Shaped
  subject : r.relation ∈ Relation.withoutSubject ∨ ∃ v, r.subject? = some v ∧ P v

namespace Row.Describes

variable {rel : Relation} {rels : List Relation} {P : Value → Prop} {cells : List Cell}

theorem of_subject {v : Value} (hrel : rel ∈ rels)
    (hshape : rel.Standard (.object :: cells.map Cell.column)) (hv : P v) :
    Row.Describes rels P ⟨rel, .object (.value v) :: cells⟩ :=
  ⟨hrel, hshape, .inr ⟨v, rfl, hv⟩⟩

theorem of_withoutSubject (hrel : rel ∈ rels) (hshape : rel.Standard (cells.map Cell.column))
    (h : rel ∈ Relation.withoutSubject) : Row.Describes rels P ⟨rel, cells⟩ :=
  ⟨hrel, hshape, .inl h⟩

end Row.Describes

/-! ## Steps -/

namespace Step

/-- What the step does is known beforehand. It says the type of a value only where that is all
that it does, and what it guards is meant to be guarded. -/
def Regular : Step → Prop
  | .row r => r.relation.name ∉ Relation.ofTypes.map Relation.name
  | .ifPointer _ rows => ∀ r ∈ rows, r.relation ∈ Relation.guarded
  | .acts _ => False
  | _ => True

/-- The step is regular, and the rows that it may append describe values as `P` says in the
relations. -/
structure Describes (rels : List Relation) (P : Value → Prop) (st : Step) : Prop where
  rows : ∀ r, st.May r → r.Describes rels P
  regular : st.Regular

/-- The step appends no row of the relation. -/
def Avoids (name : String) (st : Step) : Prop := ∀ r, st.May r → r.relation.name ≠ name

/-- The step appends no row of the relation but itself. -/
def PlainIn (name : String) (st : Step) : Prop :=
  ∀ r, st.May r → r.relation.name = name → st = .row r

theorem Avoids.plainIn {name : String} {st : Step} (h : st.Avoids name) : st.PlainIn name :=
  fun r hr heq => absurd heq (h r hr)

namespace Describes

variable {rels : List Relation} {P : Value → Prop} {st : Step}

theorem row {rel : Relation} {cells : List Cell} (h : Row.Describes rels P ⟨rel, cells⟩)
    (hrel : rel.name ∉ Relation.ofTypes.map Relation.name) :
    (Step.row ⟨rel, cells⟩).Describes rels P where
  rows r hr := by
    obtain rfl := may_row_iff.1 hr
    exact h
  regular := hrel

theorem ifPointer {ty : StaticType} {rows : List Row}
    (h : ∀ r ∈ rows, r.Describes rels P ∧ r.relation ∈ Relation.guarded) :
    (Step.ifPointer ty rows).Describes rels P where
  rows r hr := (h r (may_ifPointer_iff.1 hr)).1
  regular r hr := (h r hr).2

theorem guarded {ty : StaticType} {rel : Relation} {cells : List Cell}
    (h : Row.Describes rels P ⟨rel, cells⟩) (hrel : rel ∈ Relation.guarded) :
    (Step.ifPointer ty [⟨rel, cells⟩]).Describes rels P :=
  ifPointer (List.forall_mem_singleton.2 ⟨h, hrel⟩)

theorem typed {v : Value} {ty : StaticType} (hv : P v) (hvalue : .valueType ∈ rels)
    (hpointer : .pointerValue ∈ rels) : (Step.typed v ty).Describes rels P where
  rows r hr := by
    rcases may_typed_iff.1 hr with ⟨id, rfl⟩ | rfl
    · exact .of_subject hvalue (by decide : Relation.valueType.Standard [.object, .str]) hv
    · exact .of_subject hpointer (by decide : Relation.pointerValue.Standard [.object]) hv
  regular := trivial

theorem intern {ty : StaticType} : (Step.intern ty).Describes rels P := ⟨nofun, trivial⟩
theorem need {o : ObjectRef} : (Step.need o).Describes rels P := ⟨nofun, trivial⟩
theorem remark {n : Remark} : (Step.remark n).Describes rels P := ⟨nofun, trivial⟩
theorem visited {c : ConstId} : (Step.visited c).Describes rels P := ⟨nofun, trivial⟩

theorem mono {rels' : List Relation} {P' : Value → Prop} (h : st.Describes rels P)
    (hrels : rels ⊆ rels') (hP : ∀ v, P v → P' v) : st.Describes rels' P' where
  rows r hr :=
    ⟨hrels (h.rows r hr).relation, (h.rows r hr).shaped,
      (h.rows r hr).subject.imp_right fun ⟨v, hv, hP'⟩ => ⟨v, hv, hP v hP'⟩⟩
  regular := h.regular

theorem avoids (h : st.Describes rels P) {name : String}
    (hname : name ∉ rels.map Relation.name) : st.Avoids name := by
  rintro r hr rfl
  exact hname (List.mem_map_of_mem (h.rows r hr).relation)

end Describes

namespace Regular

variable {st : Step} {r : Row}

theorem isKnown (h : st.Regular) : st.isKnown = true := by
  cases st with
  | acts choose => exact h.elim
  | _ => rfl

/-- Where a row comes from: it is a step of its own, it goes with the type of a value, or it is
guarded. -/
theorem origin (h : st.Regular) (hr : st.May r) :
    st = .row r ∧ r.relation.name ∉ Relation.ofTypes.map Relation.name ∨
      (∃ v ty, st = .typed v ty) ∧ r.relation ∈ Relation.ofTypes ∨
      r.relation ∈ Relation.guarded := by
  cases hr with
  | row r => exact .inl ⟨rfl, h⟩
  | valueType v ty id => exact .inr (.inl ⟨⟨v, ty, rfl⟩, List.mem_cons_self⟩)
  | pointerValue v ty =>
    exact .inr (.inl ⟨⟨v, ty, rfl⟩, List.mem_cons_of_mem _ List.mem_cons_self⟩)
  | guarded ty hr => exact .inr (.inr (h _ hr))
  | act => exact h.elim

theorem plainIn (h : st.Regular) {name : String}
    (hname : name ∉ Relation.implied.map Relation.name) : st.PlainIn name := by
  rintro r hr rfl
  rcases h.origin hr with ⟨rfl, -⟩ | ⟨-, hmem⟩ | hmem
  · rfl
  · exact absurd (List.mem_map_of_mem (List.mem_append_left _ hmem)) hname
  · exact absurd (List.mem_map_of_mem (List.mem_append_right _ hmem)) hname

/-- The types of values are said by steps of their own. -/
theorem exists_typed (h : st.Regular) (hr : st.May r)
    (hname : r.relation.name ∈ Relation.ofTypes.map Relation.name) : ∃ v ty, st = .typed v ty := by
  have hguarded : ∀ rel ∈ Relation.guarded, rel.name ∉ Relation.ofTypes.map Relation.name := by
    decide
  rcases h.origin hr with ⟨-, hother⟩ | ⟨htyped, -⟩ | hmem
  · exact absurd hname hother
  · exact htyped
  · exact absurd hname (hguarded _ hmem)

end Regular

end Step

/-! ## Models -/

namespace CallModels

variable {models : CallModels}

/-- Whatever the models say of calls, they say by rows that are as `P` says. -/
def Write (models : CallModels) (P : Row → Prop) : Prop :=
  ∀ model ∈ models.models, ∀ site call, ∀ st ∈ model.describe site call, ∀ r, st.May r → P r

/-- The models that are always there say what a call does by plain rows about the call. -/
theorem Bundled.describes (h : models.Bundled) {model : CallModel} (hmodel : model ∈ models.models)
    {site : CallSite} {call : CallObjects} {st : Step} (hst : st ∈ model.describe site call) :
    st.Describes Relation.ofModels (· = call.self) := by
  rcases h model hmodel with ⟨symbols, rfl⟩ | rfl
  · simp only [CallModel.heapAllocator, List.mem_cons, List.not_mem_nil, or_false] at hst
    rcases hst with rfl | rfl | rfl
    · exact .row (.of_subject (by decide)
        (by decide : Relation.heapAlloc.Standard [.object, .object]) rfl) (by decide)
    · exact .row (.of_withoutSubject (by decide)
        (by decide : Relation.memoryObject.Standard [.object, .str]) (by decide)) (by decide)
    · exact .row (.of_subject (by decide)
        (by decide : Relation.addressOf.Standard [.object, .object]) rfl) (by decide)
  · have hcopy (destination source : ObjectRef) :
        (Step.row ⟨.memCopy, [call.self, destination, source]⟩).Describes Relation.ofModels
          (· = call.self) :=
      .row (.of_subject (by decide)
        (by decide : Relation.memCopy.Standard [.object, .object, .object]) rfl) (by decide)
    have hmove (destination : ObjectRef) :
        (Step.row ⟨.move, [call.self, destination]⟩).Describes Relation.ofModels
          (· = call.self) :=
      .row (.of_subject (by decide)
        (by decide : Relation.move.Standard [.object, .object]) rfl) (by decide)
    simp only [CallModel.memoryCopy] at hst
    split at hst
    · split at hst
      · simp only [List.mem_cons, List.not_mem_nil, or_false] at hst
        rcases hst with rfl | rfl
        · exact hcopy _ _
        · exact hmove _
      · obtain rfl := List.mem_singleton.1 hst
        exact hcopy _ _
    · cases hst

theorem Bundled.write_ne (h : models.Bundled) {name : String}
    (hname : name ∉ Relation.ofModels.map Relation.name) :
    models.Write fun r => r.relation.name ≠ name :=
  fun _ hmodel _ _ _ hst => (h.describes hmodel hst).avoids hname

end CallModels

/-! ## Plans -/

namespace Setup

variable {s : Setup} {matched : MatchedCalls} {st : Step}

theorem PreambleStep.describes (h : s.PreambleStep st) :
    st.Describes Relation.ofPreamble (·.isStructural = true) := by
  cases h with
  | special =>
    exact .row (.of_withoutSubject (by decide)
      (by decide : Relation.specialObject.Standard [.object, .str]) (by decide)) (by decide)
  | moduleName =>
    exact .row (.of_withoutSubject (by decide)
      (by decide : Relation.moduleName.Standard [.str]) (by decide)) (by decide)

theorem GlobalStep.describes {g : GlobalId} {global : Global} (h : s.GlobalStep g global st) :
    st.Describes Relation.ofGlobals (·.isStructural = true) := by
  cases h with
  | global =>
    exact .row (.of_subject (by decide)
      (by decide : Relation.global.Standard [.object, .str]) rfl) (by decide)
  | typed => exact .typed rfl (by decide) (by decide)
  | memory =>
    exact .row (.of_withoutSubject (by decide)
      (by decide : Relation.memoryObject.Standard [.object, .str]) (by decide)) (by decide)
  | type =>
    exact .row (.of_withoutSubject (by decide)
      (by decide : Relation.objectType.Standard [.object, .str]) (by decide)) (by decide)
  | address =>
    exact .row (.of_subject (by decide)
      (by decide : Relation.addressOf.Standard [.object, .object]) rfl) (by decide)
  | initializer =>
    exact .row (.of_withoutSubject (by decide)
      (by decide : Relation.globalInit.Standard [.object, .object]) (by decide)) (by decide)

theorem FunctionStep.describes {f : FunctionId} {function : Function}
    (h : s.FunctionStep f function st) :
    st.Describes Relation.ofFunctions (·.isStructural = true) := by
  cases h with
  | function =>
    exact .row (.of_subject (by decide)
      (by decide : Relation.function.Standard [.object, .str]) rfl) (by decide)
  | memory =>
    exact .row (.of_subject (by decide)
      (by decide : Relation.memoryObject.Standard [.object, .str]) rfl) (by decide)
  | address =>
    exact .row (.of_subject (by decide)
      (by decide : Relation.addressOf.Standard [.object, .object]) rfl) (by decide)
  | typed => exact .typed rfl (by decide) (by decide)
  | argument =>
    exact .row (.of_subject (by decide)
      (by decide : Relation.argument.Standard [.object, .int, .object]) rfl) (by decide)
  | argumentTyped => exact .typed rfl (by decide) (by decide)
  | freeArgument =>
    exact .guarded (.of_subject (by decide)
      (by decide : Relation.freeArgument.Standard [.object]) rfl) (by decide)
  | declaration =>
    exact .row (.of_subject (by decide)
      (by decide : Relation.functionDecl.Standard [.object]) rfl) (by decide)
  | emitting => exact .remark
  | entry =>
    exact .row (.of_subject (by decide)
      (by decide : Relation.functionEntry.Standard [.object, .object]) rfl) (by decide)
  | intern => exact .intern

theorem describes_block (f : FunctionId) (l : Label) :
    (Step.row ⟨.block, [Value.block f l, Value.function f]⟩).Describes [.block]
      (·.isStructural = true) :=
  .row (.of_subject (by decide)
    (by decide : Relation.block.Standard [.object, .object]) rfl) (by decide)

theorem TerminatorStep.describes {scope : Scope} {label : Label} {t : Terminator}
    (h : s.TerminatorStep scope label t st) :
    st.Describes Relation.ofTerminators (·.isStructural = true) := by
  cases h with
  | instr =>
    exact .row (.of_subject (by decide)
      (by decide : Relation.instr.Standard [.object, .str, .object]) rfl) (by decide)
  | operand =>
    exact .row (.of_subject (by decide)
      (by decide : Relation.operand.Standard [.object, .int, .object]) rfl) (by decide)
  | successor =>
    exact .row (.of_subject (by decide)
      (by decide : Relation.successor.Standard [.object, .object]) rfl) (by decide)
  | returned =>
    exact .guarded (.of_subject (by decide)
      (by decide : Relation.returned.Standard [.object, .object]) rfl) (by decide)
  | caseValue =>
    exact .row (.of_subject (by decide)
      (by decide : Relation.operand.Standard [.object, .int, .object]) rfl) (by decide)

theorem InstrStep.describes {scope : Scope} {place : Place} {block : Value} {i : Instr}
    (h : s.InstrStep scope place block i st) :
    st.Describes Relation.ofInstrs (· = .instruction place) := by
  cases h with
  | instr =>
    exact .row (.of_subject (by decide)
      (by decide : Relation.instr.Standard [.object, .str, .object]) rfl) (by decide)
  | typed => exact .typed rfl (by decide) (by decide)
  | operand =>
    exact .row (.of_subject (by decide)
      (by decide : Relation.operand.Standard [.object, .int, .object]) rfl) (by decide)

/-- What is said of what an instruction does describes the instruction, or is what the model that
took a call over says of it. -/
theorem EffectStep.describes_or_handled {scope : Scope} {place : Place} {i : Instr}
    (h : s.EffectStep matched scope place i st) :
    st.Describes i.relations (· = .instruction place) ∨
      ∃ call model, i = .invoke call ∧
        (matched.lookup place).bind (s.models.models[·]?) = some model ∧
        ∃ site objects, objects.self = .instruction place ∧ st ∈ model.describe site objects := by
  cases h with
  | allocaMemory =>
    exact .inl (.row (.of_withoutSubject (by simp [Instr.relations, Instr.plainRelations])
      (by decide : Relation.memoryObject.Standard [.object, .str]) (by decide)) (by decide))
  | allocaType =>
    exact .inl (.row (.of_withoutSubject (by simp [Instr.relations, Instr.plainRelations])
      (by decide : Relation.objectType.Standard [.object, .str]) (by decide)) (by decide))
  | allocaAddress =>
    exact .inl (.row (.of_subject (by simp [Instr.relations, Instr.plainRelations])
      (by decide : Relation.addressOf.Standard [.object, .object]) rfl) (by decide))
  | load =>
    exact .inl (.guarded (.of_subject List.mem_cons_self
      (by decide : Relation.load.Standard [.object, .object]) rfl) (by decide))
  | store =>
    exact .inl (.guarded (.of_subject List.mem_cons_self
      (by decide : Relation.store.Standard [.object, .object, .object]) rfl) (by decide))
  | elementPtr =>
    exact .inl (.row (.of_subject List.mem_cons_self
      (by decide : Relation.elementAddr.Standard [.object, .object]) rfl) (by decide))
  | phi =>
    refine .inl (.ifPointer fun r hr => ?_)
    obtain ⟨q, -, rfl⟩ := List.mem_map.1 hr
    exact ⟨.of_subject List.mem_cons_self
      (by decide : Relation.phi.Standard [.object, .object, .object]) rfl,
      by simp [Relation.guarded]⟩
  | select =>
    refine .inl (.ifPointer fun r hr => ?_)
    obtain ⟨o, -, rfl⟩ := List.mem_map.1 hr
    exact ⟨.of_subject List.mem_cons_self
      (by decide : Relation.move.Standard [.object, .object]) rfl, by simp [Relation.guarded]⟩
  | bitcast =>
    exact .inl (.guarded (.of_subject List.mem_cons_self
      (by decide : Relation.move.Standard [.object, .object]) rfl) (by decide))
  | unknownSource =>
    exact .inl (.row (.of_subject List.mem_cons_self
      (by decide : Relation.unknownSource.Standard [.object, .object]) rfl) (by decide))
  | untraceable => exact .inl .remark
  | untraced => exact .inl .remark
  | call =>
    exact .inl (.row (.of_subject (by simp [Instr.relations, Instr.plainRelations])
      (by decide : Relation.call.Standard [.object, .object]) rfl) (by decide))
  | callArg =>
    exact .inl (.guarded (.of_subject List.mem_cons_self
      (by decide : Relation.callArg.Standard [.object, .int, .object]) rfl) (by decide))
  | callReturn =>
    exact .inl (.guarded (.of_subject (List.mem_cons_of_mem _ List.mem_cons_self)
      (by decide : Relation.callReturn.Standard [.object]) rfl) (by decide))
  | handled => exact .inl .remark
  | @described call model _ hmodel hst => exact .inr ⟨call, model, rfl, hmodel, _, _, rfl, hst⟩

theorem EffectStep.describes_or {scope : Scope} {place : Place} {i : Instr}
    (h : s.EffectStep matched scope place i st) :
    st.Describes i.relations (· = .instruction place) ∨
      ∃ call, i = .invoke call ∧ ∃ model ∈ s.models.models, ∃ site objects,
        objects.self = .instruction place ∧ st ∈ model.describe site objects := by
  rcases h.describes_or_handled with h | ⟨call, model, rfl, hmodel, site, objects, hself, hst⟩
  · exact .inl h
  · obtain ⟨position, -, hget⟩ := Option.bind_eq_some_iff.1 hmodel
    exact .inr ⟨call, rfl, model, List.mem_of_getElem? hget, site, objects, hself, hst⟩

/-- Where no model took a call over, the call is described as any instruction is. -/
theorem EffectStep.describes_of_none {scope : Scope} {place : Place} {i : Instr}
    (hnone : (matched.lookup place).bind (s.models.models[·]?) = none)
    (h : s.EffectStep matched scope place i st) :
    st.Describes i.relations (· = .instruction place) := by
  rcases h.describes_or_handled with h | ⟨call, model, -, hmodel, -⟩
  · exact h
  · cases hnone.symm.trans hmodel

theorem EffectStep.describes (hb : s.models.Bundled) {scope : Scope} {place : Place} {i : Instr}
    (h : s.EffectStep matched scope place i st) :
    st.Describes i.allRelations (· = .instruction place) := by
  rcases h.describes_or with h | ⟨call, rfl, model, hmodel, site, objects, hself, hst⟩
  · exact h.mono i.relations_subset fun _ => id
  · exact (hb.describes hmodel hst).mono (List.subset_append_right _ _) fun _ hv => hv.trans hself

/-- Instructions avoid a relation that is none of theirs if the models do. -/
theorem EffectStep.avoids {scope : Scope} {place : Place} {i : Instr}
    (h : s.EffectStep matched scope place i st) {name : String}
    (hname : name ∉ Relation.ofEffects.map Relation.name)
    (hm : s.models.Write fun r => r.relation.name ≠ name) : st.Avoids name := by
  rcases h.describes_or with h | ⟨call, -, model, hmodel, site, objects, -, hst⟩
  · exact (h.mono i.relations_subset_ofEffects fun _ => id).avoids hname
  · exact hm model hmodel site objects st hst

theorem MarkStep.describes {mark : Mark} (h : s.MarkStep mark st) :
    st.Describes Relation.ofConstants (· = .constant mark.subject) := by
  cases h with
  | need => exact .need
  | visiting => exact .remark
  | missing => exact .need
  | constant =>
    exact .row (.of_subject (by decide)
      (by decide : Relation.constant.Standard [.object, .str]) rfl) (by decide)
  | typed => exact .typed rfl (by decide) (by decide)
  | element =>
    exact .row (.of_subject (by decide)
      (by decide : Relation.constElement.Standard [.object, .int, .object]) rfl) (by decide)
  | elementAddr =>
    exact .row (.of_subject (by decide)
      (by decide : Relation.elementAddr.Standard [.object, .object]) rfl) (by decide)
  | null =>
    exact .row (.of_subject (by decide)
      (by decide : Relation.addressOf.Standard [.object, .object]) rfl) (by decide)
  | visited => exact .visited

/-- A step of a plan describes some part of the module, or is what a model says of a call. -/
theorem PlanStep.describes_or (h : s.PlanStep matched st) :
    (∃ rels P, st.Describes rels P) ∨
      ∃ model ∈ s.models.models, ∃ site objects, st ∈ model.describe site objects := by
  cases h with
  | preamble h => exact .inl ⟨_, _, h.describes⟩
  | global _ h => exact .inl ⟨_, _, h.describes⟩
  | function _ h => exact .inl ⟨_, _, h.describes⟩
  | block => exact .inl ⟨_, _, describes_block _ _⟩
  | terminator _ h => exact .inl ⟨_, _, h.describes⟩
  | instr _ h => exact .inl ⟨_, _, h.describes⟩
  | effect _ h =>
    rcases h.describes_or with h | ⟨_, -, model, hmodel, site, objects, -, hst⟩
    · exact .inl ⟨_, _, h⟩
    · exact .inr ⟨model, hmodel, site, objects, hst⟩
  | mark _ h => exact .inl ⟨_, _, h.describes⟩

/-- With the models that are always there, every step of a plan describes some part of the
module. -/
theorem exists_describes_of_mem (hb : s.models.Bundled) (hst : st ∈ s.plan matched) :
    ∃ rels P, st.Describes rels P := by
  rcases (mem_plan_iff.1 hst).describes_or with h | ⟨model, hmodel, site, objects, hst⟩
  · exact h
  · exact ⟨_, _, hb.describes hmodel hst⟩

theorem regular_of_bundled (hb : s.models.Bundled) (hst : st ∈ s.plan matched) :
    st.Regular := by
  obtain ⟨_, _, h⟩ := exists_describes_of_mem hb hst
  exact h.regular

theorem shaped_of_bundled (hb : s.models.Bundled) (hst : st ∈ s.plan matched) {r : Row}
    (hr : st.May r) : r.Shaped := by
  obtain ⟨_, _, h⟩ := exists_describes_of_mem hb hst
  exact (h.rows r hr).shaped

/-- A relation whose rows are not implied has plain rows only, if models say nothing in it. -/
theorem plainIn_of_mem {name : String} (hname : name ∉ Relation.implied.map Relation.name)
    (hm : s.models.Write fun r => r.relation.name ≠ name) (hst : st ∈ s.plan matched) :
    st.PlainIn name := by
  rcases (mem_plan_iff.1 hst).describes_or with ⟨_, _, h⟩ | ⟨model, hmodel, site, objects, hst⟩
  · exact h.regular.plainIn hname
  · exact Step.Avoids.plainIn (hm model hmodel site objects st hst)

end Setup

end PointsTo
