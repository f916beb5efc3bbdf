import Mathlib
import PointsTo.Proofs.Listing

/-!
# The facts of a description are closed

Every object in the facts of a description is described by some fact of the same
description, be it an earlier or a later one. An object of a row is a value, a special object
or the memory of an allocation site. Values are listed by kind, and the special objects come
first. Memory is described among the steps of the global or the instruction that it belongs to,
which alone mention it.
-/

namespace PointsTo

namespace FactStore

/-- The columns whose objects are described by being there. -/
def describing : List (String × Nat) :=
  [("special_object", 0), ("memory_object", 0), ("global", 0), ("function", 0), ("argument", 2),
    ("block", 0), ("instr", 0), ("constant", 0)]

/-- The columns that special objects may be in. -/
def reserved : List (String × Nat) :=
  [("special_object", 0), ("address_of", 1), ("unknown_source", 1)]

/-- Every object that is in some column is described, and objects below `special` keep to
their columns. -/
structure Closed (store : FactStore) (special : Nat) : Prop where
  described : ∀ name k id, store.Occurs name k id →
    ∃ column ∈ describing, store.Occurs column.1 column.2 id
  confined : ∀ name k id, store.Occurs name k id → id.index < special → (name, k) ∈ reserved

end FactStore

/-! ## Cells -/

/-- A cell whose object, if there is one, is a value or leads nowhere. -/
def Cell.isDirect : Cell → Bool
  | .object (.value _) => true
  | .object (.missing _) => true
  | .object _ => false
  | _ => true

@[simp] theorem Cell.isDirect_value (v : Value) : (object (.value v)).isDirect = true := rfl
@[simp] theorem Cell.isDirect_int (n : Int) : (int n).isDirect = true := rfl
@[simp] theorem Cell.isDirect_str (s : String) : (str s).isDirect = true := rfl
@[simp] theorem Cell.isDirect_typeText (id : TypeId) : (typeText id).isDirect = true := rfl

@[simp] theorem Scope.isDirect_object (scope : Scope) (m : Module) (o : Operand) :
    (Cell.object (scope.object m o)).isDirect = true := by
  cases o with
  | reg r =>
    simp only [object]
    split <;> rfl
  | imm c => rfl
  | label l => rfl

/-- All cells of the rows that a step may append are as `p` says. -/
def Step.Cells (p : Cell → Prop) (st : Step) : Prop := ∀ r, st.May r → ∀ cell ∈ r.cells, p cell

namespace Step

variable {p : Cell → Prop}

@[simp] theorem cells_row {r : Row} : (row r).Cells p ↔ ∀ cell ∈ r.cells, p cell := by
  constructor
  · exact fun h => h r (.row r)
  · rintro h r ⟨⟩
    exact h

@[simp] theorem cells_ifPointer {ty : StaticType} {rows : List Row} :
    (ifPointer ty rows).Cells p ↔ ∀ r ∈ rows, ∀ cell ∈ r.cells, p cell := by
  constructor
  · exact fun h r hr => h r (.guarded ty hr)
  · intro h r hmay
    cases hmay with
    | guarded _ hr => exact h r hr

theorem cells_typed {v : Value} {ty : StaticType} (hv : p v) (hty : ∀ id, p (.typeText id)) :
    (typed v ty).Cells p := by
  intro r hmay
  cases hmay with
  | valueType _ _ id => simp [hv, hty]
  | pointerValue => simp [hv]

@[simp] theorem cells_intern {ty : StaticType} : (intern ty).Cells p := nofun
@[simp] theorem cells_need {o : ObjectRef} : (need o).Cells p := nofun
@[simp] theorem cells_remark {r : Remark} : (remark r).Cells p := nofun
@[simp] theorem cells_visited {c : ConstId} : (visited c).Cells p := nofun

/-- The step mentions only values. -/
abbrev Direct (st : Step) : Prop := st.Cells (Cell.isDirect · = true)

@[simp] theorem direct_typed {v : Value} {ty : StaticType} : (typed v ty).Direct :=
  cells_typed rfl fun _ => rfl

end Step

/-! ## Closed plans -/

namespace Setup

variable {s : Setup} {matched : MatchedCalls} {steps : List Step} {st : Step}

/-- Why an object in a column of a row needs no description beyond `steps`. -/
inductive Accounts (s : Setup) (steps : List Step) (r : Row) (k : Nat) : ObjectRef → Prop
  | value (v : Value) : Accounts s steps r k (.value v)
  | missing (fault : Fault) : Accounts s steps r k (.missing fault)
  | special {position : Nat} : position < s.config.specialCount →
      (r.relation.name, k) ∈ FactStore.reserved → Accounts s steps r k (.special position)
  | memory {o : ObjectRef} {v : Value} {text : String} : o.owner? = some v →
      .row ⟨.memoryObject, [o, text]⟩ ∈ steps → Accounts s steps r k o

/-- The objects that the step mentions need no description beyond `steps`. -/
def Accounted (s : Setup) (steps : List Step) (st : Step) : Prop :=
  ∀ r, st.May r → ∀ k o, r.cells[k]? = some (.object o) → s.Accounts steps r k o

theorem accounted_of_direct (h : st.Direct) : s.Accounted steps st := by
  intro r hmay k o ho
  have hdirect := h r hmay _ (List.mem_of_getElem? ho)
  cases o with
  | value v => exact .value v
  | missing fault => exact .missing fault
  | _ => cases hdirect

/-- One object besides values may be mentioned if it is described as memory. -/
theorem accounted_of_memory {o : ObjectRef} {text : String} {v : Value} (ho : o.owner? = some v)
    (hrow : .row ⟨.memoryObject, [o, text]⟩ ∈ steps)
    (h : st.Cells fun cell => cell.isDirect = true ∨ cell = .object o) : s.Accounted steps st := by
  intro r hmay k o' ho'
  rcases h r hmay _ (List.mem_of_getElem? ho') with hdirect | heq
  · cases o' with
    | value v => exact .value v
    | missing fault => exact .missing fault
    | _ => cases hdirect
  · cases heq
    exact .memory ho hrow

/-- A row may say that a value points to a special object. -/
theorem accounted_pointer {rel : Relation} {v : Value} {name : String} {id : ObjectId}
    (hrel : (rel.name, 1) ∈ FactStore.reserved) (hid : s.config.specialId? name = some id) :
    s.Accounted steps (.row ⟨rel, [v, ObjectRef.special id.index]⟩) := by
  intro r hmay k o ho
  cases hmay
  match k with
  | 0 =>
    cases ho
    exact .value v
  | 1 =>
    cases ho
    exact .special (Config.index_lt_of_specialId? hid) hrel
  | k + 2 => cases ho

theorem PreambleStep.accounted (h : s.PreambleStep st) : s.Accounted steps st := by
  cases h with
  | special hname =>
    intro r hmay k o ho
    cases hmay
    match k with
    | 0 =>
      cases ho
      exact .special (List.snd_lt_of_mem_zipIdx hname) List.mem_cons_self
    | 1 => cases ho
    | k + 2 => cases ho
  | moduleName => exact accounted_of_direct (by simp)

theorem GlobalStep.accounted {g : GlobalId} {global : Global}
    (hsub : ∀ st, s.GlobalStep g global st → st ∈ steps) (h : s.GlobalStep g global st) :
    s.Accounted steps st := by
  refine accounted_of_memory (v := .global g) rfl (hsub _ .memory) ?_
  cases h with
  | typed => exact Step.cells_typed (.inl rfl) fun _ => .inl rfl
  | _ => simp

theorem FunctionStep.direct {f : FunctionId} {function : Function}
    (h : s.FunctionStep f function st) : st.Direct := by
  cases h <;> simp

theorem TerminatorStep.direct {scope : Scope} {label : Label} {t : Terminator}
    (h : s.TerminatorStep scope label t st) : st.Direct := by
  cases h <;> simp

theorem InstrStep.direct {scope : Scope} {place : Place} {b : FunctionId} {l : Label} {i : Instr}
    (h : s.InstrStep scope place (.block b l) i st) : st.Direct := by
  cases h <;> simp

/-- What the models that are always there say of a call mentions memory that they describe. -/
theorem accounted_describe {model : CallModel}
    (hmodel : (∃ symbols, model = .heapAllocator symbols) ∨ model = .memoryCopy)
    {site : CallSite} {call : CallObjects}
    (hargs : ∀ o ∈ call.args, (Cell.object o).isDirect = true)
    (hsub : model.describe site call ⊆ steps) (hst : st ∈ model.describe site call) :
    s.Accounted steps st := by
  rcases hmodel with ⟨symbols, rfl⟩ | rfl
  · have hmemory : .row ⟨.memoryObject, [ObjectRef.affiliated call.self 1, "heap"]⟩ ∈ steps :=
      hsub (by simp [CallModel.heapAllocator])
    refine accounted_of_memory rfl hmemory ?_
    simp only [CallModel.heapAllocator, List.mem_cons, List.not_mem_nil, or_false] at hst
    rcases hst with rfl | rfl | rfl <;> simp
  · refine accounted_of_direct ?_
    simp only [CallModel.memoryCopy] at hst
    split at hst
    next destination source rest heq =>
      have hdestination := hargs destination (by simp [heq])
      have hsource := hargs source (by simp [heq])
      split at hst
      · simp only [List.mem_cons, List.not_mem_nil, or_false] at hst
        rcases hst with rfl | rfl <;> simp [hdestination, hsource]
      · obtain rfl := List.mem_singleton.1 hst
        simp [hdestination, hsource]
    next => cases hst

theorem EffectStep.accounted (hb : s.models.Bundled) {scope : Scope} {place : Place} {i : Instr}
    (hsub : ∀ st, s.EffectStep matched scope place i st → st ∈ steps)
    (h : s.EffectStep matched scope place i st) : s.Accounted steps st := by
  have halloca {d ty n a} (hi : i = .alloca d ty n a)
      (hst : st.Cells fun cell => cell.isDirect = true ∨
        cell = .object (.storage (.instruction place))) : s.Accounted steps st := by
    subst hi
    exact accounted_of_memory rfl (hsub _ .allocaMemory) hst
  cases h with
  | allocaMemory => exact halloca rfl (by simp)
  | allocaType => exact halloca rfl (by simp)
  | allocaAddress => exact halloca rfl (by simp)
  | unknownSource hid => exact accounted_pointer (by decide) hid
  | described hmodel hst =>
    obtain ⟨position, -, hget⟩ := Option.bind_eq_some_iff.1 hmodel
    exact accounted_describe (hb _ (List.mem_of_getElem? hget)) (by simp)
      (fun st hst => hsub st (.described hmodel hst)) hst
  | phi =>
    refine accounted_of_direct (Step.cells_ifPointer.2 fun r hr => ?_)
    obtain ⟨e, -, rfl⟩ := List.mem_map.1 hr
    simp
  | _ => exact accounted_of_direct (by simp)

theorem MarkStep.accounted {mark : Mark} (h : s.MarkStep mark st) : s.Accounted steps st := by
  cases h with
  | null _ _ hid => exact accounted_pointer (by decide) hid
  | _ => exact accounted_of_direct (by simp)

/-- A plan describes the memory that it mentions, and keeps special objects to their columns. -/
theorem accounted_of_mem_plan (hb : s.models.Bundled) (hst : st ∈ s.plan matched) :
    s.Accounted (s.plan matched) st := by
  cases mem_plan_iff.1 hst with
  | preamble h => exact h.accounted
  | global hg h => exact h.accounted fun st h => mem_plan_iff.2 (.global hg h)
  | function _ h => exact accounted_of_direct h.direct
  | block => exact accounted_of_direct (by simp)
  | terminator _ h => exact accounted_of_direct h.direct
  | instr _ h => exact accounted_of_direct h.direct
  | effect hi h => exact h.accounted hb fun st h => mem_plan_iff.2 (.effect hi h)
  | mark _ h => exact h.accounted

end Setup

/-! ## Closed stores -/

theorem Kind.exists_holds (v : Value) : ∃ κ : Kind, κ.holds v = true := by
  cases v with
  | global g => exact ⟨.global, rfl⟩
  | function f => exact ⟨.function, rfl⟩
  | argument f k => exact ⟨.argument, rfl⟩
  | block f l => exact ⟨.block, rfl⟩
  | instruction i => exact ⟨.instruction, rfl⟩
  | terminator f l => exact ⟨.instruction, rfl⟩
  | constant c => exact ⟨.constant, rfl⟩

theorem Kind.mem_describing (κ : Kind) :
    (κ.relation.name, κ.column) ∈ FactStore.describing := by
  cases κ <;> decide

namespace Extractor

variable {x : Extractor} {types : TypeTable} {id : ObjectId}

/-- The special objects are listed. -/
theorem occurs_special (hok : (x.generate types (.new .standard)).outcome = .ok ())
    {position : Nat} (hlt : position < x.setup.config.specialCount)
    (hid : (ObjectRef.special position).resolve x.objects = .ok id) :
    (x.generate types (.new .standard)).store.Occurs Relation.specialObject.name 0 id := by
  obtain ⟨name, hname⟩ : ∃ name, x.setup.config.specialObjects[position]? = some name :=
    ⟨_, List.getElem?_eq_getElem hlt⟩
  have hrow : .row ⟨.specialObject, [ObjectRef.special position, name]⟩ ∈
      x.setup.plan x.matched :=
    Setup.mem_plan_iff.2 (.preamble (.special (List.mk_mem_zipIdx_iff_getElem?.2 hname)))
  exact occurs_of_row hok hrow rfl hid

/-- Values are in the columns of their kinds. -/
theorem Registered.occurs_of_idOf (hx : x.Registered) (hb : x.setup.models.Bundled)
    (hok : (x.generate types (.new .standard)).outcome = .ok ()) {v : Value}
    (hid : x.objects.idOf v = .ok id) :
    ∃ κ : Kind, (x.generate types (.new .standard)).store.Occurs κ.relation.name κ.column id := by
  have hrun : (x.run types (.new .standard)).outcome = .ok () := hok
  obtain ⟨κ, hκ⟩ := Kind.exists_holds v
  have hmem : v ∈ x.objects.owners.map Prod.fst :=
    hx.blocks.contains_iff.1 (ObjectTable.contains_iff_idOf.2 ⟨id, hid⟩)
  have hlisted : some (.object (.value v)) ∈ (x.setup.plan x.matched).filterMap κ.cell? := by
    rw [hx.cells_plan hb (fun mark => hasConstant_of_mark hx.checked hrun) κ]
    exact List.mem_map.2 ⟨v, List.mem_filter.2 ⟨hmem, hκ⟩, rfl⟩
  obtain ⟨st, hst, hcell⟩ := List.mem_filterMap.1 hlisted
  rw [κ.cell?_eq_map_row?] at hcell
  obtain ⟨r, hr, hobject⟩ := Option.map_eq_some_iff.1 hcell
  obtain ⟨rfl, hname⟩ := Step.row?_eq_some_iff.1 hr
  refine ⟨κ, hname ▸ occurs_of_row hok hst hobject ?_⟩
  exact ObjectRef.resolve_value_eq_ok_iff.2 hid

/-- An object of a fact is in the plan, with an account of why it is there. -/
theorem exists_accounts_of_occurs (hb : x.setup.models.Bundled)
    (hok : (x.generate types (.new .standard)).outcome = .ok ()) {name : String} {k : Nat}
    (h : (x.generate types (.new .standard)).store.Occurs name k id) :
    ∃ r o, r.relation.name = name ∧ o.resolve x.objects = .ok id ∧
      x.setup.Accounts (x.setup.plan x.matched) r k o := by
  obtain ⟨fact, hfact, hterm⟩ := h
  obtain ⟨st, hst, r, hmay, hname, hbecomes⟩ := exists_row_of_mem_relation hok hfact
  obtain ⟨o, ho, hid⟩ := hbecomes.exists_cell hterm
  exact ⟨r, o, hname, hid, Setup.accounted_of_mem_plan hb hst r hmay k o ho⟩

/-- Whatever the module and the configuration are, the facts of a description that succeeds
are closed. -/
theorem closed_of_generate {s : Setup} (hl : s.unit.Labelled) (hb : s.models.Bundled)
    (hnew : (Extractor.new s).1 = .ok x)
    (hok : (x.generate types (.new .standard)).outcome = .ok ()) :
    (x.generate types (.new .standard)).store.Closed s.config.specialCount := by
  obtain ⟨rfl, hx⟩ := registered_of_new hl hnew
  constructor
  case described =>
    intro name k id h
    obtain ⟨r, o, -, hid, haccounts⟩ := exists_accounts_of_occurs hb hok h
    cases haccounts with
    | value v =>
      obtain ⟨κ, hκ⟩ := hx.occurs_of_idOf hb hok (ObjectRef.resolve_value_eq_ok_iff.1 hid)
      exact ⟨_, κ.mem_describing, hκ⟩
    | missing fault => cases hid
    | special hlt _ => exact ⟨_, List.mem_cons_self, occurs_special hok hlt hid⟩
    | memory _ hrow =>
      have hmemory : (x.generate types (.new .standard)).store.Occurs
          Relation.memoryObject.name 0 id := occurs_of_row hok hrow rfl hid
      exact ⟨_, List.mem_cons_of_mem _ List.mem_cons_self, hmemory⟩
  case confined =>
    intro name k id h hlt
    obtain ⟨r, o, rfl, hid, haccounts⟩ := exists_accounts_of_occurs hb hok h
    cases haccounts with
    | value v => exact absurd (hx.special_le_of_resolve rfl hid) (Nat.not_le.2 hlt)
    | missing fault => cases hid
    | special _ hcolumn => exact hcolumn
    | memory ho hrow => exact absurd (hx.special_le_of_resolve ho hid) (Nat.not_le.2 hlt)

theorem allocating_closed :
    allocating.unit.Labelled ∧ allocating.models.Bundled ∧
      ∃ x, (Extractor.new allocating).1 = .ok x ∧
        (x.generate .empty (.new .standard)).outcome = .ok () ∧
        (x.generate .empty (.new .standard)).store.Closed 2 := by
  have hnew : ∃ x, (Extractor.new allocating).1 = .ok x := ⟨_, rfl⟩
  obtain ⟨x, hx⟩ := hnew
  have hok := outcome_allocating hx
  exact ⟨labelled_allocating, bundled_allocating, x, hx, hok,
    closed_of_generate labelled_allocating bundled_allocating hx hok⟩

end Extractor

end PointsTo
