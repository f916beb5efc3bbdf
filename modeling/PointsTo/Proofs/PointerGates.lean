import Mathlib
import PointsTo.Proofs.CallAccounts

/-!
# Guards and pointers

Facts behind guards are there exactly where a description says of a value that it is a pointer:
of the result of a load, a phi, a select or a cast, of what is stored, given back or passed to
a call. For each kind of instruction the facts about one instruction are determined by that, and
no other instruction has any.
-/

namespace PointsTo

/-! ## Facts behind guards -/

/-- The facts are as `Q` says if the gate is open, and there are none if it is shut. -/
def Gated (gate : Bool) (facts : List Fact) (Q : List Fact → Prop) : Prop :=
  (gate = true → Q facts) ∧ (gate = false → facts = [])

theorem gated_of_forall₂ {gate : Bool} {rows : List Row} {facts : List Fact}
    {R : Row → Fact → Prop} {Q : List Fact → Prop}
    (h : List.Forall₂ R (if gate then rows else []) facts)
    (hQ : ∀ facts, List.Forall₂ R rows facts → Q facts) : Gated gate facts Q := by
  cases gate with
  | true => exact ⟨fun _ => hQ facts h, by simp⟩
  | false => exact ⟨by simp, fun _ => List.forall₂_nil_left_iff.1 h⟩

/-- If guards are open exactly where `q` holds of what corresponds, then what the rows behind
open guards become is given by what corresponds. -/
theorem eq_map_filter_of_forall₂ {α β γ δ : Type} {R : α → β → Prop} {S : γ → δ → Prop}
    {l : List α} {l' : List β} (h : List.Forall₂ R l l') {gate : α → Bool} {q : β → Bool}
    {row : α → γ} {g : β → δ} (hgate : ∀ a b, R a b → gate a = q b)
    (hrow : ∀ a b d, R a b → S (row a) d → d = g b) {facts : List δ}
    (hfacts : List.Forall₂ S ((l.filter gate).map row) facts) : facts = (l'.filter q).map g := by
  induction h generalizing facts with
  | nil =>
    cases hfacts
    rfl
  | @cons a b l l' hab _ ih =>
    rw [List.filter_cons, hgate a b hab] at hfacts
    rw [List.filter_cons]
    split
    next hq =>
      rw [if_pos hq] at hfacts
      rcases hfacts with _ | ⟨ha, hrest⟩
      rw [List.map_cons, hrow a b _ hab ha, ih hrest]
    next hq =>
      rw [if_neg hq] at hfacts
      exact ih hfacts

theorem forall₂_zipIdx {α β : Type} {R : α → β → Prop} {l : List α} {l' : List β}
    (h : List.Forall₂ R l l') (n : Nat) :
    List.Forall₂ (fun a b => R a.1 b.1 ∧ a.2 = b.2) (l.zipIdx n) (l'.zipIdx n) := by
  induction h generalizing n with
  | nil => exact .nil
  | cons hr _ ih => exact .cons ⟨hr, rfl⟩ (ih (n + 1))

theorem exists_forall₂ {α β : Type} {R : α → β → Prop} {l : List α} (h : ∀ a ∈ l, ∃ b, R a b) :
    ∃ l', List.Forall₂ R l l' := by
  induction l with
  | nil => exact ⟨[], .nil⟩
  | cons a l ih =>
    rw [List.forall_mem_cons] at h
    obtain ⟨b, hb⟩ := h.1
    obtain ⟨l', hl'⟩ := ih h.2
    exact ⟨b :: l', .cons hb hl'⟩

/-! ### Returns and calls -/

namespace Setup

variable {s : Setup} {matched : MatchedCalls} {scope : Scope} {e : Emission} {self : Value}
  {call : Invoke}

/-- The pointers that functions give back. -/
theorem said_returned (hb : s.models.Bundled) :
    (s.plan matched).flatMap (Step.said e "return") =
      (s.unit.returns.filter fun r =>
        (Scope.new r.function r.definition).gate s.unit e r.value).map fun r => ⟨.returned,
          [Value.function r.function,
            (Scope.new r.function r.definition).object s.unit r.value]⟩ := by
  rw [said_plan_returns hb]
  exact (List.flatMap_congr fun r _ => Scope.said_ifPointer (by simp [Relation.returned])).trans
    (flatMap_ite_singleton _ _ _)

/-- The pointers that go into a call. -/
theorem said_callArg :
    (s.generalCallSteps scope self call).flatMap (Step.said e "call_arg") =
      (call.args.zipIdx.filter fun a => scope.gate s.unit e a.1).map fun a =>
        ⟨.callArg, [self, a.2, scope.object s.unit a.1]⟩ := by
  have hcall : (Step.row ⟨.call, [self, scope.object s.unit call.function]⟩).said e "call_arg" =
      [] := rfl
  have hresult : ∀ st ∈ call.ty.toList.map fun ty =>
      Step.ifPointer (.named ty) [⟨.callReturn, [self]⟩], st.Avoids "call_arg" := by
    simp [Relation.callReturn]
  rw [generalCallSteps_eq, List.flatMap_append, List.flatMap_append, List.flatMap_singleton, hcall,
    Step.flatMap_said_eq_nil hresult, List.nil_append, List.append_nil, List.flatMap_assoc]
  exact (List.flatMap_congr fun a _ => Scope.said_ifPointer (by simp [Relation.callArg])).trans
    (flatMap_ite_singleton _ _ _)

/-- The pointer that comes out of a call. -/
theorem said_callReturn :
    (s.generalCallSteps scope self call).flatMap (Step.said e "call_return") =
      if ((call.ty.map StaticType.named).map e.holds).getD false
        then [⟨.callReturn, [self]⟩] else [] := by
  have hcall :
      (Step.row ⟨.call, [self, scope.object s.unit call.function]⟩).said e "call_return" = [] := rfl
  rw [generalCallSteps_eq, List.flatMap_append, List.flatMap_append, List.flatMap_singleton, hcall,
    Step.flatMap_said_eq_nil (avoids_arguments (by decide)), List.nil_append, List.nil_append]
  cases call.ty with
  | none => rfl
  | some ty =>
    rw [Option.toList_some, List.map_singleton, List.flatMap_singleton,
      Step.said_ifPointer (by simp [Relation.callReturn])]
    rfl

end Setup

/-- The instruction has rows of the relation behind its guards. -/
inductive Setup.Guards (s : Setup) (place : Place) : String → Prop
  | load {dest : Register} {ty : TypeId} {addr : Operand} {access : Access} :
      s.unit.instruction? place = some (.load dest ty addr access) → s.Guards place "load"
  | store {addr value : Operand} {access : Access} :
      s.unit.instruction? place = some (.store addr value access) → s.Guards place "store"
  | phi {dest : Register} {ty : TypeId} {incoming : List (Label × Operand)} :
      s.unit.instruction? place = some (.phi dest ty incoming) → s.Guards place "phi"
  | argument {call : Invoke} : s.unit.instruction? place = some (.invoke call) →
      s.models.resolve (.new s.unit place call) = .ok none → s.Guards place "call_arg"
  | result {call : Invoke} : s.unit.instruction? place = some (.invoke call) →
      s.models.resolve (.new s.unit place call) = .ok none → s.Guards place "call_return"

namespace Extractor

variable {x : Extractor} {types : TypeTable} {place : Place} {i : Instr} {function : Function}
  {b : Block} {id : ObjectId}

/-- The facts that are meant for pointers are there exactly where `pointer_value` says that
there is one. -/
structure GatesAgree (x : Extractor) (types : TypeTable) : Prop where
  load : ∀ place dest ty addr access,
    x.setup.unit.instruction? place = some (.load dest ty addr access) →
    ∃ id, x.objects.idOf (.instruction place) = .ok id ∧
      Gated (x.isPointer types id) (x.factsAbout types "load" id) fun facts =>
        ∃ a, x.OperandId place.function addr a ∧ facts = [[.object id, .object a]]
  store : ∀ place addr value access,
    x.setup.unit.instruction? place = some (.store addr value access) →
    ∃ id v, x.objects.idOf (.instruction place) = .ok id ∧ x.OperandId place.function value v ∧
      Gated (x.isPointer types v) (x.factsAbout types "store" id) fun facts =>
        ∃ a, x.OperandId place.function addr a ∧ facts = [[.object id, .object a, .object v]]
  phi : ∀ place dest ty incoming,
    x.setup.unit.instruction? place = some (.phi dest ty incoming) →
    ∃ id, x.objects.idOf (.instruction place) = .ok id ∧
      Gated (x.isPointer types id) (x.factsAbout types "phi" id)
        (List.Forall₂ (fun q fact => ∃ l a, x.objects.idOf (.block place.function q.1) = .ok l ∧
          x.OperandId place.function q.2 a ∧ fact = [.object id, .object l, .object a]) incoming)
  select : ∀ place dest condition ifTrue ifFalse ty,
    x.setup.unit.instruction? place = some (.select dest condition ifTrue ifFalse ty) →
    ∃ id, x.objects.idOf (.instruction place) = .ok id ∧
      Gated (x.isPointer types id) (x.factsAbout types "move" id) fun facts =>
        ∃ a b, x.OperandId place.function ifTrue a ∧ x.OperandId place.function ifFalse b ∧
          facts = [[.object id, .object a], [.object id, .object b]]
  bitcast : ∀ place dest ty value,
    x.setup.unit.instruction? place = some (.cast dest .bitcast ty value) →
    ∃ id, x.objects.idOf (.instruction place) = .ok id ∧
      Gated (x.isPointer types id) (x.factsAbout types "move" id) fun facts =>
        ∃ a, x.OperandId place.function value a ∧ facts = [[.object id, .object a]]
  returned : ∃ ids : List (ObjectId × ObjectId),
    List.Forall₂ (fun r p => x.objects.idOf (.function r.function) = .ok p.1 ∧
      x.OperandId r.function r.value p.2) x.setup.unit.returns ids ∧
    (x.generate types (.new .standard)).store.relation "return" =
      (ids.filter fun p => x.isPointer types p.2).map fun p => [.object p.1, .object p.2]
  call : ∀ place call, x.setup.unit.instruction? place = some (.invoke call) →
    x.setup.models.resolve (.new x.setup.unit place call) = .ok none →
    ∃ id args, x.objects.idOf (.instruction place) = .ok id ∧
      List.Forall₂ (x.OperandId place.function) call.args args ∧
      x.factsAbout types "call_arg" id = ((args.zipIdx.filter fun a => x.isPointer types a.1).map
        fun a => [.object id, .int a.2, .object a.1]) ∧
      Gated (x.isPointer types id) (x.factsAbout types "call_return" id) (· = [[.object id]])
  /-- There are no other facts. -/
  beyond : ∀ name ∈ ["load", "store", "phi", "call_arg", "call_return"],
    ∀ fact ∈ (x.generate types (.new .standard)).store.relation name, ∃ place id,
      x.setup.Guards place name ∧ x.objects.idOf (.instruction place) = .ok id ∧
        fact.head? = some (.object id)

theorem mem_blockOperands_of_hasInstr {f : FunctionId} {k : Nat} {o : Operand}
    (hinstr : x.setup.unit.HasInstr f function b i k) (ho : o ∈ i.operands) :
    o ∈ Function.blockOperands b :=
  Function.mem_blockOperands_of_instr (List.fst_mem_of_mem_zipIdx hinstr.mem_instrs) ho

namespace Described

/-- Of an instruction whose rows are meant if its own result is a pointer, the facts are there
if it is one. -/
theorem exists_factsAbout_guarded (hx : x.Described types)
    (hi : x.setup.unit.instruction? place = some i) {ty : TypeId}
    (htype : i.resultType? = some (.named ty)) (rel : Relation) (cells : Scope → List (List Cell))
    (heffects : ∀ scope, x.setup.effectSteps x.matched scope place i =
      [.ifPointer (.named ty) ((cells scope).map (Row.mk rel))])
    (hname : rel.name ∉ (Relation.ofInstrs ++ Relation.withoutSubject).map Relation.name) :
    ∃ function b id, x.setup.unit.HasInstr place.function function b i place.index ∧
      x.objects.idOf (.instruction place) = .ok id ∧
      List.Forall₂ (Row.Becomes ⟨x.objects, .new .standard⟩)
        (if x.isPointer types id then (cells (.new place.function function)).map (Row.mk rel)
          else []) (x.factsAbout types rel.name id) := by
  obtain ⟨function, b, id, hinstr, hid, hfacts⟩ := hx.finished.exists_factsAbout hi
  have hgate : x.isPointer types id = (x.run types (.new .standard)).state.holds (.named ty) := by
    rw [hx.finished.isPointer_instruction hi hid, htype]
    rfl
  have hrelation (scope : Scope) : ∀ r ∈ (cells scope).map (Row.mk rel),
      r.relation.name = rel.name := by
    intro r hr
    obtain ⟨_, -, rfl⟩ := List.mem_map.1 hr
    rfl
  refine ⟨function, b, id, hinstr, hid, ?_⟩
  have hrows := hfacts rel.name hname
  rwa [rowsOf, Setup.effectsOf, heffects, List.flatMap_singleton,
    Step.said_ifPointer (hrelation _), ← hgate] at hrows

/-- A fact of an instruction and something it reads has the ids of both. -/
theorem exists_eq_pair (hx : x.Described types)
    (hinstr : x.setup.unit.HasInstr place.function function b i place.index)
    (hid : x.objects.idOf (.instruction place) = .ok id) {o : Operand} (ho : o ∈ i.operands)
    {rel : Relation} {fact : Fact} (h : Row.Becomes ⟨x.objects, .new .standard⟩ ⟨rel,
      [Value.instruction place, (Scope.new place.function function).object x.setup.unit o]⟩ fact) :
    ∃ a, x.OperandId place.function o a ∧ fact = [.object id, .object a] := by
  obtain ⟨p, a, hp, ha, rfl⟩ := h.eq_pair
  obtain rfl := eq_of_resolve hid hp
  exact ⟨a, hx.operandId_of_resolve hinstr.toHasBlock (mem_blockOperands_of_hasInstr hinstr ho) ha,
    rfl⟩

/-- The case of one row for one operand. -/
theorem gates_single (hx : x.Described types) (hi : x.setup.unit.instruction? place = some i)
    {ty : TypeId} (htype : i.resultType? = some (.named ty)) (rel : Relation) {o : Operand}
    (ho : o ∈ i.operands)
    (heffects : ∀ scope, x.setup.effectSteps x.matched scope place i =
      [.ifPointer (.named ty) [⟨rel, [Value.instruction place, scope.object x.setup.unit o]⟩]])
    (hname : rel.name ∉ (Relation.ofInstrs ++ Relation.withoutSubject).map Relation.name) :
    ∃ id, x.objects.idOf (.instruction place) = .ok id ∧
      Gated (x.isPointer types id) (x.factsAbout types rel.name id) fun facts =>
        ∃ a, x.OperandId place.function o a ∧ facts = [[.object id, .object a]] := by
  obtain ⟨function, b, id, hinstr, hid, hfacts⟩ := hx.exists_factsAbout_guarded hi htype rel
    (fun scope => [[Value.instruction place, scope.object x.setup.unit o]]) heffects hname
  refine ⟨id, hid, gated_of_forall₂ hfacts fun facts h => ?_⟩
  rcases h with _ | ⟨hrow, _ | _⟩
  obtain ⟨a, ha, rfl⟩ := hx.exists_eq_pair hinstr hid ho hrow
  exact ⟨a, ha, rfl⟩

theorem gates_select (hx : x.Described types) {dest : Register}
    {condition ifTrue ifFalse : Operand} {ty : TypeId}
    (hi : x.setup.unit.instruction? place = some (.select dest condition ifTrue ifFalse ty)) :
    ∃ id, x.objects.idOf (.instruction place) = .ok id ∧
      Gated (x.isPointer types id) (x.factsAbout types "move" id) fun facts =>
        ∃ a b, x.OperandId place.function ifTrue a ∧ x.OperandId place.function ifFalse b ∧
          facts = [[.object id, .object a], [.object id, .object b]] := by
  obtain ⟨function, b, id, hinstr, hid, hfacts⟩ := hx.exists_factsAbout_guarded hi rfl
    .move (fun scope => [[Value.instruction place, scope.object x.setup.unit ifTrue],
      [Value.instruction place, scope.object x.setup.unit ifFalse]]) (fun _ => rfl) (by decide)
  refine ⟨id, hid, gated_of_forall₂ hfacts fun facts h => ?_⟩
  rcases h with _ | ⟨hfirst, _ | ⟨hsecond, _ | _⟩⟩
  obtain ⟨a, ha, rfl⟩ := hx.exists_eq_pair hinstr hid (by simp [Instr.operands]) hfirst
  obtain ⟨c, hc, rfl⟩ := hx.exists_eq_pair hinstr hid (by simp [Instr.operands]) hsecond
  exact ⟨a, c, ha, hc, rfl⟩

theorem gates_phi (hx : x.Described types) {dest : Register} {ty : TypeId}
    {incoming : List (Label × Operand)}
    (hi : x.setup.unit.instruction? place = some (.phi dest ty incoming)) :
    ∃ id, x.objects.idOf (.instruction place) = .ok id ∧
      Gated (x.isPointer types id) (x.factsAbout types "phi" id)
        (List.Forall₂ (fun q fact => ∃ l a, x.objects.idOf (.block place.function q.1) = .ok l ∧
          x.OperandId place.function q.2 a ∧ fact = [.object id, .object l, .object a])
            incoming) := by
  obtain ⟨function, b, id, hinstr, hid, hfacts⟩ := hx.exists_factsAbout_guarded hi rfl
    .phi (fun scope => incoming.map fun q => [Value.instruction place,
      Value.block scope.function q.1, scope.object x.setup.unit q.2])
    (fun scope => by rw [List.map_map]; rfl) (by decide)
  refine ⟨id, hid, gated_of_forall₂ hfacts fun facts h => ?_⟩
  rw [List.map_map, List.forall₂_map_left_iff] at h
  refine (forall₂_and_mem h).imp fun q fact hq => ?_
  obtain ⟨hmem, hrow⟩ := hq
  obtain ⟨p, l, a, hp, hblock, ha, rfl⟩ := hrow.eq_triple
  obtain rfl := eq_of_resolve hid hp
  have hoperand := mem_blockOperands_of_hasInstr hinstr (List.mem_map_of_mem hmem)
  exact ⟨l, a, ObjectRef.resolve_value_eq_ok_iff.1 hblock,
    hx.operandId_of_resolve hinstr.toHasBlock hoperand ha, rfl⟩

theorem gates_store (hx : x.Described types) {addr value : Operand} {access : Access}
    (hi : x.setup.unit.instruction? place = some (.store addr value access)) :
    ∃ id v, x.objects.idOf (.instruction place) = .ok id ∧ x.OperandId place.function value v ∧
      Gated (x.isPointer types v) (x.factsAbout types "store" id) fun facts =>
        ∃ a, x.OperandId place.function addr a ∧ facts = [[.object id, .object a, .object v]] := by
  obtain ⟨function, b, id, hinstr, hid, hfacts⟩ := hx.finished.exists_factsAbout hi
  have hoperand {o : Operand} (ho : o ∈ [addr, value]) : o ∈ Function.blockOperands b :=
    mem_blockOperands_of_hasInstr hinstr ho
  obtain ⟨v, hv⟩ := hx.exists_operandId hinstr.toHasBlock (hoperand (o := value) (by simp))
  have hstore := hfacts "store" (by decide)
  rw [rowsOf, Setup.effectsOf, Setup.effectSteps,
    Scope.said_ifPointer (by simp [Relation.store]),
    hx.gate_eq hinstr.toHasBlock (hoperand (by simp)) hv] at hstore
  refine ⟨id, v, hid, hv, gated_of_forall₂ hstore fun facts h => ?_⟩
  rcases h with _ | ⟨hrow, _ | _⟩
  obtain ⟨p, a, c, hp, ha, hc, rfl⟩ := hrow.eq_triple
  obtain rfl := eq_of_resolve hid hp
  obtain rfl := hv.unique (hx.operandId_of_resolve hinstr.toHasBlock (hoperand (by simp)) hc)
  exact ⟨a, hx.operandId_of_resolve hinstr.toHasBlock (hoperand (by simp)) ha, rfl⟩

theorem gates_returned (hx : x.Described types) :
    ∃ ids : List (ObjectId × ObjectId),
      List.Forall₂ (fun r p => x.objects.idOf (.function r.function) = .ok p.1 ∧
        x.OperandId r.function r.value p.2) x.setup.unit.returns ids ∧
      (x.generate types (.new .standard)).store.relation "return" =
        (ids.filter fun p => x.isPointer types p.2).map fun p => [.object p.1, .object p.2] := by
  have hoperand {r : Return} (hr : r ∈ x.setup.unit.returns) :
      ∃ b, x.setup.unit.HasBlock r.function r.definition b ∧
        r.value ∈ Function.blockOperands b := by
    obtain ⟨b, hblock, hret⟩ := Module.mem_returns_iff.1 hr
    exact ⟨b, hblock, List.mem_append_right _ (by simp [hret, Terminator.operands])⟩
  have hexists : ∀ r ∈ x.setup.unit.returns, ∃ p : ObjectId × ObjectId,
      x.objects.idOf (.function r.function) = .ok p.1 ∧ x.OperandId r.function r.value p.2 := by
    intro r hr
    obtain ⟨b, hblock, ho⟩ := hoperand hr
    obtain ⟨p, hp, -⟩ := hx.registered.exists_slot
      (Setup.function_mem_parts hblock.mem_functionList)
    obtain ⟨a, ha⟩ := hx.exists_operandId hblock ho
    exact ⟨(p, a), hp, ha⟩
  obtain ⟨ids, hids⟩ := exists_forall₂ hexists
  have hfacts := forall₂_said hx.bundled hx.outcome "return"
  rw [Setup.said_returned hx.bundled] at hfacts
  refine ⟨ids, hids, eq_map_filter_of_forall₂ (forall₂_and_mem hids) ?_ ?_ hfacts⟩
  · rintro r p ⟨hr, -, ha⟩
    obtain ⟨b, hblock, ho⟩ := hoperand hr
    exact hx.gate_eq hblock ho ha
  · rintro r p fact ⟨hr, hp, ha⟩ hrow
    obtain ⟨b, hblock, ho⟩ := hoperand hr
    obtain ⟨p', a', hp', ha', rfl⟩ := hrow.eq_pair
    rw [eq_of_resolve hp hp', ha.unique (hx.operandId_of_resolve hblock ho ha')]

theorem gates_call (hx : x.Described types) {call : Invoke}
    (hi : x.setup.unit.instruction? place = some (.invoke call))
    (hresolve : x.setup.models.resolve (.new x.setup.unit place call) = .ok none) :
    ∃ id args, x.objects.idOf (.instruction place) = .ok id ∧
      List.Forall₂ (x.OperandId place.function) call.args args ∧
      x.factsAbout types "call_arg" id = ((args.zipIdx.filter fun a => x.isPointer types a.1).map
        fun a => [.object id, .int a.2, .object a.1]) ∧
      Gated (x.isPointer types id) (x.factsAbout types "call_return" id) (· = [[.object id]]) := by
  obtain ⟨function, b, id, hinstr, hid, hfacts⟩ := hx.finished.exists_factsAbout hi
  have hoperand {o : Operand} (ho : o ∈ call.args) : o ∈ Function.blockOperands b :=
    mem_blockOperands_of_hasInstr hinstr (List.mem_cons_of_mem _ ho)
  obtain ⟨args, hargs⟩ := exists_forall₂ fun o ho =>
    hx.exists_operandId hinstr.toHasBlock (hoperand ho)
  have harg := hfacts "call_arg" (by decide)
  have hreturn := hfacts "call_return" (by decide)
  have haccount (scope : Scope) : x.setup.effectSteps x.matched scope place (.invoke call) =
      x.setup.generalCallSteps scope (.instruction place) call :=
    hx.finished.effectSteps_call hi hresolve scope
  rw [rowsOf, Setup.effectsOf, haccount] at harg hreturn
  rw [Setup.said_callArg] at harg
  rw [Setup.said_callReturn] at hreturn
  refine ⟨id, args, hid, hargs, ?_, ?_⟩
  · refine eq_map_filter_of_forall₂ (forall₂_zipIdx (forall₂_and_mem hargs) 0) ?_ ?_ harg
    · rintro ⟨o, k⟩ ⟨a, n⟩ ⟨⟨ho, ha⟩, -⟩
      exact hx.gate_eq hinstr.toHasBlock (hoperand ho) ha
    · rintro ⟨o, k⟩ ⟨a, n⟩ fact ⟨⟨ho, ha⟩, rfl⟩ hrow
      obtain ⟨p, a', hp, ha', rfl⟩ := hrow.eq_indexed
      rw [eq_of_resolve hid hp,
        ha.unique (hx.operandId_of_resolve hinstr.toHasBlock (hoperand ho) ha')]
  · have hgate : x.isPointer types id = ((call.ty.map StaticType.named).map
        (x.run types (.new .standard)).state.holds).getD false :=
      hx.finished.isPointer_instruction hi hid
    rw [← hgate] at hreturn
    refine gated_of_forall₂ hreturn fun facts h => ?_
    rcases h with _ | ⟨hrow, _ | _⟩
    obtain ⟨p, hp, rfl⟩ := hrow.eq_object
    rw [eq_of_resolve hid hp]

/-- What is said behind guards is said by an instruction that has such rows. -/
theorem guards_of_mem (hx : x.Described types) {name : String}
    (hname : name ∈ ["load", "store", "phi", "call_arg", "call_return"]) {fact : Fact}
    (hfact : fact ∈ (x.generate types (.new .standard)).store.relation name) :
    ∃ place id, x.setup.Guards place name ∧ x.objects.idOf (.instruction place) = .ok id ∧
      fact.head? = some (.object id) := by
  have hrelations : ∀ name ∈ ["load", "store", "phi", "call_arg", "call_return"],
      name ∉ Relation.ofStructure.map Relation.name ∧
        name ∉ Relation.ofInstrs.map Relation.name ∧
        name ∉ Relation.ofConstants.map Relation.name ∧
        name ∉ Relation.withoutSubject.map Relation.name := by decide
  obtain ⟨hstructure, hinstrs, hconstants, hsubject⟩ := hrelations name hname
  obtain ⟨r, hr, hbecomes⟩ := exists_left_of_mem_right
    (forall₂_rowsOf hx.bundled hx.outcome hstructure hinstrs hconstants) hfact
  obtain ⟨⟨place, function, i⟩, hoccurs, hr⟩ := List.mem_flatMap.1 hr
  obtain ⟨id, hid, hhead⟩ := hbecomes.head?_of_subject?
    (subject?_of_mem_rowsOf hx.bundled hsubject hr)
  refine ⟨place, id, ?_, hid, hhead⟩
  obtain ⟨b, hinstr, hlabel⟩ := Module.mem_occurrences_iff.1 hoccurs
  have hi : x.setup.unit.instruction? place = some i :=
    (Module.instruction?_eq_some_iff hx.labelled).2 ⟨function, b, hinstr, hlabel⟩
  have hplain : ∀ rel ∈ i.plainRelations ++ Relation.ofModels,
      rel.name ∉ ["load", "store", "phi", "call_arg", "call_return"] := by
    unfold Instr.plainRelations
    split <;> decide
  have hguarded : name ∈ i.guardedRelations.map Relation.name := by
    obtain ⟨st, hst, hsaid⟩ := List.mem_flatMap.1 hr
    obtain rfl := Step.relation_of_mem_said hsaid
    have hdescribes := (Setup.mem_effectSteps_iff.1 hst).describes hx.bundled
    rcases List.mem_append.1 (i.allRelations_subset
      (hdescribes.rows r (Step.may_of_mem_said hsaid)).relation) with hmem | hmem
    · exact List.mem_map_of_mem hmem
    · exact absurd hname (hplain _ hmem)
  cases i with
  | load dest ty addr access =>
    obtain rfl := List.mem_singleton.1 hguarded
    exact .load hi
  | store addr value access =>
    obtain rfl := List.mem_singleton.1 hguarded
    exact .store hi
  | phi dest ty incoming =>
    obtain rfl := List.mem_singleton.1 hguarded
    exact .phi hi
  | invoke call =>
    have hcall : name = "call_arg" ∨ name = "call_return" := by
      simpa [Instr.guardedRelations, Relation.callArg, Relation.callReturn] using hguarded
    have haccount := hx.finished.callAccount hi (.new place.function function)
    rcases hcall with rfl | rfl
    · exact .argument hi (haccount.resolve_of_mem (by decide) hr)
    · exact .result hi (haccount.resolve_of_mem (by decide) hr)
  | select dest condition ifTrue ifFalse ty =>
    obtain rfl := List.mem_singleton.1 hguarded
    exact absurd hname (by decide)
  | cast dest op ty value =>
    cases op with
    | bitcast =>
      obtain rfl := List.mem_singleton.1 hguarded
      exact absurd hname (by decide)
    | _ => cases hguarded
  | _ => cases hguarded

end Described

/-- In a description that succeeds, guards are open exactly where `pointer_value` says so. The
models are those that are always there, and the constants were interned in the table of types
that the description is given. -/
theorem gatesAgree_of_generate {s : Setup} (hl : s.unit.Labelled) (hb : s.models.Bundled)
    (hpool : s.unit.constants.InternedIn types) (hnew : (Extractor.new s).1 = .ok x)
    (hok : (x.generate types (.new .standard)).outcome = .ok ()) : x.GatesAgree types := by
  obtain ⟨rfl, -⟩ := registered_of_new hl hnew
  have hx : x.Described types := ⟨hnew, hl, hb, hpool, hok⟩
  exact
    { load := fun _ _ _ _ _ hi =>
        hx.gates_single hi rfl .load List.mem_cons_self (fun _ => rfl) (by decide)
      store := fun _ _ _ _ => hx.gates_store
      phi := fun _ _ _ _ => hx.gates_phi
      select := fun _ _ _ _ _ _ => hx.gates_select
      bitcast := fun _ _ _ _ hi =>
        hx.gates_single hi rfl .move List.mem_cons_self (fun _ => rfl) (by decide)
      returned := hx.gates_returned
      call := fun _ _ => hx.gates_call
      beyond := fun _ hname _ => hx.guards_of_mem hname }

/-- The address of a function is stored and called, and a number is stored and passed on. -/
def storing : Setup where
  unit :=
    { name := "m"
      globals := []
      functions :=
        [.declare "callee" [(⟨0⟩, ⟨0⟩), (⟨1⟩, ⟨1⟩)] (some ⟨0⟩),
          .define "main" [(⟨0⟩, ⟨0⟩), (⟨1⟩, ⟨1⟩)] (some ⟨0⟩)
            [⟨.entry,
              [.store (.reg ⟨0⟩) (.imm ⟨0⟩) ⟨none, none, false⟩,
                .store (.reg ⟨0⟩) (.reg ⟨1⟩) ⟨none, none, false⟩,
                .load ⟨2⟩ ⟨0⟩ (.reg ⟨0⟩) ⟨none, none, false⟩,
                .invoke ⟨.imm ⟨0⟩, [.reg ⟨2⟩, .reg ⟨1⟩], some ⟨3⟩, some ⟨0⟩⟩],
              .ret (some (.reg ⟨3⟩))⟩]]
      constants := ConstPool.empty.push ⟨.functionAddr ⟨0⟩, ⟨0⟩⟩ (by decide) }
  config := .default
  models := .standard .default

/-- A pointer type and a type of integers. -/
def storingTypes : TypeTable := ((TypeTable.empty.intern .ptr).2.intern (.int .i1)).2

theorem internedIn_storing : storing.unit.constants.InternedIn storingTypes :=
  .type _ (.constant (.functionAddr ⟨0⟩) (.type .ptr (.empty .empty)))

theorem storing_gatesAgree :
    storing.unit.Labelled ∧ storing.models.Bundled ∧
      storing.unit.constants.InternedIn storingTypes ∧
      ∃ x, (Extractor.new storing).1 = .ok x ∧
        (x.generate storingTypes (.new .standard)).outcome = .ok () ∧
        (x.generate storingTypes (.new .standard)).store.relation "store" =
          [[.object ⟨9⟩, .object ⟨6⟩, .object ⟨2⟩]] ∧
        (x.generate storingTypes (.new .standard)).store.relation "call_arg" =
          [[.object ⟨12⟩, .int 0, .object ⟨11⟩]] ∧ x.GatesAgree storingTypes := by
  have hl : storing.unit.Labelled := by
    unfold Module.Labelled Function.Labelled
    decide
  have hb : storing.models.Bundled := by simp [CallModels.Bundled, storing, CallModels.standard]
  have hnew : ∃ x, (Extractor.new storing).1 = .ok x ∧
      (x.generate storingTypes (.new .standard)).outcome = .ok () ∧
      (x.generate storingTypes (.new .standard)).store.relation "store" =
        [[.object ⟨9⟩, .object ⟨6⟩, .object ⟨2⟩]] ∧
      (x.generate storingTypes (.new .standard)).store.relation "call_arg" =
        [[.object ⟨12⟩, .int 0, .object ⟨11⟩]] := ⟨_, rfl, by decide +kernel⟩
  obtain ⟨x, hx, hok, hstore, hargument⟩ := hnew
  exact ⟨hl, hb, internedIn_storing, x, hx, hok, hstore, hargument,
    gatesAgree_of_generate hl hb internedIn_storing hx hok⟩

end Extractor

end PointsTo
