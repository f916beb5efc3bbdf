import Mathlib
import PointsTo.Proofs.RenumberedRuns
import PointsTo.Proofs.Shapes

/-!
# Numbers do not matter

Modules whose constants are numbered in different orders ask for the same ids in the same
order. Constants that correspond have the same ids, and the facts are the same.
-/

namespace PointsTo

/-! ## Rows under other numbers -/

section Rows

variable {π : ConstId → ConstId} {x : ObjectTable Value}

theorem ObjectRef.agree_renumber (hπ : Function.Injective π) (o : ObjectRef) :
    o.Agree id x (x.map (Value.renumber π)) (o.renumber π) := by
  have hg := Value.renumber_injective hπ
  cases o with
  | special k => exact agree_special k
  | value v => exact agree_value hg v
  | storage v => exact agree_storage hg v
  | affiliated v k => exact agree_affiliated hg v k
  | missing fault => exact agree_missing fault _

theorem Row.agree_renumber (hπ : Function.Injective π) (r : Row) :
    r.Agree id x (x.map (Value.renumber π)) (r.renumber π) := by
  refine ⟨rfl, List.forall₂_map_right_iff.2 (List.forall₂_same.2 fun cell _ => ?_)⟩
  cases cell with
  | object o => exact .object (o.agree_renumber hπ)
  | int n => exact .int n
  | str s => exact .str s
  | typeText t => exact .typeText t

theorem Step.agree_renumber (hπ : Function.Injective π) {st : Step} (hst : st.isKnown = true) :
    st.Agree id x (x.map (Value.renumber π)) (st.renumber π) := by
  cases st with
  | row r => exact .row (r.agree_renumber hπ)
  | typed v ty => exact .typed ty (ObjectRef.agree_renumber hπ (.value v))
  | intern ty => exact .intern ty
  | ifPointer ty rows =>
    refine .ifPointer ty (List.forall₂_map_right_iff.2 (List.forall₂_same.2 fun r _ => ?_))
    exact r.agree_renumber hπ
  | need o => exact .need (o.agree_renumber hπ)
  | remark r => exact .remark r _
  | visited c => exact .visited c _
  | acts choose => cases hst

end Rows

/-! ## Requests -/

def Request.renumber (π : ConstId → ConstId) : Request → Request
  | .enter function => .enter function
  | .value v affiliated => .value (v.renumber π) affiliated
  | .call i invoke => .call i (invoke.renumber π)
  | .constant c => .constant (π c)

/-- References of the module lead to the constants that a request looks at. -/
def Request.Leads (m : Module) : Request → Prop
  | .call _ invoke => m.LeadsTo invoke.function
  | .constant c => m.Leads c
  | _ => True

namespace Setup

variable {s s' : Setup} {π : ConstId → ConstId}

theorem constantRequests_map (ids : List ConstId) :
    constantRequests (ids.map π) = (constantRequests ids).map (Request.renumber π) := by
  simp [constantRequests, Request.renumber]

theorem instrRequests_renumber (h : s.Renumbers π s') (place : Place) (i : Instr) :
    s'.instrRequests place (i.renumber π) = (s.instrRequests place i).map (Request.renumber π) := by
  have hrequest : s'.instrRequest place (i.renumber π) =
      (s.instrRequest place i).renumber π := by
    cases i <;> simp [Instr.renumber, instrRequest, Request.renumber, h.config]
  rw [instrRequests, instrRequests, hrequest, Instr.operands_renumber,
    filterMap_constant?_renumber, constantRequests_map, List.map_cons]

theorem blockRequests_renumber (h : s.Renumbers π s') (f : FunctionId) (b : Block) :
    s'.blockRequests f (b.renumber π) = (s.blockRequests f b).map (Request.renumber π) := by
  simp only [blockRequests, Block.renumber, List.zipIdx_map, List.flatMap_map, Prod.map_fst,
    Prod.map_snd, id_eq, instrRequests_renumber h, Terminator.operands_renumber,
    Terminator.caseValues_renumber, filterMap_constant?_renumber, ← List.map_append,
    constantRequests_map]
  simp [List.map_flatMap, Request.renumber]

theorem functionRequests_renumber (h : s.Renumbers π s') (f : FunctionId) (function : Function) :
    s'.functionRequests f (function.renumber π) =
      (s.functionRequests f function).map (Request.renumber π) := by
  have hparams : (function.renumber π).params = function.params := rfl
  have hname : (function.renumber π).name = function.name := rfl
  simp [functionRequests, hparams, hname, List.flatMap_map, List.map_flatMap,
    blockRequests_renumber h, Request.renumber, Function.comp_def]

/-- A renumbered module asks for the same ids. -/
theorem requests_renumber (h : s.Renumbers π s') :
    s'.requests = s.requests.map (Request.renumber π) := by
  have hinitializers : s'.unit.globals.filterMap (·.initializer) =
      (s.unit.globals.filterMap (·.initializer)).map π := by
    rw [h.unit.globals, List.filterMap_map, List.map_filterMap]
    rfl
  simp only [requests, hinitializers, h.unit.globalList, h.unit.functionList, h.config,
    constantRequests_map, List.flatMap_map, functionRequests_renumber h]
  simp [List.map_flatMap, Request.renumber, Function.comp_def]

theorem leads_of_mem_instrRequests {place : Place} {i : Instr}
    (hconstants : ∀ c ∈ i.constants, s.unit.Leads c) :
    ∀ q ∈ s.instrRequests place i, q.Leads s.unit := by
  simp only [instrRequests, constantRequests, List.forall_mem_cons, List.forall_mem_map]
  refine ⟨?_, hconstants⟩
  cases i with
  | invoke call =>
    exact Module.leadsTo_of_constants hconstants call.function List.mem_cons_self
  | _ => trivial

theorem leads_of_mem_blockRequests {f : FunctionId} {b : Block}
    (hconstants : ∀ c ∈ b.constants, s.unit.Leads c) :
    ∀ q ∈ s.blockRequests f b, q.Leads s.unit := by
  rw [Block.constants, List.forall_mem_append, List.forall_mem_flatMap] at hconstants
  simp only [blockRequests, constantRequests, List.forall_mem_append, List.forall_mem_cons,
    List.forall_mem_map, List.forall_mem_flatMap]
  refine ⟨⟨trivial, ?_⟩, trivial, List.forall_mem_append.1 hconstants.2⟩
  rintro ⟨i, k⟩ hmem
  exact leads_of_mem_instrRequests (hconstants.1 i (List.fst_mem_of_mem_zipIdx hmem))

theorem leads_of_mem_requests (s : Setup) : ∀ q ∈ s.requests, q.Leads s.unit := by
  simp only [requests, functionRequests, constantRequests, List.forall_mem_append,
    List.forall_mem_cons, List.forall_mem_map, List.forall_mem_flatMap, List.forall_mem_filterMap]
  refine ⟨⟨⟨fun _ _ => trivial, fun _ _ => trivial⟩, ?_⟩, ?_⟩
  · exact fun g hg c hc => Module.leads_of_initializer hg hc
  · rintro ⟨f, function⟩ hf
    refine ⟨⟨trivial, fun _ _ => trivial⟩, fun b hb => ?_⟩
    exact leads_of_mem_blockRequests fun c hc => Module.leads_of_mem_constants
      (Module.mem_functions_of_mem hf) (List.mem_flatMap.2 ⟨b, hb, hc⟩)

/-- The callee of a call is known by its name under all numbers. -/
theorem calleeName?_renumber (h : s.Renumbers π s') (i : Place) {invoke : Invoke}
    (hfunction : s.unit.LeadsTo invoke.function) :
    (CallSite.new s'.unit i (invoke.renumber π)).calleeName? =
      (CallSite.new s.unit i invoke).calleeName? := by
  have hname (f : FunctionId) :
      (s'.unit.function? f).map Function.name = (s.unit.function? f).map Function.name := by
    simp only [Module.function?, h.unit.functions, List.getElem?_map, Option.map_map]
    rfl
  obtain ⟨callee, args, dest, ty⟩ := invoke
  cases callee with
  | imm c =>
    simp only [CallSite.new, CallSite.calleeName?, Invoke.renumber, Operand.renumber,
      h.unit.get? c (hfunction c rfl)]
    cases s.unit.constants.get? c with
    | none => rfl
    | some e =>
      obtain ⟨value, ty⟩ := e
      cases value with
      | functionAddr f =>
        simpa [Function.comp_def, TypedConst.renumber, Const.renumber] using hname f
      | _ => rfl
  | reg r => rfl
  | label l => rfl

end Setup

/-! ## Registration -/

namespace Registering

variable {π : ConstId → ConstId} {r r' : Registering} {s s' : Setup}

/-- The pass over the renumbered module has come as far. -/
structure Renumbered (π : ConstId → ConstId) (r r' : Registering) : Prop where
  objects : r'.objects = r.objects.map (Value.renumber π)
  matched : r'.matched = r.matched

theorem Renumbered.note (h : r.Renumbered π r') (notices notices' : List Notice) :
    (r.note notices).Renumbered π (r'.note notices') :=
  ⟨h.objects, h.matched⟩

theorem Renumbered.setMatched (h : r.Renumbered π r') (i : Place) (position : Nat) :
    (r.setMatched i position).Renumbered π (r'.setMatched i position) where
  objects := h.objects
  matched := by rw [Registering.setMatched, Registering.setMatched, h.matched]

theorem Renumbered.register (hπ : Function.Injective π) (h : r.Renumbered π r') (v : Value)
    (k : Nat) : (r.register v k).Renumbered π (r'.register (v.renumber π) k) where
  objects := by
    rw [objects_register, objects_register, h.objects,
      ObjectTable.register_map (Value.renumber_injective hπ)]
  matched := h.matched

theorem Renumbered.constant {m m' : Module} {c : ConstId} (hm : m.Renumbers π m')
    (hπ : Function.Injective π) (h : r.Renumbered π r') (hc : m.Leads c) :
    (r.constant m m.constantDepth c).Renumbered π (r'.constant m' m'.constantDepth (π c)) := by
  have hdepth := (m.within_constantDepth c).mono (le_max_left _ m'.constantDepth)
  have hdepth' := (m'.within_constantDepth (π c)).mono (le_max_right m.constantDepth _)
  rw [constant_eq_of_within (Module.within_constantDepth _) hdepth,
    constant_eq_of_within (Module.within_constantDepth _) hdepth']
  refine constant_of_keeps (P := Renumbered π) (fun _ hc _ hd => hc.child hd)
    (fun _ hc => hm.constantChildren hc) (fun r r' d h hd => ?_) (fun r r' d h hd => ?_) _ hc h
  · rw [hm.constantValue hd, h.objects, ObjectTable.contains_map (Value.renumber_injective hπ)]
  · rw [hm.constantValue hd]
    exact h.register hπ _ 0

/-- One request, settled for the module and for the renumbered one. -/
theorem Renumbered.request (hs : s.Renumbers π s') (hπ : Function.Injective π)
    (hb : s.models.Bundled) (h : r.Renumbered π r') {q : Request} (hq : q.Leads s.unit) :
    Paired (Renumbered π) (r.request s q) (r'.request s' (q.renumber π)) := by
  cases q with
  | enter function => exact ⟨.ok trivial, h.note _ _⟩
  | value v k => exact ⟨.ok trivial, h.register hπ v k⟩
  | constant c => exact ⟨.ok trivial, h.constant hs.unit hπ hq⟩
  | call i invoke =>
    have hresolve : Both Eq (fun _ _ => True) (s.models.resolve (.new s.unit i invoke))
        (s'.models.resolve (.new s'.unit i (invoke.renumber π))) := by
      rw [hs.models]
      exact hb.both_resolve (Setup.calleeName?_renumber hs i hq) rfl (List.length_map _)
    exact paired_call (fun _ _ _ _ h => h.note _ _) (fun _ _ _ h => h.setMatched i _)
      (fun _ _ k h => h.register hπ (.instruction i) k) hresolve h

end Registering

namespace Extractor

variable {π : ConstId → ConstId} {s s' : Setup} {x y : Extractor}

/-- The second extractor describes the renumbered module with the ids of the first. -/
structure Renumbered (π : ConstId → ConstId) (x y : Extractor) : Prop where
  setup : x.setup.Renumbers π y.setup
  objects : y.objects = x.objects.map (Value.renumber π)
  matched : y.matched = x.matched
  memo : y.memo = x.memo

/-- Modules that pass their checks are registered together. -/
theorem both_new_renumber (h : s.Renumbers π s') (hπ : Function.Injective π)
    (hverify : s.unit.verify = .ok ()) (hverify' : s'.unit.verify = .ok ())
    (hb : s.models.Bundled) :
    Both (Extractor.Renumbered π) (fun _ _ => True) (Extractor.new s).1 (Extractor.new s').1 := by
  have hstart : Registering.Renumbered π ⟨.new s.config.specialCount, [], #[]⟩
      ⟨.new s.config.specialCount, [], #[]⟩ := ⟨rfl, rfl⟩
  have hrequests : List.Forall₂ (fun q q' => q.Leads s.unit ∧ q' = q.renumber π) s.requests
      s'.requests := by
    rw [Setup.requests_renumber h, List.forall₂_map_right_iff, List.forall₂_same]
    exact fun q hq => ⟨s.leads_of_mem_requests q hq, rfl⟩
  have hstep (r r' : Registering) (q q' : Request) (hr : r.Renumbered π r')
      (hq : q.Leads s.unit ∧ q' = q.renumber π) :
      Registering.Paired (Registering.Renumbered π) (r.request s q) (r'.request s' q') :=
    hq.2 ▸ hr.request h hπ hb hq.1
  refine (both_new_of_paired (by rw [h.config]) (iff_of_true hverify' hverify)
    (Registering.paired_settle hstep hrequests hstart)).mono ?_
  rintro x y ⟨r, r', hrenumbered, rfl, rfl⟩
  exact ⟨h, hrenumbered.objects, hrenumbered.matched, rfl⟩

/-- Extractors of a module under two numberings append the same facts, and succeed in the same
cases. -/
theorem Renumbered.generate (hxy : x.Renumbered π y) (hπ : Function.Injective π)
    (hb : x.setup.models.Bundled) (types : TypeTable) (store : FactStore) :
    (y.generate types store).store = (x.generate types store).store ∧
      ((y.generate types store).outcome = .ok () ↔ (x.generate types store).outcome = .ok ()) := by
  have hsteps : Emit.StepsAgree id x.objects y.objects store (fun _ => True)
      (fun _ => True) (x.setup.plan x.matched) (y.setup.plan y.matched) := by
    rw [hxy.objects, hxy.matched, Setup.plan_renumber hxy.setup hπ hb]
    refine Emit.stepsAgree_of_forall₂ store (fun _ _ _ => trivial) ?_
    rw [List.forall₂_map_right_iff, List.forall₂_same]
    exact fun st hst => Step.agree_renumber hπ (Setup.regular_of_bundled hb hst).isKnown
  exact generate_of_stepsAgree hxy.memo hsteps types

/-- References lead to every constant that has an id. -/
theorem leads_of_idOf (hnew : (Extractor.new s).1 = .ok x) {c : ConstId} {id : ObjectId}
    (hc : x.objects.idOf (.constant c) = .ok id) : s.unit.Leads c := by
  obtain ⟨hverify, r, hr, rfl⟩ := exists_settle_of_new hnew
  obtain ⟨calls, hobjects, -, hconstants, -⟩ :=
    settle_requests (Module.verify_eq_ok_iff.1 hverify) hr
  have hcontains : r.objects.contains (.constant c) = true :=
    ObjectTable.contains_iff_idOf.2 ⟨id, hc⟩
  rw [hobjects, ObjectTable.contains_registerAll, List.map_append, List.mem_append] at hcontains
  rcases hcontains with (hsymbol | hcall) | hnone
  · cases (Setup.mem_symbolParts hsymbol).2
  · obtain ⟨call, hmem, hvalue⟩ := List.mem_map.1 hcall
    have hconstant : call ∈ constantCalls (s.unit.marksOf s.unit.references) := by
      rw [← hconstants, List.mem_filter, hvalue]
      exact ⟨hmem, rfl⟩
    obtain ⟨d, hd, rfl⟩ := List.mem_map.1 hconstant
    obtain rfl : d = c := by simpa using hvalue
    exact (Module.adds_marksOf s.unit.references).reaches _ (Module.mem_filterMap_left?.1 hd)
  · cases hnone

/-- The order in which constants entered the pool does not matter, nor what else is in it.
Modules that pass their checks and differ in the numbers of constants only are registered in
the same cases. Values that correspond have the same ids, and a description into the same
store appends the same facts and succeeds in the same cases. -/
theorem generate_renumber (h : s.Renumbers π s') (hverify : s.unit.verify = .ok ())
    (hverify' : s'.unit.verify = .ok ()) (hb : s.models.Bundled) :
    ((∃ y, (Extractor.new s').1 = .ok y) ↔ ∃ x, (Extractor.new s).1 = .ok x) ∧
      ∀ x y, (Extractor.new s).1 = .ok x → (Extractor.new s').1 = .ok y →
        (∀ w id, y.objects.idOf w = .ok id ↔
          ∃ v : Value, w = v.renumber π ∧ x.objects.idOf v = .ok id) ∧
        ∀ types store,
          (y.generate types store).store = (x.generate types store).store ∧
          ((y.generate types store).outcome = .ok () ↔
            (x.generate types store).outcome = .ok ()) := by
  -- All is proved for `σ`, which is injective on all numbers and gives the same module.
  obtain ⟨σ, hσ, hunit, heq⟩ := h.unit.exists_injective
  have hboth := both_new_renumber ⟨h.config, h.models, hunit⟩ hσ hverify hverify' hb
  refine ⟨hboth.exists_ok_iff, ?_⟩
  intro x y hx hy
  have hxy : x.Renumbered σ y := by
    rw [hx, hy] at hboth
    exact hboth.of_ok
  have hsetup := setup_of_new hx
  have hvalue {v : Value} {id : ObjectId} (hv : x.objects.idOf v = .ok id) :
      v.renumber σ = v.renumber π := by
    cases v with
    | constant c => exact congrArg Value.constant (heq c (leads_of_idOf hx hv))
    | _ => rfl
  refine ⟨?_, hxy.generate hσ (hsetup ▸ hb)⟩
  intro w id
  rw [hxy.objects, ObjectTable.idOf_map_eq_ok_iff (Value.renumber_injective hσ)]
  constructor
  · rintro ⟨v, rfl, hv⟩
    exact ⟨v, hvalue hv, hv⟩
  · rintro ⟨v, rfl, hv⟩
    exact ⟨v, (hvalue hv).symm, hv⟩

/-- The constants of `allocating` in another order, with two that it does not refer to. -/
def shuffledConstants : ConstPool :=
  (((((ConstPool.empty.push ⟨.undef ⟨0⟩, ⟨0⟩⟩ (by decide)).push ⟨.functionAddr ⟨0⟩, ⟨0⟩⟩
    (by decide)).push ⟨.null, ⟨0⟩⟩ (by decide)).push ⟨.int .i64 1, ⟨1⟩⟩ (by decide)).push
    ⟨.elementAddr ⟨2⟩ ⟨0⟩ [], ⟨0⟩⟩ (by decide)).push ⟨.aggregate ⟨2⟩ [⟨2⟩, ⟨1⟩, ⟨3⟩], ⟨2⟩⟩
    (by decide)

def shuffle (c : ConstId) : ConstId := ⟨[3, 2, 1, 5].getD c.index 0⟩

def shuffled : Setup :=
  { allocating with
    unit :=
      { allocating.unit with
        globals := allocating.unit.globals.map (Global.renumber shuffle)
        functions := allocating.unit.functions.map (Function.renumber shuffle)
        constants := shuffledConstants } }

theorem renumbers_shuffled : allocating.Renumbers shuffle shuffled := by
  have hreferences : ∀ d ∈ allocating.unit.references, d.index < 4 := by decide
  have hindex {c : ConstId} (hc : allocating.unit.Leads c) : c.index < 4 := by
    obtain ⟨d, hd, hr⟩ := hc
    exact hr.index_le.trans_lt (hreferences d hd)
  refine ⟨rfl, rfl, rfl, rfl, rfl, ?_, ?_⟩
  · rintro ⟨i⟩ ⟨j⟩ hi hj
    have hinjective : ∀ i < 4, ∀ j < 4, shuffle ⟨i⟩ = shuffle ⟨j⟩ → ConstId.mk i = ⟨j⟩ := by decide
    exact hinjective i (hindex hi) j (hindex hj)
  · rintro ⟨i⟩ hi
    have hentry : ∀ i < 4, shuffled.unit.constants.get? (shuffle ⟨i⟩) =
        (allocating.unit.constants.get? ⟨i⟩).map (TypedConst.renumber shuffle) := by decide
    exact hentry i (hindex hi)

theorem shuffled_generate :
    allocating.Renumbers shuffle shuffled ∧ allocating.unit.verify = .ok () ∧
      shuffled.unit.verify = .ok () ∧ allocating.models.Bundled ∧
      ∃ x y, (Extractor.new allocating).1 = .ok x ∧ (Extractor.new shuffled).1 = .ok y ∧
        (∀ w id, y.objects.idOf w = .ok id ↔
          ∃ v : Value, w = v.renumber shuffle ∧ x.objects.idOf v = .ok id) ∧
        (y.generate .empty (.new .standard)).store = (x.generate .empty (.new .standard)).store ∧
        ((y.generate .empty (.new .standard)).outcome = .ok () ↔
          (x.generate .empty (.new .standard)).outcome = .ok ()) := by
  have hverify : allocating.unit.verify = .ok () := by rfl
  have hverify' : shuffled.unit.verify = .ok () := by rfl
  obtain ⟨hiff, hgenerate⟩ := generate_renumber renumbers_shuffled hverify hverify'
    bundled_allocating
  have hnew : ∃ x, (Extractor.new allocating).1 = .ok x := ⟨_, rfl⟩
  obtain ⟨x, hx⟩ := hnew
  obtain ⟨y, hy⟩ := hiff.2 ⟨x, hx⟩
  obtain ⟨hids, hfacts⟩ := hgenerate x y hx hy
  exact ⟨renumbers_shuffled, hverify, hverify', bundled_allocating, x, y, hx, hy, hids,
    hfacts .empty (.new .standard)⟩

end Extractor

end PointsTo
