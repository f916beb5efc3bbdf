import Mathlib
import PointsTo.Proofs.OperandGuards

/-!
# One account for each call

With the models that are always there, a call is described in one of three ways: as an
allocation, as a copy of memory, or by the general account with its callee. The three ways use
different relations, so a call has exactly one fact in all of them together. What is said of
arguments and results belongs to the general account.
-/

namespace PointsTo

/-! ## Accounts -/

/-- The relations that say how a call is described. -/
def Relation.ofCalls : List Relation := [call, heapAlloc, memCopy]

/-- The relations of what instructions do that are no calls. -/
def Relation.ofOthers : List Relation :=
  [load, store, phi, move, memoryObject, objectType, addressOf, elementAddr, unknownSource]

/-- Calls alone are described in relations of their own. -/
theorem Instr.allRelations_subset_or (i : Instr) :
    i.allRelations ⊆ Relation.ofOthers ∨ ∃ call, i = .invoke call := by
  cases i with
  | invoke call => exact .inr ⟨call, rfl⟩
  | cast dest op ty value =>
    left
    cases op <;> simp [allRelations, relations, guardedRelations, plainRelations, Relation.ofOthers]
  | _ =>
    exact .inl (by
      simp [allRelations, relations, guardedRelations, plainRelations, Relation.ofOthers])

/-- The ways in which a call is described. -/
inductive Setup.CallAccount (s : Setup) (scope : Scope) (place : Place) (call : Invoke) :
    List Step → Prop
  | general : s.models.resolve (.new s.unit place call) = .ok none →
      s.CallAccount scope place call (s.generalCallSteps scope (.instruction place) call)
  | allocation (model : String) : s.CallAccount scope place call
      [.remark (.handled (.instruction place) model),
        .row ⟨.heapAlloc, [Value.instruction place, ObjectRef.affiliated (.instruction place) 1]⟩,
        .row ⟨.memoryObject, [ObjectRef.affiliated (.instruction place) 1, "heap"]⟩,
        .row ⟨.addressOf, [Value.instruction place, ObjectRef.affiliated (.instruction place) 1]⟩]
  | copy (model : String) (destination source : ObjectRef) : s.CallAccount scope place call
      (.remark (.handled (.instruction place) model) ::
        .row ⟨.memCopy, [Value.instruction place, destination, source]⟩ ::
        if call.dest.isSome then [.row ⟨.move, [Value.instruction place, destination]⟩] else [])

/-- A copy of memory has a destination and a source. -/
theorem CallModel.exists_args_of_recognize {site : CallSite} {k : Nat}
    (h : memoryCopy.recognize site = some k) :
    ∃ destination source rest, site.invoke.args = destination :: source :: rest := by
  simp only [memoryCopy] at h
  split at h
  · have hlength := (Option.ite_none_right_eq_some.1 h).1
    simp only [Bool.and_eq_true, decide_eq_true_eq] at hlength
    rcases hargs : site.invoke.args with _ | ⟨destination, _ | ⟨source, rest⟩⟩
    · simp [hargs] at hlength
    · simp [hargs] at hlength
    · exact ⟨destination, source, rest, rfl⟩
  · cases h

namespace Setup

variable {s : Setup} {e : Emission} {scope : Scope} {self : Value} {place : Place} {call : Invoke}
  {steps : List Step}

theorem generalCallSteps_eq :
    s.generalCallSteps scope self call =
      [.row ⟨.call, [self, scope.object s.unit call.function]⟩] ++
        ((call.args.zipIdx.flatMap fun a =>
          scope.ifPointer s.unit a.1 [⟨.callArg, [self, a.2, scope.object s.unit a.1]⟩]) ++
        call.ty.toList.map fun ty => .ifPointer (.named ty) [⟨.callReturn, [self]⟩]) := by
  unfold generalCallSteps
  cases call.ty <;> rfl

theorem avoids_arguments {name : String} (hname : Relation.callArg.name ≠ name) :
    ∀ st ∈ call.args.zipIdx.flatMap fun a =>
      scope.ifPointer s.unit a.1 [⟨.callArg, [self, a.2, scope.object s.unit a.1]⟩],
      st.Avoids name := by
  intro st hst
  obtain ⟨a, -, hst⟩ := List.mem_flatMap.1 hst
  obtain ⟨ty, -, rfl⟩ := mem_ifPointer_iff.1 hst
  exact Step.avoids_ifPointer.2 (List.forall_mem_singleton.2 hname)

/-- The general account names the callee once. -/
theorem said_call :
    (s.generalCallSteps scope self call).flatMap (Step.said e "call") =
      [⟨.call, [self, scope.object s.unit call.function]⟩] := by
  have hresult : ∀ st ∈ call.ty.toList.map fun ty =>
      Step.ifPointer (.named ty) [⟨.callReturn, [self]⟩], st.Avoids "call" := by
    simp [Relation.callReturn]
  rw [generalCallSteps_eq, List.flatMap_append, List.flatMap_append,
    Step.flatMap_said_eq_nil (avoids_arguments (by decide)), Step.flatMap_said_eq_nil hresult]
  rfl

/-- The general account says nothing in a relation that is not for it. -/
theorem avoids_of_mem_generalCallSteps {name : String}
    (hname : name ∉ [Relation.call, .callArg, .callReturn].map Relation.name) :
    ∀ st ∈ s.generalCallSteps scope self call, st.Avoids name := by
  simp only [List.map_cons, List.map_nil, List.mem_cons, List.not_mem_nil, or_false,
    not_or] at hname
  obtain ⟨hcall, harg, hreturn⟩ := hname
  rw [generalCallSteps_eq]
  simp only [List.forall_mem_append, List.forall_mem_cons, List.forall_mem_map]
  refine ⟨⟨Step.avoids_row.2 (Ne.symm hcall), by simp⟩, avoids_arguments (Ne.symm harg),
    fun ty _ => ?_⟩
  exact Step.avoids_ifPointer.2 (List.forall_mem_singleton.2 (Ne.symm hreturn))

/-- An account of a call has one row that says how the call is described. -/
theorem CallAccount.length_eq_one (h : s.CallAccount scope place call steps) :
    ((Relation.ofCalls.map Relation.name).flatMap fun name =>
      steps.flatMap (Step.said e name)).length = 1 := by
  cases h with
  | general _ =>
    have hother : ∀ name ∈ ["heap_alloc", "mem_copy"],
        (s.generalCallSteps scope (.instruction place) call).flatMap (Step.said e name) = [] := by
      have hnames : ∀ name ∈ ["heap_alloc", "mem_copy"],
          name ∉ [Relation.call, .callArg, .callReturn].map Relation.name := by decide
      exact fun name hname =>
        Step.flatMap_said_eq_nil (avoids_of_mem_generalCallSteps (hnames name hname))
    simp [Relation.ofCalls, Relation.call, Relation.heapAlloc, Relation.memCopy, said_call,
      hother]
  | allocation model =>
    simp [Relation.ofCalls, Step.said, Step.rowsIn, Relation.call, Relation.heapAlloc,
      Relation.memCopy, Relation.memoryObject, Relation.addressOf]
  | copy model destination source =>
    cases call.dest <;>
      simp [Relation.ofCalls, Step.said, Step.rowsIn, Relation.call, Relation.heapAlloc,
        Relation.memCopy, Relation.move]

/-- Only the general account says what goes in and out. -/
theorem CallAccount.resolve_of_mem (h : s.CallAccount scope place call steps) {name : String}
    (hname : name ∈ ["call_arg", "call_return"]) {r : Row}
    (hr : r ∈ steps.flatMap (Step.said e name)) :
    s.models.resolve (.new s.unit place call) = .ok none := by
  have hother : ∀ name ∈ ["call_arg", "call_return"],
      name ∉ Relation.ofModels.map Relation.name := by decide
  have hnames := hother name hname
  simp only [Relation.ofModels, List.map_cons, List.map_nil, List.mem_cons, List.not_mem_nil,
    or_false, not_or] at hnames
  obtain ⟨halloc, hmemory, haddress, hcopy, hmove⟩ := hnames
  cases h with
  | general hresolve => exact hresolve
  | allocation model =>
    refine absurd ?_ (Step.not_avoids_of_mem_said hr)
    simp [Ne.symm halloc, Ne.symm hmemory, Ne.symm haddress]
  | copy model destination source =>
    refine absurd ?_ (Step.not_avoids_of_mem_said hr)
    cases call.dest <;> simp [Ne.symm hcopy, Ne.symm hmove]

end Setup

namespace Extractor

variable {x : Extractor} {types : TypeTable} {place : Place} {call : Invoke}

namespace Finished

/-- The account of a call is that of the model which takes it over, or the general one. -/
theorem effectSteps_call (hx : x.Finished types)
    (hi : x.setup.unit.instruction? place = some (.invoke call)) {answer : Option (Nat × Nat)}
    (hresolve : x.setup.models.resolve (.new x.setup.unit place call) = .ok answer)
    (scope : Scope) :
    x.setup.effectSteps x.matched scope place (.invoke call) = x.setup.accountOf scope place call
      ((answer.map Prod.fst).bind fun position => x.setup.models.models[position]?) := by
  obtain ⟨f, l, k⟩ := place
  obtain ⟨function, b, hinstr, hlabel⟩ := (Module.instruction?_eq_some_iff hx.labelled).1 hi
  obtain rfl : b.label = l := hlabel
  rw [Setup.effectSteps, Setup.callSteps_eq_accountOf,
    hx.registered.lookup_matched hx.labelled hinstr hresolve]

/-- Every call is described in one of the three ways. -/
theorem callAccount (hx : x.Finished types)
    (hi : x.setup.unit.instruction? place = some (.invoke call)) (scope : Scope) :
    x.setup.CallAccount scope place call
      (x.setup.effectSteps x.matched scope place (.invoke call)) := by
  obtain ⟨function, b, hinstr, hlabel⟩ := (Module.instruction?_eq_some_iff hx.labelled).1 hi
  obtain ⟨answer, hresolve⟩ := exists_resolve_of_new hx.created hinstr
  rw [hlabel] at hresolve
  rw [hx.effectSteps_call hi hresolve]
  rcases answer with _ | ⟨position, count⟩
  · exact .general hresolve
  · obtain ⟨model, hmodel, hrecognize⟩ := Setup.recognize_of_resolve hresolve
    simp only [Option.map_some, Option.bind_some, hmodel]
    rcases hx.bundled model (List.mem_of_getElem? hmodel) with ⟨symbols, rfl⟩ | rfl
    · exact .allocation _
    · obtain ⟨destination, source, rest, hargs⟩ := CallModel.exists_args_of_recognize hrecognize
      have hsteps : x.setup.CallAccount scope place call _ :=
        .copy "memory_copy" (scope.object x.setup.unit destination)
          (scope.object x.setup.unit source)
      have hcall : call.args = destination :: source :: rest := hargs
      simp only [Setup.accountOf, CallModel.memoryCopy, hcall, List.map_cons, CallSite.new]
      cases hdest : call.dest <;> simpa [hdest] using hsteps

/-- A call that no model takes over is named with its callee. -/
theorem occurs_call (hx : x.Finished types)
    (hi : x.setup.unit.instruction? place = some (.invoke call))
    (hresolve : x.setup.models.resolve (.new x.setup.unit place call) = .ok none) {id : ObjectId}
    (hid : x.objects.idOf (.instruction place) = .ok id) :
    (x.generate types (.new .standard)).store.Occurs "call" 0 id := by
  obtain ⟨function, b, id', -, hid', hfacts⟩ := hx.exists_factsAbout hi
  obtain rfl : id' = id := Except.ok.inj (hid'.symm.trans hid)
  have hrows : x.rowsOf types "call" ⟨place, function, .invoke call⟩ =
      [⟨.call, [Value.instruction place,
        (Scope.new place.function function).object x.setup.unit call.function]⟩] := by
    rw [rowsOf, Setup.effectsOf, hx.effectSteps_call hi hresolve]
    exact Setup.said_call
  have hcall := hfacts "call" (by decide)
  rw [hrows] at hcall
  obtain ⟨fact, hfact, -⟩ := exists_right_of_mem_left hcall List.mem_cons_self
  obtain ⟨hmem, hhead⟩ := List.mem_filter.1 hfact
  rw [decide_eq_true_eq, List.head?_eq_getElem?] at hhead
  exact ⟨fact, hmem, hhead⟩

/-- Only calls have rows that say how they are described, or what goes in and out. -/
theorem exists_invoke_of_mem_rowsOf (hx : x.Finished types) {name : String}
    (hname : name ∈ (.callArg :: .callReturn :: Relation.ofCalls).map Relation.name)
    {o : Occurrence} {r : Row} (hr : r ∈ x.rowsOf types name o) :
    ∃ call, o.instr = .invoke call := by
  have hother : ∀ name ∈ (.callArg :: .callReturn :: Relation.ofCalls).map Relation.name,
      name ∉ Relation.ofOthers.map Relation.name := by decide
  rcases o.instr.allRelations_subset_or with hsub | hcall
  · refine absurd (fun st hst => ?_) (Step.not_avoids_of_mem_said hr)
    exact (((Setup.mem_effectSteps_iff.1 hst).describes hx.bundled).mono hsub fun _ => id).avoids
      (hother name hname)
  · exact hcall

/-- What is said of calls alone is said of a call of the module. -/
theorem exists_call_of_mem (hx : x.Finished types) {name : String}
    (hname : name ∈ (.callArg :: .callReturn :: Relation.ofCalls).map Relation.name) {fact : Fact}
    (hfact : fact ∈ (x.generate types (.new .standard)).store.relation name) :
    ∃ place call function id r, x.setup.unit.instruction? place = some (.invoke call) ∧
      x.objects.idOf (.instruction place) = .ok id ∧ fact.head? = some (.object id) ∧
      r ∈ x.rowsOf types name ⟨place, function, .invoke call⟩ := by
  have hrelations : ∀ name ∈ (.callArg :: .callReturn :: Relation.ofCalls).map Relation.name,
      name ∉ Relation.ofStructure.map Relation.name ∧
        name ∉ Relation.ofInstrs.map Relation.name ∧
        name ∉ Relation.ofConstants.map Relation.name ∧
        name ∉ Relation.withoutSubject.map Relation.name := by decide
  obtain ⟨hstructure, hinstrs, hconstants, hsubject⟩ := hrelations name hname
  obtain ⟨r, hr, hbecomes⟩ := exists_left_of_mem_right
    (forall₂_rowsOf hx.bundled hx.outcome hstructure hinstrs hconstants) hfact
  obtain ⟨⟨place, function, i⟩, ho, hr⟩ := List.mem_flatMap.1 hr
  obtain ⟨call, rfl⟩ := hx.exists_invoke_of_mem_rowsOf hname hr
  obtain ⟨id, hid, hhead⟩ := hbecomes.head?_of_subject?
    (subject?_of_mem_rowsOf hx.bundled hsubject hr)
  obtain ⟨b, hinstr, hlabel⟩ := Module.mem_occurrences_iff.1 ho
  exact ⟨place, call, function, id, r,
    (Module.instruction?_eq_some_iff hx.labelled).2 ⟨function, b, hinstr, hlabel⟩, hid, hhead, hr⟩

end Finished

/-! ## Facts about calls -/

/-- Every call is described in exactly one way. -/
structure CallsOnce (x : Extractor) (types : TypeTable) : Prop where
  /-- A call has one fact in the relations that say how calls are described. -/
  once : ∀ place call, x.setup.unit.instruction? place = some (.invoke call) →
    ∃ id, x.objects.idOf (.instruction place) = .ok id ∧
      (["call", "heap_alloc", "mem_copy"].flatMap fun name =>
        x.factsAbout types name id).length = 1
  /-- Nothing else has such facts. -/
  calls : ∀ name ∈ ["call", "heap_alloc", "mem_copy"],
    ∀ fact ∈ (x.generate types (.new .standard)).store.relation name, ∃ place call id,
      x.setup.unit.instruction? place = some (.invoke call) ∧
        x.objects.idOf (.instruction place) = .ok id ∧ fact.head? = some (.object id)
  /-- Arguments and results are those of calls with a callee. -/
  details : ∀ name ∈ ["call_arg", "call_return"],
    ∀ fact ∈ (x.generate types (.new .standard)).store.relation name, ∃ id,
      fact.head? = some (.object id) ∧
        (x.generate types (.new .standard)).store.Occurs "call" 0 id

/-- In a description that succeeds, every call is described in exactly one way, whatever models
of those that are always there recognise it and whatever policy decides between them. -/
theorem callsOnce_of_generate {s : Setup} (hl : s.unit.Labelled) (hb : s.models.Bundled)
    (hnew : (Extractor.new s).1 = .ok x)
    (hok : (x.generate types (.new .standard)).outcome = .ok ()) : x.CallsOnce types := by
  obtain ⟨rfl, -⟩ := registered_of_new hl hnew
  have hx : x.Finished types := ⟨⟨hnew, hb, hok⟩, hl⟩
  constructor
  · intro place call hi
    obtain ⟨function, b, id, -, hid, hfacts⟩ := hx.exists_factsAbout hi
    have hlength : ∀ name ∈ Relation.ofCalls.map Relation.name,
        (x.factsAbout types name id).length =
          (x.rowsOf types name ⟨place, function, .invoke call⟩).length := by
      intro name hname
      have hbeyond : ∀ name ∈ Relation.ofCalls.map Relation.name,
          name ∉ (Relation.ofInstrs ++ Relation.withoutSubject).map Relation.name := by decide
      exact (hfacts name (hbeyond name hname)).length_eq.symm
    refine ⟨id, hid, ?_⟩
    change ((Relation.ofCalls.map Relation.name).flatMap fun name =>
      x.factsAbout types name id).length = 1
    rw [List.length_flatMap, List.map_congr_left hlength, ← List.length_flatMap]
    exact (hx.callAccount hi _).length_eq_one
  · intro name hname fact hfact
    obtain ⟨place, call, -, id, -, hi, hid, hhead, -⟩ :=
      hx.exists_call_of_mem (List.mem_cons_of_mem _ (List.mem_cons_of_mem _ hname)) hfact
    exact ⟨place, call, id, hi, hid, hhead⟩
  · intro name hname fact hfact
    have hcall : ∀ name ∈ ["call_arg", "call_return"],
        name ∈ (.callArg :: .callReturn :: Relation.ofCalls).map Relation.name := by decide
    obtain ⟨place, call, function, id, r, hi, hid, hhead, hr⟩ :=
      hx.exists_call_of_mem (hcall name hname) hfact
    have hresolve := (hx.callAccount hi _).resolve_of_mem hname hr
    exact ⟨id, hhead, hx.occurs_call hi hresolve hid⟩

/-- Calls to one function and through a pointer. Both models know the name of the function, and
the one for copies comes first but wants two arguments. -/
def calling : Setup where
  unit :=
    { name := "m"
      globals := []
      functions :=
        [.declare "memcpy" [(⟨0⟩, ⟨0⟩)] (some ⟨0⟩),
          .define "main" [(⟨0⟩, ⟨0⟩)] none
            [⟨.entry,
              [.invoke ⟨.imm ⟨2⟩, [.reg ⟨0⟩, .reg ⟨0⟩], some ⟨1⟩, some ⟨0⟩⟩,
                .invoke ⟨.imm ⟨2⟩, [.reg ⟨1⟩], some ⟨2⟩, some ⟨0⟩⟩,
                .invoke ⟨.reg ⟨2⟩, [.reg ⟨0⟩], some ⟨3⟩, some ⟨0⟩⟩],
              .ret none⟩]]
      constants := Module.fewConstants }
  config := .default
  models := ⟨.firstMatch, [.memoryCopy, .heapAllocator ["memcpy"]]⟩

theorem calling_callsOnce :
    calling.unit.Labelled ∧ calling.models.Bundled ∧ ∃ x, (Extractor.new calling).1 = .ok x ∧
      (x.generate (TypeTable.empty.intern .ptr).2 (.new .standard)).outcome = .ok () ∧
      (["call", "heap_alloc", "mem_copy", "call_return"].map fun name =>
        ((x.generate (TypeTable.empty.intern .ptr).2 (.new .standard)).store.relation name).map
          List.head?) =
        [[some (.object ⟨10⟩)], [some (.object ⟨8⟩)], [some (.object ⟨7⟩)],
          [some (.object ⟨10⟩)]] ∧
      x.CallsOnce (TypeTable.empty.intern .ptr).2 := by
  have hl : calling.unit.Labelled := by
    unfold Module.Labelled Function.Labelled
    decide
  have hb : calling.models.Bundled := by simp [CallModels.Bundled, calling]
  have hnew : ∃ x, (Extractor.new calling).1 = .ok x ∧
      (x.generate (TypeTable.empty.intern .ptr).2 (.new .standard)).outcome = .ok () ∧
      (["call", "heap_alloc", "mem_copy", "call_return"].map fun name =>
        ((x.generate (TypeTable.empty.intern .ptr).2 (.new .standard)).store.relation name).map
          List.head?) =
        [[some (.object ⟨10⟩)], [some (.object ⟨8⟩)], [some (.object ⟨7⟩)],
          [some (.object ⟨10⟩)]] := ⟨_, rfl, by decide +kernel⟩
  obtain ⟨x, hx, hok, hfacts⟩ := hnew
  exact ⟨hl, hb, x, hx, hok, hfacts, callsOnce_of_generate hl hb hx hok⟩

end Extractor

end PointsTo
