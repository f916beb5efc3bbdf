import Mathlib
import PointsTo.Proofs.PolicyRuns

/-!
# Free arguments

Arguments have ids in the order of the parameters, whatever else a module has. Under the policy
that admits all pointers, the free arguments are listed in this order: they are the arguments of
functions with a body that are pointers. Nothing else in a description depends on the policy.
-/

namespace PointsTo

/-! ## Arguments in id order -/

/-- A parameter of a function of a module. -/
structure Parameter where
  function : FunctionId
  definition : Function
  index : Nat
  ty : TypeId

/-- The argument that a parameter takes. -/
def Parameter.value (p : Parameter) : Value := .argument p.function p.index

def Value.isArgument : Value → Bool
  | .argument _ _ => true
  | _ => false

theorem Value.exists_of_isArgument {v : Value} (h : v.isArgument = true) :
    ∃ f k, v = .argument f k := by
  cases v with
  | argument f k => exact ⟨f, k, rfl⟩
  | _ => cases h

namespace Setup

variable {s : Setup} {matched : MatchedCalls} {e : Emission}

/-- The parameters of a module in order. -/
def parameters (s : Setup) : List Parameter :=
  s.unit.functionList.flatMap fun (f, function) =>
    function.params.zipIdx.map fun (p, k) => ⟨f, function, k, p.2⟩

theorem mem_parameters_iff {p : Parameter} :
    p ∈ s.parameters ↔ s.unit.function? p.function = some p.definition ∧
      (p.definition.params[p.index]?).map Prod.snd = some p.ty := by
  simp only [parameters, List.mem_flatMap, List.mem_map, Prod.exists,
    Module.mem_functionList_iff, List.mk_mem_zipIdx_iff_getElem?, Option.map_eq_some_iff]
  constructor
  · rintro ⟨f, function, hf, register, ty, k, hk, rfl⟩
    exact ⟨hf, register, ty, hk, rfl⟩
  · rintro ⟨hf, register, ty, hk, rfl⟩
    exact ⟨_, _, hf, register, _, _, hk, rfl⟩

theorem nodup_parameters (s : Setup) : (s.parameters.map Parameter.value).Nodup := by
  rw [parameters, List.map_flatMap]
  refine nodup_flatMap_of_key Value.home? (fun e => some e.1) ?_ ?_ ?_
  · simpa [Function.comp_def] using s.unit.nodup_functionList.map (Option.some_injective _)
  · intro e _ v hv
    rw [List.map_map] at hv
    obtain ⟨q, -, rfl⟩ := List.mem_map.1 hv
    rfl
  · intro e _
    rw [List.map_map]
    exact nodup_map_zipIdx (Value.argument e.1) (fun _ _ h => by simpa using h) _

theorem filter_bodyParts (s : Setup) :
    (s.bodyParts.map Prod.fst).filter Value.isArgument = s.parameters.map Parameter.value := by
  have hblock (f : FunctionId) (b : Block) :
      ((s.blockParts f b).map Prod.fst).filter Value.isArgument = [] := by
    rw [List.filter_eq_nil_iff]
    intro v hv hargument
    obtain ⟨_, _, rfl⟩ := Value.exists_of_isArgument hargument
    cases (mem_blockParts hv).2
  rw [bodyParts, parameters, List.map_flatMap, List.map_flatMap, List.filter_flatMap]
  refine List.flatMap_congr fun e _ => ?_
  change ((s.functionParts e.1 e.2).map Prod.fst).filter Value.isArgument = _
  rw [functionParts, List.map_append, List.filter_append, List.map_flatMap, List.filter_flatMap,
    List.flatMap_eq_nil_iff.2 fun b _ => hblock e.1 b, List.append_nil, List.map_map, List.map_map]
  exact List.filter_eq_self.2 fun v hv => by
    obtain ⟨q, -, rfl⟩ := List.mem_map.1 hv
    rfl

/-- The rows about free arguments, by the pieces of an outline. -/
def freePieces (s : Setup) (e : Emission) : Pieces Row where
  preamble := []
  global _ := []
  function f function := ((function.params.zipIdx.map fun (p, k) =>
    (⟨f, function, k, p.2⟩ : Parameter)).filter fun p =>
      s.config.freeArguments.admits p.definition && e.holds (.named p.ty)).map fun p =>
        ⟨.freeArgument, [p.value]⟩
  block _ _ := []
  instr _ _ := []
  terminator _ _ := []

theorem all_freePieces (s : Setup) (e : Emission) : (s.freePieces e).all s.unit =
    (s.parameters.filter fun p => s.config.freeArguments.admits p.definition &&
      e.holds (.named p.ty)).map fun p => ⟨.freeArgument, [p.value]⟩ := by
  rw [Pieces.all_of_blocks_nil _ (fun _ _ => rfl) (fun _ _ => rfl) fun _ _ => rfl]
  simp [freePieces, parameters, List.filter_flatMap, List.map_flatMap]

theorem said_argumentSteps (f : FunctionId) (function : Function) (k : Nat) (ty : TypeId) :
    (s.argumentSteps f function k ty).flatMap (Step.said e "free_argument") =
      if s.config.freeArguments.admits function && e.holds (.named ty)
        then [⟨.freeArgument, [Value.argument f k]⟩] else [] := by
  have hhead : ∀ st ∈ [Step.row ⟨.argument, [Value.function f, k, Value.argument f k]⟩,
      .typed (.argument f k) (.named ty)], st.Avoids "free_argument" := by
    simp [Relation.argument, Relation.valueType, Relation.pointerValue]
  have hname : Relation.freeArgument.name = "free_argument" := rfl
  have hsteps : s.argumentSteps f function k ty =
      [.row ⟨.argument, [Value.function f, k, Value.argument f k]⟩,
        .typed (.argument f k) (.named ty)] ++
      if s.config.freeArguments.admits function
        then [.ifPointer (.named ty) [⟨.freeArgument, [Value.argument f k]⟩]] else [] := rfl
  rw [hsteps, List.flatMap_append, Step.flatMap_said_eq_nil hhead, List.nil_append]
  cases s.config.freeArguments.admits function with
  | false => rfl
  | true => cases hholds : e.holds (.named ty) <;> simp [Step.said, Step.rowsIn, hholds, hname]

theorem said_functionHead (f : FunctionId) (function : Function) :
    (s.functionHead f function).flatMap (Step.said e "free_argument") =
      (s.freePieces e).function f function := by
  have hself : ∀ st ∈ [Step.row ⟨.function, [Value.function f, function.name]⟩,
      .row ⟨.memoryObject, [Value.function f, "function"]⟩,
      .row ⟨.addressOf, [Value.function f, Value.function f]⟩,
      .typed (.function f) .pointer], st.Avoids "free_argument" := by
    simp [Relation.function, Relation.memoryObject, Relation.addressOf, Relation.valueType,
      Relation.pointerValue]
  have hbody : ∀ st ∈ if function.isDeclaration
      then [Step.row ⟨.functionDecl, [Value.function f]⟩]
      else .remark (.emitting function.name function.body.size) ::
        .row ⟨.functionEntry, [Value.function f, Value.block f .entry]⟩ ::
        ((Scope.new f function).names.filterMap fun q => q.2.2.map .intern),
      st.Avoids "free_argument" := by
    split
    · simp [Relation.functionDecl]
    · simp only [List.forall_mem_cons, List.forall_mem_filterMap]
      refine ⟨Step.avoids_remark, Step.avoids_row.2 (by simp [Relation.functionEntry]), ?_⟩
      intro q _ st hst
      obtain ⟨ty, -, rfl⟩ := Option.map_eq_some_iff.1 hst
      exact Step.avoids_intern
  rw [functionHead, List.flatMap_append, List.flatMap_append, Step.flatMap_said_eq_nil hself,
    Step.flatMap_said_eq_nil hbody, List.nil_append, List.append_nil, List.flatMap_assoc]
  simp only [freePieces, List.filter_map, List.map_map]
  exact (List.flatMap_congr fun q _ => said_argumentSteps f function q.2 q.1.2).trans
    (flatMap_ite_singleton _ _ _)

/-- The rows that say which arguments are free. -/
theorem said_free (hb : s.models.Bundled) :
    (s.plan matched).flatMap (Step.said e "free_argument") =
      (s.parameters.filter fun p => s.config.freeArguments.admits p.definition &&
        e.holds (.named p.ty)).map fun p => ⟨.freeArgument, [p.value]⟩ := by
  have hnone {steps : List Step} (h : ∀ st ∈ steps, st.Avoids "free_argument") :
      steps.flatMap (Step.said e "free_argument") = [] := Step.flatMap_said_eq_nil h
  rw [flatMap_plan_outline fun _ _ h => (h.describes.avoids (by decide)).said_eq_nil,
    ← all_freePieces]
  refine (piecewise_flatMap _).outline (s.freePieces e)
    (hnone fun st hst => (mem_preamble_iff.1 hst).describes.avoids (by decide))
    (fun g global _ =>
      hnone fun st hst => (mem_globalOutline_iff.1 hst).describes.avoids (by decide))
    (fun f function _ => said_functionHead f function) (fun f label => rfl)
    (fun _ => hnone fun st hst => ?instr)
    fun _ => hnone fun st hst => (mem_terminatorOutline_iff.1 hst).describes.avoids (by decide)
  rcases List.mem_append.1 hst with hst | hst
  · exact (mem_instrHead_iff.1 hst).describes.avoids (by decide)
  · exact (mem_effectSteps_iff.1 hst).avoids (by decide) (hb.write_ne (by decide))

end Setup

namespace Extractor

variable {s : Setup} {x : Extractor}

/-- Arguments have ids in the order of the parameters. -/
theorem idsOf_arguments (h : (Extractor.new s).1 = .ok x) :
    x.objects.Blocks ∧ (x.objects.idsOf Value.isArgument).map Except.ok =
      (s.parameters.map Parameter.value).map x.objects.idOf := by
  obtain ⟨hverify, r, hr, rfl⟩ := exists_settle_of_new h
  obtain ⟨calls, hobjects, hparts, -, -⟩ := settle_requests (Module.verify_eq_ok_iff.1 hverify) hr
  have hblocks : r.objects.Blocks := by
    rw [hobjects]
    exact (ObjectTable.blocks_new _).registerAll _
  have hsymbols : (s.symbolParts.map Prod.fst).filter Value.isArgument = [] := by
    rw [List.filter_eq_nil_iff]
    intro v hv hargument
    obtain ⟨_, _, rfl⟩ := Value.exists_of_isArgument hargument
    cases (Setup.mem_symbolParts hv).1
  have hcalls : (calls.map Prod.fst).filter Value.isArgument =
      s.parameters.map Parameter.value := by
    rw [← s.filter_bodyParts, ← hparts, List.filter_map, List.filter_map, List.filter_filter]
    refine congrArg _ (List.filter_congr fun call _ => ?_)
    obtain ⟨v, k⟩ := call
    cases v <;> rfl
  have hvalues : ((s.symbolParts ++ calls).map Prod.fst).filter Value.isArgument =
      s.parameters.map Parameter.value := by
    rw [List.map_append, List.filter_append, hsymbols, hcalls, List.nil_append]
  have howners : (r.objects.owners.map Prod.fst).filter Value.isArgument =
      s.parameters.map Parameter.value := by
    rw [hobjects, ObjectTable.filter_owners_registerAll (hvalues ▸ s.nodup_parameters)
      fun _ _ => rfl, hvalues, ObjectTable.owners_new]
    rfl
  refine ⟨hblocks, ?_⟩
  rw [hblocks.idsOf_eq, howners]

/-- A value of an argument's type is a pointer if the type holds one. -/
theorem mem_pointerValue_argument_iff {types : TypeTable} (hb : x.setup.models.Bundled)
    (hblocks : x.objects.Blocks) (hok : (x.generate types (.new .standard)).outcome = .ok ())
    {p : Parameter} (hp : p ∈ x.setup.parameters) {id : ObjectId}
    (hid : x.objects.idOf p.value = .ok id) :
    [.object id] ∈ (x.generate types (.new .standard)).store.relation "pointer_value" ↔
      (x.run types (.new .standard)).state.holds (.named p.ty) = true := by
  obtain ⟨hf, hty⟩ := Setup.mem_parameters_iff.1 hp
  obtain ⟨param, hparam, hty⟩ := Option.map_eq_some_iff.1 hty
  rw [mem_pointerValue_iff hb hok]
  constructor
  · rintro ⟨v, ty, htyped, hholds, hv⟩
    obtain rfl := hblocks.eq_of_idOf hv hid
    cases htyped with
    | argument hf' hparam' =>
      rw [Module.mem_functionList_iff, hf] at hf'
      cases hf'
      rw [hparam] at hparam'
      cases hparam'
      rwa [← hty]
  · intro hholds
    refine ⟨p.value, .named p.ty, ?_, hholds, hid⟩
    rw [← hty]
    exact .argument (Module.mem_functionList_iff.2 hf) hparam

/-- Free arguments are listed in id order and once each, and are the arguments of functions
with a body that are pointers. -/
structure ListsFree (x : Extractor) (types : TypeTable) (ids : List ObjectId) : Prop where
  facts : (x.generate types (.new .standard)).store.relation "free_argument" =
    ids.map fun id => [.object id]
  increasing : ids.Pairwise fun a b => a.index < b.index
  mem_iff : ∀ id, id ∈ ids ↔
    ∃ f function k, x.setup.unit.function? f = some function ∧ function.isDeclaration = false ∧
      k < function.params.length ∧ x.objects.idOf (.argument f k) = .ok id ∧
        [.object id] ∈ (x.generate types (.new .standard)).store.relation "pointer_value"

theorem exists_ids_of_becomes {x : Extractor} {store : FactStore} {l : List Parameter}
    {facts : List Fact}
    (h : List.Forall₂ (Row.Becomes ⟨x.objects, store⟩)
      (l.map fun p => ⟨.freeArgument, [p.value]⟩) facts) :
    ∃ ids : List ObjectId, facts = (ids.map fun id => [.object id]) ∧
      ids.map Except.ok = l.map fun p => x.objects.idOf p.value := by
  induction l generalizing facts with
  | nil =>
    cases h
    exact ⟨[], rfl, rfl⟩
  | cons p l ih =>
    rcases h with _ | ⟨hp, hl⟩
    obtain ⟨id, hid, rfl⟩ := hp.eq_object
    obtain ⟨ids, rfl, hids⟩ := ih hl
    refine ⟨id :: ids, rfl, ?_⟩
    rw [List.map_cons, List.map_cons, hids, ObjectRef.resolve_value_eq_ok_iff.1 hid]

theorem listsFree_of_allPointers {types : TypeTable} (h : (Extractor.new s).1 = .ok x)
    (hb : s.models.Bundled) (hall : s.config.freeArguments = .allPointers)
    (hok : (x.generate types (.new .standard)).outcome = .ok ()) :
    ∃ ids, x.ListsFree types ids := by
  obtain ⟨hblocks, hids⟩ := idsOf_arguments h
  obtain rfl := setup_of_new h
  have hfacts := forall₂_said hb hok "free_argument"
  rw [Setup.said_free hb] at hfacts
  obtain ⟨ids, hrelation, hfree⟩ := exists_ids_of_becomes hfacts
  refine ⟨ids, hrelation, ?_, fun id => ?_⟩
  · have hsub : (ids.map (Except.ok : ObjectId → Except (ObjectError Value) ObjectId)).Sublist
        ((x.objects.idsOf Value.isArgument).map Except.ok) := by
      rw [hfree, hids, List.map_map]
      exact List.filter_sublist.map _
    obtain ⟨ids', hsub, heq⟩ := List.sublist_map_iff.1 hsub
    obtain rfl := List.map_injective_iff.2 (fun _ _ => Except.ok.inj) heq
    exact (x.objects.idsOf_pairwise _).sublist hsub
  · have hmem : id ∈ ids ↔ ∃ p ∈ x.setup.parameters, p.definition.isDeclaration = false ∧
        (x.run types (.new .standard)).state.holds (.named p.ty) = true ∧
          x.objects.idOf p.value = .ok id := by
      have hok : (Except.ok id : Except (ObjectError Value) ObjectId) ∈ ids.map Except.ok ↔
          id ∈ ids := List.mem_map_of_injective fun _ _ => Except.ok.inj
      rw [← hok, hfree]
      simp [hall, FreeArguments.admits, and_assoc]
    rw [hmem]
    constructor
    · rintro ⟨p, hp, hbody, hholds, hid⟩
      obtain ⟨hf, hty⟩ := Setup.mem_parameters_iff.1 hp
      obtain ⟨param, hparam, -⟩ := Option.map_eq_some_iff.1 hty
      exact ⟨p.function, p.definition, p.index, hf, hbody, (List.getElem?_eq_some_iff.1 hparam).1,
        hid, (mem_pointerValue_argument_iff hb hblocks hok hp hid).2 hholds⟩
    · rintro ⟨f, function, k, hf, hbody, hk, hid, hpointer⟩
      have hp : ⟨f, function, k, function.params[k].2⟩ ∈ x.setup.parameters :=
        Setup.mem_parameters_iff.2 ⟨hf, by simp [hk]⟩
      exact ⟨_, hp, hbody, (mem_pointerValue_argument_iff hb hblocks hok hp hid).1 hpointer, hid⟩

/-! ## The part of the policy -/

/-- The extractors have the same ids, and what they say of a module differs at most in free
arguments. -/
structure SameButFree (types : TypeTable) (x y : Extractor) : Prop where
  objects : x.objects = y.objects
  outcome : (x.generate types (.new .standard)).outcome =
    (y.generate types (.new .standard)).outcome
  facts : ∀ name, name ≠ "free_argument" →
    (x.generate types (.new .standard)).store.relation name =
      (y.generate types (.new .standard)).store.relation name

/-- The policy for free arguments decides about free arguments and nothing else, and a laxer
policy lists more of them. -/
theorem policy_decides_free_arguments (hb : s.models.Bundled) (types : TypeTable) :
    (∀ p q, Both (SameButFree types) Eq (Extractor.new (s.withPolicy p)).1
      (Extractor.new (s.withPolicy q)).1) ∧
    (∀ x, (Extractor.new (s.withPolicy .never)).1 = .ok x →
      (x.generate types (.new .standard)).store.relation "free_argument" = []) ∧
    (∀ x y, (Extractor.new (s.withPolicy .externallyVisible)).1 = .ok x →
      (Extractor.new (s.withPolicy .allPointers)).1 = .ok y →
      ((x.generate types (.new .standard)).store.relation "free_argument").Sublist
        ((y.generate types (.new .standard)).store.relation "free_argument")) ∧
    ∀ x, (Extractor.new (s.withPolicy .allPointers)).1 = .ok x →
      (x.generate types (.new .standard)).outcome = .ok () → ∃ ids, x.ListsFree types ids := by
  refine ⟨fun p q => ?_, fun x hx => ?_, fun x y hx hy => ?_, fun x hx hok => ?_⟩
  · rw [new_withPolicy, new_withPolicy]
    cases hnew : (Extractor.new s).1 with
    | error err => exact .error rfl
    | ok x =>
      have hbx : x.setup.models.Bundled := setup_of_new hnew ▸ hb
      exact .ok ⟨rfl, outcome_withPolicy hbx types p q, fun _ => relation_withPolicy hbx types p q⟩
  · have hsetup := setup_of_new hx
    exact relation_of_never (hsetup ▸ hb) (by rw [hsetup]; rfl)
  · rw [new_withPolicy] at hx hy
    cases hnew : (Extractor.new s).1 with
    | error err => simp [hnew, Except.map] at hx
    | ok z =>
      rw [hnew] at hx hy
      cases hx
      cases hy
      exact sublist_withPolicy (setup_of_new hnew ▸ hb)
        FreeArguments.externallyVisible_within_allPointers types
  · exact listsFree_of_allPointers hx hb rfl hok

/-- A function that can be called from elsewhere, one that cannot, and one that is only
declared. Each takes a pointer. -/
def passing : Setup where
  unit :=
    { name := "m"
      globals := []
      functions :=
        [.define "shown" [(⟨0⟩, ⟨0⟩)] none [⟨.entry, [], .ret none⟩],
          { Function.define "hidden" [(⟨0⟩, ⟨0⟩)] none [⟨.entry, [], .ret none⟩] with
            linkage := .internal },
          .declare "elsewhere" [(⟨0⟩, ⟨0⟩)] none]
      constants := .empty }
  config := .default
  models := .standard .default

def onlyPointers : TypeTable := (TypeTable.empty.intern .ptr).2

theorem policy_decides_free_arguments_of_passing :
    passing.models.Bundled ∧ ∃ x y z, (Extractor.new (passing.withPolicy .never)).1 = .ok x ∧
      (Extractor.new (passing.withPolicy .externallyVisible)).1 = .ok y ∧
      (Extractor.new (passing.withPolicy .allPointers)).1 = .ok z ∧
      (x.generate onlyPointers (.new .standard)).store.relation "free_argument" = [] ∧
      (y.generate onlyPointers (.new .standard)).store.relation "free_argument" =
        [[.object ⟨5⟩]] ∧
      (z.generate onlyPointers (.new .standard)).store.relation "free_argument" =
        [[.object ⟨5⟩], [.object ⟨8⟩]] ∧
      ∃ ids, z.ListsFree onlyPointers ids := by
  have hb : passing.models.Bundled := by simp [CallModels.Bundled, passing, CallModels.standard]
  have hnew : ∃ y z, (Extractor.new (passing.withPolicy .externallyVisible)).1 = .ok y ∧
      (Extractor.new (passing.withPolicy .allPointers)).1 = .ok z ∧
      (y.generate onlyPointers (.new .standard)).store.relation "free_argument" =
        [[.object ⟨5⟩]] ∧
      (z.generate onlyPointers (.new .standard)).store.relation "free_argument" =
        [[.object ⟨5⟩], [.object ⟨8⟩]] ∧
      (z.generate onlyPointers (.new .standard)).outcome = .ok () :=
    ⟨_, _, rfl, rfl, by decide +kernel⟩
  obtain ⟨y, z, hy, hz, hvisible, hpointers, hok⟩ := hnew
  obtain ⟨-, hnever, -, hall⟩ := policy_decides_free_arguments hb onlyPointers
  exact ⟨hb, _, y, z, rfl, hy, hz, hnever _ rfl, hvisible, hpointers, hall z hz hok⟩

end Extractor

end PointsTo
