import Mathlib
import PointsTo.Proofs.Parts

/-!
# What an extractor holds

A new extractor has checked its module. Its table holds the parts of the module and the
constants that the module refers to, each once and in order, and it remembers for each
call of the module the model that takes the call over.
-/

namespace PointsTo

/-! ## Matched calls -/

theorem lookup_eq_some_iff_mem {α β : Type} [DecidableEq α] {l : List (α × β)} {a : α} {b : β}
    (h : (l.map Prod.fst).Nodup) : l.lookup a = some b ↔ (a, b) ∈ l := by
  rw [List.lookup_eq_some_iff]
  constructor
  · rintro ⟨l₁, l₂, rfl, -⟩
    simp
  · intro hm
    obtain ⟨l₁, l₂, rfl⟩ := List.append_of_mem hm
    refine ⟨l₁, l₂, rfl, fun p hp => ?_⟩
    rw [List.map_append, List.map_cons, List.nodup_append] at h
    have hne := h.2.2 p.1 (List.mem_map_of_mem hp) a (by simp)
    simpa using hne.symm

/-- Calls at different places are all remembered. -/
theorem MatchedCalls.foldl_put {l l' : MatchedCalls} (h : ((l ++ l').map Prod.fst).Nodup) :
    l'.foldl put l = l ++ l' := by
  induction l' generalizing l with
  | nil => simp
  | cons e rest ih =>
    have hnew : l.filter (·.1 != e.1) = l := by
      rw [List.filter_eq_self]
      intro p hp
      rw [List.map_append, List.map_cons, List.nodup_append] at h
      simpa using h.2.2 p.1 (List.mem_map_of_mem hp) e.1 (by simp)
    rw [List.foldl_cons, put, hnew, ih (by simpa using h), List.append_assoc]
    rfl

namespace Setup

variable {s : Setup}

theorem hasInstr_of_call_mem {i : Place} {invoke : Invoke} (h : .call i invoke ∈ s.laterRequests) :
    ∃ function b, s.unit.HasInstr i.function function b (.invoke invoke) i.index ∧
      b.label = i.block := by
  simp only [laterRequests, constantRequests, functionRequests, List.cons_append, List.mem_append,
    List.mem_map, reduceCtorEq, and_false, exists_false, false_or, List.mem_flatMap,
    List.mem_cons] at h
  obtain ⟨⟨f, function⟩, hf, b, hb, hcall⟩ := h
  simp only [blockRequests, constantRequests, List.cons_append, List.mem_append, List.mem_cons,
    reduceCtorEq, false_or, List.mem_flatMap, List.mem_map, and_false, exists_false,
    or_false] at hcall
  obtain ⟨⟨instr, k⟩, hk, hcall⟩ := hcall
  simp only [instrRequests, constantRequests, List.mem_cons, List.mem_map, reduceCtorEq, and_false,
    exists_false, or_false] at hcall
  cases instr <;> simp only [instrRequest, reduceCtorEq, Request.call.injEq] at hcall
  obtain ⟨rfl, rfl⟩ := hcall
  exact ⟨function, b, ⟨⟨hf, hb⟩, hk⟩, rfl⟩

theorem call_mem_laterRequests {f : FunctionId} {function : Function} {b : Block}
    {invoke : Invoke} {k : Nat} (h : s.unit.HasInstr f function b (.invoke invoke) k) :
    .call ⟨f, b.label, k⟩ invoke ∈ s.laterRequests := by
  refine List.mem_append_right _ (List.mem_flatMap.2 ⟨_, h.mem_functionList, ?_⟩)
  refine List.mem_append_right _ (List.mem_flatMap.2 ⟨_, h.mem_blocks, ?_⟩)
  refine List.mem_append_left _ (List.mem_cons_of_mem _ (List.mem_flatMap.2 ⟨_, h.mem_instrs, ?_⟩))
  exact List.mem_cons_self

theorem matched_sublist (requests : List Request) :
    ((requests.filterMap (Request.matched? s)).map fun e => Value.instruction e.1).Sublist
      ((requests.flatMap (Request.part s)).map Prod.fst) := by
  induction requests with
  | nil => exact .slnil
  | cons q rest ih =>
    rw [List.flatMap_cons, List.map_append]
    cases hq : q.matched? s with
    | none =>
      rw [List.filterMap_cons_none hq]
      exact ih.trans (List.sublist_append_right _ _)
    | some e =>
      rw [List.filterMap_cons_some hq]
      have hpart : (q.part s).map Prod.fst = [.instruction e.1] := by
        cases q with
        | call i invoke =>
          obtain ⟨position, -, rfl⟩ := Option.map_eq_some_iff.1 hq
          rfl
        | enter function => cases hq
        | value v k => cases hq
        | constant c => cases hq
      rw [hpart]
      exact ih.cons_cons _

/-- The calls that models take over, by place. -/
def matchedCalls (s : Setup) : MatchedCalls := s.laterRequests.filterMap (Request.matched? s)

theorem nodup_matchedCalls (hl : s.unit.Labelled) : (s.matchedCalls.map Prod.fst).Nodup := by
  have hsub := matched_sublist (s := s) s.laterRequests
  rw [part_laterRequests] at hsub
  refine List.Nodup.of_map Value.instruction ?_
  rw [List.map_map]
  exact (nodup_bodyParts hl).sublist hsub

/-- For a call of the module, the model that takes it over is remembered. -/
theorem lookup_matchedCalls (hl : s.unit.Labelled) {f : FunctionId} {function : Function}
    {b : Block} {invoke : Invoke} {k : Nat}
    (h : s.unit.HasInstr f function b (.invoke invoke) k) :
    s.matchedCalls.lookup ⟨f, b.label, k⟩ = s.callModel? ⟨f, b.label, k⟩ invoke := by
  refine Option.ext fun position => ?_
  rw [lookup_eq_some_iff_mem (nodup_matchedCalls hl), matchedCalls, List.mem_filterMap]
  constructor
  · rintro ⟨q, hq, hmatched⟩
    cases q with
    | call i invoke' =>
      obtain ⟨position', hposition, heq⟩ := Option.map_eq_some_iff.1 hmatched
      obtain ⟨rfl, rfl⟩ := Prod.mk.inj heq
      -- Both calls stand at one place, so they are one call.
      obtain ⟨function', b', hinstr, hlabel⟩ := hasInstr_of_call_mem hq
      have hsame := hinstr.instruction? hl
      simp only [hlabel, h.instruction? hl, Option.some.injEq, Instr.invoke.injEq] at hsame
      rwa [← hsame] at hposition
    | enter function => cases hmatched
    | value v k => cases hmatched
    | constant c => cases hmatched
  · intro hposition
    exact ⟨_, call_mem_laterRequests h, by simp [Request.matched?, hposition]⟩

end Setup

/-! ## The table -/

/-- Registrations of constants and of other values, told apart, tell all apart. -/
theorem nodup_of_filters {calls : List (Value × Nat)}
    (hconst : ((calls.filter fun call => call.1.isConstant).map Prod.fst).Nodup)
    (hrest : ((calls.filter fun call => !call.1.isConstant).map Prod.fst).Nodup) :
    (calls.map Prod.fst).Nodup := by
  have hperm := (List.filter_append_perm (fun call : Value × Nat => call.1.isConstant) calls).map
    Prod.fst
  rw [← hperm.nodup_iff, List.map_append, List.nodup_append]
  refine ⟨hconst, hrest, fun v hv w hw hvw => ?_⟩
  obtain ⟨call, hcall, rfl⟩ := List.mem_map.1 hv
  obtain ⟨call', hcall', rfl⟩ := List.mem_map.1 hw
  have htrue := (List.mem_filter.1 hcall).2
  have hfalse := (List.mem_filter.1 hcall').2
  rw [← hvw, htrue] at hfalse
  cases hfalse

theorem nodup_constantCalls {marks : List Mark} (h : (marks.filterMap Mark.left?).Nodup) :
    ((constantCalls marks).map Prod.fst).Nodup := by
  rw [constantCalls, List.map_map]
  exact h.map fun _ _ heq => by simpa using heq

namespace Module

/-- A constant stands for itself or for a symbol of which the pool has the address. -/
theorem constantValue_cases (m : Module) (c : ConstId) :
    m.constantValue c = .constant c ∨
      (∃ e ∈ m.constants.entries, ∃ g, e.value = .globalAddr g ∧ m.constantValue c = .global g) ∨
        ∃ e ∈ m.constants.entries, ∃ f, e.value = .functionAddr f ∧
          m.constantValue c = .function f := by
  unfold constantValue
  split
  next g hg =>
    obtain ⟨e, he, hv⟩ := Option.map_eq_some_iff.1 hg
    exact .inr (.inl ⟨e, List.mem_of_getElem? he, g, hv, rfl⟩)
  next f hf =>
    obtain ⟨e, he, hv⟩ := Option.map_eq_some_iff.1 hf
    exact .inr (.inr ⟨e, List.mem_of_getElem? he, f, hv, rfl⟩)
  next => exact .inl rfl

end Module

namespace Setup

variable {s : Setup}

/-- If the symbols exist, constants stand for themselves or for a part of the module. -/
theorem constantValue_mem_symbolParts (hm : s.unit.SymbolsExist) {c : ConstId}
    (h : (s.unit.constantValue c).isConstant = false) :
    s.unit.constantValue c ∈ s.symbolParts.map Prod.fst := by
  rcases s.unit.constantValue_cases c with hc | ⟨e, he, g, hg, hc⟩ | ⟨e, he, f, hf, hc⟩
  · rw [hc] at h
    cases h
  · obtain ⟨global, hglobal⟩ := Option.isSome_iff_exists.1 (hm.global e he g hg)
    rw [hc]
    exact List.mem_map.2
      ⟨_, global_mem_symbolParts (Module.mem_globalList_iff.2 hglobal), rfl⟩
  · obtain ⟨function, hfunction⟩ := Option.isSome_iff_exists.1 (hm.function e he f hf)
    rw [hc]
    exact List.mem_map.2
      ⟨_, function_mem_symbolParts (Module.mem_functionList_iff.2 hfunction), rfl⟩

/-- Once the symbols have ids, the table is where a walk begins. -/
theorem follows_symbolParts (hm : s.unit.SymbolsExist) (special : Nat) :
    ((ObjectTable.new special).registerAll s.symbolParts).Follows s.unit [] where
  constants c := by
    have hnew : (ObjectTable.new special : ObjectTable Value).contains (.constant c) = false := rfl
    rw [ObjectTable.contains_registerAll, hnew]
    simp only [List.not_mem_nil, iff_false, Bool.false_eq_true, or_false]
    intro hc
    cases (mem_symbolParts hc).2
  symbols c hc := ObjectTable.contains_registerAll.2 (.inl (constantValue_mem_symbolParts hm hc))

end Setup

namespace Extractor

/-- What an extractor holds of its module. -/
structure Registered (x : Extractor) : Prop where
  checked : x.setup.unit.Checked
  blocks : x.objects.Blocks
  special : x.objects.special = x.setup.config.specialCount
  parts : x.objects.owners.filter (fun call => !call.1.isConstant) = x.setup.parts
  constants : x.objects.owners.filter (fun call => call.1.isConstant) =
    constantCalls (x.setup.unit.marksOf x.setup.unit.references)
  matched : x.matched = x.setup.matchedCalls

/-- An extractor comes of a checked module and of requests that were all accepted. -/
theorem exists_settle_of_new {s : Setup} {x : Extractor} (h : (Extractor.new s).1 = .ok x) :
    s.unit.verify = .ok () ∧ ∃ r, Registering.settle s ⟨.new s.config.specialCount, [], #[]⟩
      s.requests = (.ok (), r) ∧ x = ⟨s, r.objects, r.matched, .empty, []⟩ := by
  unfold new at h
  split at h
  next => cases h
  next =>
    split at h
    next => cases h
    next hverify =>
      simp only at h
      split at h
      next => cases h
      next r hr =>
        cases h
        exact ⟨hverify, r, hr, rfl⟩

/-- Settling all requests of a module registers symbols, and then calls that are the
other parts of the module and the constants that it refers to. -/
theorem settle_requests {s : Setup} {r : Registering} (hm : s.unit.Checked)
    (hr : Registering.settle s ⟨.new s.config.specialCount, [], #[]⟩ s.requests = (.ok (), r)) :
    ∃ calls, r.objects = (ObjectTable.new s.config.specialCount).registerAll
        (s.symbolParts ++ calls) ∧
      calls.filter (fun call => !call.1.isConstant) = s.bodyParts ∧
      calls.filter (fun call => call.1.isConstant) =
        constantCalls (s.unit.marksOf s.unit.references) ∧
      r.matched = s.matchedCalls.foldl MatchedCalls.put [] := by
  obtain ⟨r₁, hsymbols, hobjects, hmatched⟩ := Registering.settle_values (s := s)
    ⟨.new s.config.specialCount, [], #[]⟩ s.symbolParts
  rw [Setup.requests_eq, Registering.settle_append, hsymbols] at hr
  have hfollows : r₁.objects.Follows s.unit [] := by
    rw [hobjects]
    exact Setup.follows_symbolParts hm.symbols _
  obtain ⟨calls, hs⟩ := Registering.settle_settles hfollows
    (fun q => Setup.plain_of_mem_laterRequests) hr
  refine ⟨calls, ?_, ?_, ?_, ?_⟩
  · rw [hs.objects, hobjects, ObjectTable.registerAll_append]
  · rw [hs.parts, Setup.part_laterRequests]
  · rw [← List.nil_append (calls.filter _), ← constantCalls_nil, hs.constants,
      Setup.constants_laterRequests]
    rfl
  · rw [hs.matched, hmatched]
    rfl

theorem setup_of_new {s : Setup} {x : Extractor} (h : (Extractor.new s).1 = .ok x) :
    x.setup = s := by
  obtain ⟨-, r, -, rfl⟩ := exists_settle_of_new h
  rfl

/-- The symbols are registered before anything else. -/
theorem exists_registerAll_of_new {s : Setup} {x : Extractor}
    (h : (Extractor.new s).1 = .ok x) :
    ∃ calls, x.objects =
      ((ObjectTable.new s.config.specialCount).registerAll s.symbolParts).registerAll calls := by
  obtain ⟨hverify, r, hr, rfl⟩ := exists_settle_of_new h
  obtain ⟨calls, hobjects, -⟩ := settle_requests (Module.verify_eq_ok_iff.1 hverify) hr
  exact ⟨calls, by rw [hobjects, ObjectTable.registerAll_append]⟩

theorem special_of_new {s : Setup} {x : Extractor} (h : (Extractor.new s).1 = .ok x) :
    x.objects.special = x.setup.config.specialCount := by
  obtain ⟨calls, hobjects⟩ := exists_registerAll_of_new h
  rw [hobjects, ObjectTable.special_registerAll, ObjectTable.special_registerAll, setup_of_new h]
  rfl

theorem blocks_of_new {s : Setup} {x : Extractor} (h : (Extractor.new s).1 = .ok x) :
    x.objects.Blocks := by
  obtain ⟨calls, hobjects⟩ := exists_registerAll_of_new h
  rw [hobjects]
  exact ((ObjectTable.blocks_new _).registerAll _).registerAll _

/-- A new extractor holds its whole module. -/
theorem registered_of_new {s : Setup} {x : Extractor} (hl : s.unit.Labelled)
    (h : (Extractor.new s).1 = .ok x) : x.setup = s ∧ x.Registered := by
  obtain ⟨hverify, r, hr, rfl⟩ := exists_settle_of_new h
  have hchecked : s.unit.Checked := Module.verify_eq_ok_iff.1 hverify
  obtain ⟨calls, hobjects, hparts, hconstants, hmatched⟩ := settle_requests hchecked hr
  have hsymbols : ∀ call ∈ s.symbolParts, call.1.isConstant = false := fun call hcall =>
    (Setup.mem_symbolParts (List.mem_map_of_mem hcall)).2
  have hallparts : (s.symbolParts ++ calls).filter (fun call => !call.1.isConstant) = s.parts := by
    rw [List.filter_append, hparts, List.filter_eq_self.2 fun call hcall => by
      simp [hsymbols call hcall]]
    rfl
  have hallconstants : (s.symbolParts ++ calls).filter (fun call => call.1.isConstant) =
      constantCalls (s.unit.marksOf s.unit.references) := by
    rw [List.filter_append, hconstants, List.filter_eq_nil_iff.2 fun call hcall => by
      simp [hsymbols call hcall], List.nil_append]
  have hnodup : ((s.symbolParts ++ calls).map Prod.fst).Nodup := by
    refine nodup_of_filters ?_ ?_
    · rw [hallconstants]
      exact nodup_constantCalls (Module.adds_marksOf _).nodup
    · rw [hallparts]
      exact Setup.nodup_parts hl
  have howners : r.objects.owners = s.symbolParts ++ calls := by
    rw [hobjects, ObjectTable.owners_registerAll hnodup fun _ _ => rfl,
      ObjectTable.owners_new, List.nil_append]
  refine ⟨rfl, hchecked, ?_, ?_, ?_, ?_, ?_⟩
  · rw [hobjects]
    exact (ObjectTable.blocks_new _).registerAll _
  · rw [hobjects, ObjectTable.special_registerAll]
    rfl
  · rw [howners, hallparts]
  · rw [howners, hallconstants]
  · rw [hmatched, MatchedCalls.foldl_put (by simpa using Setup.nodup_matchedCalls hl),
      List.nil_append]

namespace Registered

variable {x : Extractor}

theorem mem_owners_iff (h : x.Registered) {call : Value × Nat} :
    call ∈ x.objects.owners ↔ call ∈ x.setup.parts ∨
      call ∈ constantCalls (x.setup.unit.marksOf x.setup.unit.references) := by
  rw [← h.parts, ← h.constants, List.mem_filter, List.mem_filter]
  cases call.1.isConstant <;> simp

theorem contains_of_mem_parts (h : x.Registered) {v : Value} {k : Nat}
    (hv : (v, k) ∈ x.setup.parts) : x.objects.contains v = true :=
  h.blocks.contains_iff.2 (List.mem_map.2 ⟨_, h.mem_owners_iff.2 (.inl hv), rfl⟩)

/-- Apart from constants, the table has only the parts of the module. -/
theorem exists_part_of_contains (h : x.Registered) {v : Value} (hv : x.objects.contains v = true)
    (hconst : v.isConstant = false) : ∃ k, (v, k) ∈ x.setup.parts := by
  obtain ⟨call, hcall, rfl⟩ := List.mem_map.1 (h.blocks.contains_iff.1 hv)
  rcases h.mem_owners_iff.1 hcall with hpart | hcall
  · exact ⟨call.2, hpart⟩
  · rw [← filter_constantCalls, List.mem_filter, hconst] at hcall
    cases hcall.2

theorem contains_of_leave (h : x.Registered) {c : ConstId}
    (hc : .leave c ∈ x.setup.unit.marksOf x.setup.unit.references) :
    x.objects.contains (.constant c) = true := by
  refine h.blocks.contains_iff.2 (List.mem_map.2 ⟨(.constant c, 0), ?_, rfl⟩)
  exact h.mem_owners_iff.2
    (.inr (List.mem_map.2 ⟨c, Module.mem_filterMap_left?.2 hc, rfl⟩))

/-- Every constant that a reference leads to has an id, of its own or of a symbol. -/
theorem contains_constantValue (h : x.Registered) {c d : ConstId}
    (hc : c ∈ x.setup.unit.references) (hd : x.setup.unit.Reaches c d) :
    x.objects.contains (x.setup.unit.constantValue d) = true := by
  by_cases hconst : (x.setup.unit.constantValue d).isConstant = true
  · rw [Module.constantValue_of_isConstant hconst]
    exact h.contains_of_leave (Module.leave_mem_marksOf_iff.2 ⟨hconst, c, hc, hd⟩)
  · rw [Bool.not_eq_true] at hconst
    obtain ⟨call, hcall, heq⟩ := List.mem_map.1
      (Setup.constantValue_mem_symbolParts h.checked.symbols hconst)
    rw [← heq]
    exact h.contains_of_mem_parts (List.mem_append_left _ hcall)

end Registered

end Extractor

end PointsTo
