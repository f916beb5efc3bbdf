import Mathlib
import PointsTo.Proofs.Coverage

/-!
# Calls are described as they were registered

Registration asks the models about each call once and remembers the answer by the place of
the call. A plan goes through the parts of a module in layout order. Between the operands of a
call and the part behind the call it has the account of the model that was chosen then, or the
general account if there was none, and nothing else but constants; and the call owns exactly the
objects that the model asked for.

## Main definitions

* `Module.Spot m`: where an instruction stands, with what lies ahead of it and behind it.
* `Extractor.Reaches x spot call before after`: how the plan comes to a call and goes on.
-/

namespace PointsTo

/-! ## Pieces of a plan -/

/-- Where an instruction stands in a module: which functions, blocks and instructions lie ahead of
it, and which lie behind. -/
structure Module.Spot (m : Module) where
  function : FunctionId
  definition : Function
  block : Block
  instr : Instr
  index : Nat
  functionsAhead : List (FunctionId × Function)
  functionsBehind : List (FunctionId × Function)
  blocksAhead : List Block
  blocksBehind : List Block
  instrsAhead : List (Instr × Nat)
  instrsBehind : List (Instr × Nat)
  functionList : m.functionList = functionsAhead ++ (function, definition) :: functionsBehind
  blocks : definition.blocks = blocksAhead ++ block :: blocksBehind
  instrs : block.instrs.zipIdx = instrsAhead ++ (instr, index) :: instrsBehind

namespace Module.Spot

variable {m : Module}

def place (spot : m.Spot) : Place := ⟨spot.function, spot.block.label, spot.index⟩

def scope (spot : m.Spot) : Scope := .new spot.function spot.definition

end Module.Spot

theorem Module.HasInstr.exists_spot {m : Module} {f : FunctionId} {function : Function} {b : Block}
    {i : Instr} {k : Nat} (h : m.HasInstr f function b i k) :
    ∃ spot : m.Spot, spot.place = ⟨f, b.label, k⟩ ∧ spot.instr = i := by
  obtain ⟨functionsAhead, functionsBehind, hfunctions⟩ := List.append_of_mem h.mem_functionList
  obtain ⟨blocksAhead, blocksBehind, hblocks⟩ := List.append_of_mem h.mem_blocks
  obtain ⟨instrsAhead, instrsBehind, hinstrs⟩ := List.append_of_mem h.mem_instrs
  exact ⟨⟨f, function, b, i, k, functionsAhead, functionsBehind, blocksAhead, blocksBehind,
    instrsAhead, instrsBehind, hfunctions, hblocks, hinstrs⟩, rfl, rfl⟩

namespace Setup

variable {s : Setup} {matched : MatchedCalls}

/-- What is said of the block of an instruction up to what the instruction does. -/
def blockAhead (s : Setup) (matched : MatchedCalls) (spot : s.unit.Spot) : List Step :=
  .row ⟨.block, [Value.block spot.function spot.block.label, Value.function spot.function]⟩ ::
    ((spot.instrsAhead.flatMap fun e => s.instrOutline matched spot.scope
        ⟨spot.function, spot.block.label, e.2⟩ (.block spot.function spot.block.label) e.1) ++
      s.instrHead spot.scope spot.place (.block spot.function spot.block.label) spot.instr)

/-- What is said of the block of an instruction after what the instruction does. -/
def blockBehind (s : Setup) (matched : MatchedCalls) (spot : s.unit.Spot) : List Step :=
  (spot.instrsBehind.flatMap fun e => s.instrOutline matched spot.scope
      ⟨spot.function, spot.block.label, e.2⟩ (.block spot.function spot.block.label) e.1) ++
    s.terminatorOutline spot.scope spot.block.label spot.block.terminator

/-- What is said of the parts ahead of an instruction, and of the instruction itself before what
it does. -/
def outlineAhead (s : Setup) (matched : MatchedCalls) (spot : s.unit.Spot) : List Step :=
  (s.preamble ++ s.unit.globalList.flatMap fun e => s.globalOutline e.1 e.2) ++
    ((spot.functionsAhead.flatMap fun e => s.functionOutline matched e.1 e.2) ++
      (s.functionHead spot.function spot.definition ++
        (spot.blocksAhead.flatMap (s.blockOutline matched spot.scope) ++
          s.blockAhead matched spot)))

/-- What is said of the parts behind an instruction. -/
def outlineBehind (s : Setup) (matched : MatchedCalls) (spot : s.unit.Spot) : List Step :=
  (s.blockBehind matched spot ++ spot.blocksBehind.flatMap (s.blockOutline matched spot.scope)) ++
    spot.functionsBehind.flatMap fun e => s.functionOutline matched e.1 e.2

/-- The computation gives `piece` in one go, between the steps `ahead` and `behind`, which have
the steps of a walk to constants in between. -/
def Encloses (s : Setup) (t : Tour (List Step)) (ahead piece behind : List Step) : Prop :=
  ∀ marks, ∃ (before after : List Step) (walked walked' : List Mark),
    (t.run marks).1 = before ++ piece ++ after ∧
    Interleaves ahead (walked.flatMap s.markSteps) before ∧
    Interleaves behind (walked'.flatMap s.markSteps) after

namespace Encloses

variable {t t' : Tour (List Step)} {ahead piece behind own : List Step} {ids : List ConstId}

theorem append_left (h : s.Encloses t ahead piece behind) (h' : s.Outlines t' ids own) :
    s.Encloses (do let a ← t; let b ← t'; return a ++ b) ahead piece (behind ++ own) := by
  intro marks
  obtain ⟨before, after, walked, walked', hout, hbefore, hafter⟩ := h marks
  obtain ⟨new, -, -, hown⟩ := h' (t.run marks).2
  have hrun : ((do let a ← t; let b ← t'; return a ++ b : Tour (List Step)).run marks).1 =
      (t.run marks).1 ++ (t'.run (t.run marks).2).1 := rfl
  refine ⟨before, after ++ (t'.run (t.run marks).2).1, walked, walked' ++ new, ?_, hbefore, ?_⟩
  · rw [hrun, hout, List.append_assoc]
  · rw [List.flatMap_append]
    exact hafter.append hown

theorem append_right (h' : s.Outlines t ids own) (h : s.Encloses t' ahead piece behind) :
    s.Encloses (do let a ← t; let b ← t'; return a ++ b) (own ++ ahead) piece behind := by
  intro marks
  obtain ⟨new, -, -, hown⟩ := h' marks
  obtain ⟨before, after, walked, walked', hout, hbefore, hafter⟩ := h (t.run marks).2
  have hrun : ((do let a ← t; let b ← t'; return a ++ b : Tour (List Step)).run marks).1 =
      (t.run marks).1 ++ (t'.run (t.run marks).2).1 := rfl
  refine ⟨(t.run marks).1 ++ before, after, new ++ walked, walked', ?_, ?_, hafter⟩
  · rw [hrun, hout]
    simp only [List.append_assoc]
  · rw [List.flatMap_append]
    exact hown.append hbefore

theorem before (h : s.Encloses t ahead piece behind) (steps : List Step) :
    s.Encloses (do let a ← t; return steps ++ a) (steps ++ ahead) piece behind :=
  append_right (.pure steps) h

/-- What one item gives lies between what the items ahead of it and behind it give. -/
theorem collect {α : Type} {l l' : List α} {a : α} {t : α → Tour (List Step)}
    {ids : α → List ConstId} {own : α → List Step} (hother : ∀ b, s.Outlines (t b) (ids b) (own b))
    (h : s.Encloses (t a) ahead piece behind) :
    s.Encloses (Tour.collect (l ++ a :: l') t) (l.flatMap own ++ ahead) piece
      (behind ++ l'.flatMap own) := by
  induction l with
  | nil =>
    rw [List.nil_append, Tour.collect_cons]
    exact h.append_left (Outlines.collect fun b _ => hother b)
  | cons b l ih =>
    rw [List.cons_append, Tour.collect_cons, List.flatMap_cons, List.append_assoc]
    exact append_right (hother b) ih

end Encloses

theorem encloses_instrSteps (scope : Scope) (place : Place) (block : Value) (i : Instr) :
    s.Encloses (s.instrSteps matched scope place block i) (s.instrHead scope place block i)
      (s.effectSteps matched scope place i) [] := by
  intro marks
  obtain ⟨walked, -, -, hoperands⟩ :=
    outlines_operandSteps (s := s) scope (.instruction place) i.operands marks
  exact ⟨_, [], walked, [], (List.append_nil _).symm, (Interleaves.all_left _).append hoperands,
    .nil⟩

theorem encloses_blockSteps (spot : s.unit.Spot) :
    s.Encloses (s.blockSteps matched spot.scope spot.block) (s.blockAhead matched spot)
      (s.effectSteps matched spot.scope spot.place spot.instr) (s.blockBehind matched spot) := by
  have hinstrs : s.Encloses (Tour.collect spot.block.instrs.zipIdx fun e =>
      s.instrSteps matched spot.scope ⟨spot.function, spot.block.label, e.2⟩
        (.block spot.function spot.block.label) e.1)
      ((spot.instrsAhead.flatMap fun e => s.instrOutline matched spot.scope
        ⟨spot.function, spot.block.label, e.2⟩ (.block spot.function spot.block.label) e.1) ++
        s.instrHead spot.scope spot.place (.block spot.function spot.block.label) spot.instr)
      (s.effectSteps matched spot.scope spot.place spot.instr)
      ([] ++ spot.instrsBehind.flatMap fun e => s.instrOutline matched spot.scope
        ⟨spot.function, spot.block.label, e.2⟩ (.block spot.function spot.block.label) e.1) := by
    rw [spot.instrs]
    exact .collect (fun e => outlines_instrSteps spot.scope _ _ e.1)
      (encloses_instrSteps spot.scope spot.place _ spot.instr)
  rw [List.nil_append] at hinstrs
  exact (hinstrs.before [_]).append_left (outlines_terminatorSteps spot.scope _ _)

theorem encloses_functionSteps (spot : s.unit.Spot) :
    s.Encloses (s.functionSteps matched spot.function spot.definition)
      (s.functionHead spot.function spot.definition ++
        (spot.blocksAhead.flatMap (s.blockOutline matched spot.scope) ++
          s.blockAhead matched spot))
      (s.effectSteps matched spot.scope spot.place spot.instr)
      (s.blockBehind matched spot ++
        spot.blocksBehind.flatMap (s.blockOutline matched spot.scope)) := by
  have hbody : spot.definition.isDeclaration = false :=
    Function.not_isDeclaration_of_mem (b := spot.block) (by rw [spot.blocks]; simp)
  have hblocks : s.Encloses
      (Tour.collect spot.definition.blocks (s.blockSteps matched spot.scope))
      (spot.blocksAhead.flatMap (s.blockOutline matched spot.scope) ++ s.blockAhead matched spot)
      (s.effectSteps matched spot.scope spot.place spot.instr)
      (s.blockBehind matched spot ++
        spot.blocksBehind.flatMap (s.blockOutline matched spot.scope)) := by
    rw [spot.blocks]
    exact .collect (fun b => outlines_blockSteps spot.scope b) (encloses_blockSteps spot)
  unfold functionSteps functionHead
  simp only [hbody, Bool.false_eq_true, if_false]
  rw [List.append_assoc]
  exact (hblocks.before (_ :: _ :: _)).before _

/-- A plan has what an instruction does with pointers in one piece, between what it says of the
parts ahead and of the parts behind. -/
theorem encloses_planTour (spot : s.unit.Spot) (matched : MatchedCalls) :
    s.Encloses (s.planTour matched) (s.outlineAhead matched spot)
      (s.effectSteps matched spot.scope spot.place spot.instr) (s.outlineBehind matched spot) := by
  have hglobals : s.Outlines
      (Tour.collect s.unit.globalList fun e => s.globalSteps e.1 e.2)
      (s.unit.globalList.flatMap fun e => e.2.initializer.toList)
      (s.unit.globalList.flatMap fun e => s.globalOutline e.1 e.2) :=
    Outlines.collect fun e _ => outlines_globalSteps e.1 e.2
  have hfunctions : s.Encloses
      (Tour.collect s.unit.functionList fun e => s.functionSteps matched e.1 e.2)
      ((spot.functionsAhead.flatMap fun e => s.functionOutline matched e.1 e.2) ++
        (s.functionHead spot.function spot.definition ++
          (spot.blocksAhead.flatMap (s.blockOutline matched spot.scope) ++
            s.blockAhead matched spot)))
      (s.effectSteps matched spot.scope spot.place spot.instr)
      (s.outlineBehind matched spot) := by
    rw [spot.functionList]
    exact .collect (fun e => outlines_functionSteps e.1 e.2) (encloses_functionSteps spot)
  rw [outlineAhead, preamble, List.append_assoc (List.map _ _)]
  exact .append_right ((hglobals.before [_]).before _) hfunctions

/-- The account of a call: that of the model which takes it over, or the general one. -/
def accountOf (s : Setup) (scope : Scope) (i : Place) (call : Invoke) :
    Option CallModel → List Step
  | some model =>
    .remark (.handled (.instruction i) model.name) ::
      model.describe (.new s.unit i call) ⟨.instruction i, scope.object s.unit call.function,
        call.args.map (scope.object s.unit)⟩
  | none => s.generalCallSteps scope (.instruction i) call

theorem callSteps_eq_accountOf (scope : Scope) (i : Place) (call : Invoke) :
    s.callSteps matched scope i call =
      s.accountOf scope i call
        ((matched.lookup i).bind fun position => s.models.models[position]?) := by
  unfold callSteps accountOf
  cases (matched.lookup i).bind fun position => s.models.models[position]? <;> rfl

/-- An account is the general one only if no model gives it: a model's begins with a remark. -/
theorem accountOf_eq_general_iff {scope : Scope} {i : Place} {call : Invoke}
    {model : Option CallModel} :
    s.accountOf scope i call model = s.generalCallSteps scope (.instruction i) call ↔
      model = none := by
  cases model with
  | none => simp [accountOf]
  | some model => simp [accountOf, generalCallSteps]

end Setup

/-! ## Decisions of the first pass -/

/-- Requests that are all settled are settled one by one. -/
theorem Registering.exists_request_of_mem {s : Setup} {r r' : Registering}
    {requests : List Request} (h : r.settle s requests = (.ok (), r')) {q : Request}
    (hq : q ∈ requests) : ∃ r₁ r₂ : Registering, r₁.request s q = (.ok (), r₂) := by
  induction requests generalizing r with
  | nil => cases hq
  | cons q' rest ih =>
    rw [settle] at h
    split at h
    next _ r₁ hr =>
      rcases List.mem_cons.1 hq with rfl | hq
      · exact ⟨r, r₁, hr⟩
      · exact ih h hq
    next => cases h

namespace Extractor

variable {s : Setup} {x : Extractor} {f : FunctionId} {function : Function} {b : Block}
  {call : Invoke} {k : Nat}

/-- The models of an extractor have an answer for each call of the module. -/
theorem exists_resolve_of_new (hnew : (Extractor.new s).1 = .ok x)
    (hi : s.unit.HasInstr f function b (.invoke call) k) :
    ∃ answer, s.models.resolve (.new s.unit ⟨f, b.label, k⟩ call) = .ok answer := by
  obtain ⟨-, r, hr, -⟩ := exists_settle_of_new hnew
  rw [Setup.requests_eq] at hr
  obtain ⟨r₁, r₂, hcall⟩ := Registering.exists_request_of_mem hr
    (List.mem_append_right _ (Setup.call_mem_laterRequests hi))
  cases hresolve : s.models.resolve (.new s.unit ⟨f, b.label, k⟩ call) with
  | ok answer => exact ⟨answer, rfl⟩
  | error e => simp [Registering.request, hresolve] at hcall

namespace Registered

/-- A description finds the model for a call that took it over in the first pass. -/
theorem lookup_matched (h : x.Registered) (hl : x.setup.unit.Labelled)
    (hi : x.setup.unit.HasInstr f function b (.invoke call) k) {answer : Option (Nat × Nat)}
    (hresolve : x.setup.models.resolve (.new x.setup.unit ⟨f, b.label, k⟩ call) = .ok answer) :
    x.matched.lookup ⟨f, b.label, k⟩ = answer.map Prod.fst := by
  rw [h.matched, Setup.lookup_matchedCalls hl hi, Setup.callModel?, hresolve]
  cases answer <;> rfl

/-- The objects that a call owns are those its model asked for. -/
theorem affiliated_call_iff (h : x.Registered) (hl : x.setup.unit.Labelled)
    (hi : x.setup.unit.HasInstr f function b (.invoke call) k) {answer : Option (Nat × Nat)}
    (hresolve : x.setup.models.resolve (.new x.setup.unit ⟨f, b.label, k⟩ call) = .ok answer)
    {id : ObjectId} (hid : x.objects.idOf (.instruction ⟨f, b.label, k⟩) = .ok id) (n : Nat)
    (o : ObjectId) :
    x.objects.affiliated id n = .ok o ↔
      o = ⟨id.index + n⟩ ∧ ∃ position count, answer = some (position, count) ∧ 1 ≤ n ∧
        n ≤ count := by
  have hslot := h.slot_of_idOf hl hid
  have hreserve :
      x.setup.reserve (.instruction ⟨f, b.label, k⟩) = (answer.map Prod.snd).getD 0 := by
    rw [Setup.reserve, hi.instruction? hl]
    simp only [Option.map_some, Option.getD_some, Setup.instrObjects, Setup.callObjects, hresolve]
    cases answer <;> rfl
  rw [hreserve] at hslot
  rw [ObjectTable.affiliated_iff_of_slot hslot]
  rcases answer with _ | ⟨position, count⟩
  · simp only [Option.map_none, Option.getD_none, reduceCtorEq, false_and, exists_false, and_false,
      iff_false]
    omega
  · simp only [Option.map_some, Option.getD_some, Option.some.injEq, Prod.mk.injEq, and_assoc,
      exists_and_left, exists_eq_left', Nat.succ_le_iff]
    tauto

end Registered

/-! ## Decisions of the second pass -/

/-- The account of a call by the model that a description finds for it. -/
def account (x : Extractor) (spot : x.setup.unit.Spot) (call : Invoke) : List Step :=
  x.setup.accountOf spot.scope spot.place call
    ((x.matched.lookup spot.place).bind fun position => x.setup.models.models[position]?)

/-- The plan of an extractor comes to a call after the parts ahead and the operands of the call,
and goes on with the parts behind it. All that it has for the call in between is the account. When
the steps up to the operands have been carried out, the account is next. -/
structure Reaches (x : Extractor) (spot : x.setup.unit.Spot) (call : Invoke)
    (before after : List Step) : Prop where
  instr : spot.instr = .invoke call
  plan : x.setup.plan x.matched = before ++ x.account spot call ++ after
  ahead : ∃ walked : List Mark, Interleaves (x.setup.outlineAhead x.matched spot)
    (walked.flatMap x.setup.markSteps) before
  behind : ∃ walked : List Mark, Interleaves (x.setup.outlineBehind x.matched spot)
    (walked.flatMap x.setup.markSteps) after
  run : ∀ store e e', Emit.exec (Emit.steps ⟨x.objects, store⟩ before) e = (.ok (), e') →
    Emit.exec (Emit.steps ⟨x.objects, store⟩ (x.setup.plan x.matched)) e =
      Emit.exec (Emit.steps ⟨x.objects, store⟩ (x.account spot call ++ after)) e'

theorem exists_reaches (hi : x.setup.unit.HasInstr f function b (.invoke call) k) :
    ∃ (spot : x.setup.unit.Spot) (before after : List Step), spot.place = ⟨f, b.label, k⟩ ∧
      x.Reaches spot call before after := by
  obtain ⟨spot, hplace, hinstr⟩ := hi.exists_spot
  obtain ⟨before, after, walked, walked', hplan, hahead, hbehind⟩ :=
    Setup.encloses_planTour spot x.matched []
  rw [hinstr, Setup.effectSteps, Setup.callSteps_eq_accountOf] at hplan
  have hplan' : x.setup.plan x.matched = before ++ x.account spot call ++ after := hplan
  refine ⟨spot, before, after, hplace, hinstr, hplan', ⟨walked, hahead⟩, ⟨walked', hbehind⟩, ?_⟩
  intro store e e' hbefore
  rw [hplan', List.append_assoc, Emit.exec_steps_append, hbefore]

/-- Whatever the models are and whatever they say, a description treats each call as registration
did. It finds the model that the call was resolved to. Its plan has the account of this model for
the call, and the general account if and only if the call was resolved to none, with nothing but
other parts and constants around it. The call owns the objects that the model asked for, and no
others. -/
theorem dispatch_iff_resolve {i : Place} (hl : s.unit.Labelled)
    (hnew : (Extractor.new s).1 = .ok x) (hi : s.unit.instruction? i = some (.invoke call)) :
    (∀ position, x.matched.lookup i = some position ↔
        ∃ count, s.models.resolve (.new s.unit i call) = .ok (some (position, count))) ∧
      (x.matched.lookup i = none ↔ s.models.resolve (.new s.unit i call) = .ok none) ∧
      (∃ (spot : x.setup.unit.Spot) (before after : List Step), spot.place = i ∧
        x.Reaches spot call before after ∧
        (∀ position count, s.models.resolve (.new s.unit i call) = .ok (some (position, count)) →
          ∃ model, s.models.models[position]? = some model ∧
            x.account spot call = x.setup.accountOf spot.scope i call (some model)) ∧
        (x.account spot call = x.setup.generalCallSteps spot.scope (.instruction i) call ↔
          s.models.resolve (.new s.unit i call) = .ok none)) ∧
      ∃ id, x.objects.idOf (.instruction i) = .ok id ∧
        ∀ n o, x.objects.affiliated id n = .ok o ↔ o = ⟨id.index + n⟩ ∧
          ∃ position count, s.models.resolve (.new s.unit i call) = .ok (some (position, count)) ∧
            1 ≤ n ∧ n ≤ count := by
  obtain ⟨rfl, hx⟩ := registered_of_new hl hnew
  obtain ⟨function, b, hinstr, hlabel⟩ := (Module.instruction?_eq_some_iff hl).1 hi
  obtain ⟨f, l, k⟩ := i
  obtain rfl : b.label = l := hlabel
  obtain ⟨answer, hresolve⟩ := exists_resolve_of_new hnew hinstr
  obtain ⟨id, hid, -⟩ := hx.exists_slot (Setup.instruction_mem_parts hinstr)
  obtain ⟨spot, before, after, hplace, hreaches⟩ := exists_reaches hinstr
  have hlookup := hx.lookup_matched hl hinstr hresolve
  refine ⟨fun position => ?_, ?_,
    ⟨spot, before, after, hplace, hreaches, fun position count h => ?_, ?_⟩, id, hid,
    fun n o => ?_⟩
  · rw [hlookup, hresolve]
    cases answer with
    | none => simp
    | some found => simp [Prod.ext_iff]
  · rw [hlookup, hresolve]
    simp
  · obtain rfl : answer = some (position, count) := Except.ok.inj (hresolve.symm.trans h)
    obtain ⟨model, hmodel, -⟩ := Setup.recognize_of_resolve hresolve
    refine ⟨model, hmodel, ?_⟩
    rw [account, hplace, hlookup, Option.map_some, Option.bind_some, hmodel]
  · rw [account, hplace, Setup.accountOf_eq_general_iff, hlookup, hresolve]
    cases answer with
    | none => simp
    | some found =>
      obtain ⟨model, hmodel, -⟩ := Setup.recognize_of_resolve hresolve
      simp [hmodel]
  · rw [hx.affiliated_call_iff hl hinstr hresolve hid, hresolve]
    simp only [Except.ok.injEq]

/-- Three models, of which two recognise the call of an allocator. The first of these gives the
call three objects; it says of the call whatever the state of the description suggests, and it
gives up if there are facts already. -/
def overlapping : Setup :=
  { allocating with
    models := ⟨.firstMatch,
      [.memoryCopy,
        { name := "wary"
          recognize := fun _ => some 3
          describe := fun _ call => [.acts fun _ e =>
            if e.entries.size = 0 then [.append ⟨.callReturn, [call.self]⟩]
            else [.intern .ptr, .fail (.object (.unregistered call.self))]] },
        .heapAllocator ["malloc"]]⟩ }

theorem overlapping_dispatch :
    overlapping.unit.Labelled ∧ ∃ x, (Extractor.new overlapping).1 = .ok x ∧
      x.matched.lookup ⟨⟨1⟩, .entry, 1⟩ = some 1 ∧
      (∃ (spot : x.setup.unit.Spot) (before after : List Step), spot.place = ⟨⟨1⟩, .entry, 1⟩ ∧
        x.Reaches spot ⟨.imm ⟨2⟩, [.imm ⟨0⟩], some ⟨2⟩, some ⟨0⟩⟩ before after ∧
        ∃ model, overlapping.models.models[1]? = some model ∧
          x.account spot ⟨.imm ⟨2⟩, [.imm ⟨0⟩], some ⟨2⟩, some ⟨0⟩⟩ =
            x.setup.accountOf spot.scope ⟨⟨1⟩, .entry, 1⟩
              ⟨.imm ⟨2⟩, [.imm ⟨0⟩], some ⟨2⟩, some ⟨0⟩⟩ (some model)) ∧
      ∃ id, x.objects.idOf (.instruction ⟨⟨1⟩, .entry, 1⟩) = .ok id ∧
        x.objects.affiliated id 3 = .ok ⟨id.index + 3⟩ ∧
        ∀ o, x.objects.affiliated id 4 ≠ .ok o := by
  have hnew : ∃ x, (Extractor.new overlapping).1 = .ok x := ⟨_, rfl⟩
  obtain ⟨x, hx⟩ := hnew
  have hresolve : overlapping.models.resolve (.new overlapping.unit ⟨⟨1⟩, .entry, 1⟩
      ⟨.imm ⟨2⟩, [.imm ⟨0⟩], some ⟨2⟩, some ⟨0⟩⟩) = .ok (some (1, 3)) := by rfl
  obtain ⟨hmodel, -, ⟨spot, before, after, hplace, hreaches, haccount, -⟩, id, hid, howns⟩ :=
    dispatch_iff_resolve (s := overlapping) (i := ⟨⟨1⟩, .entry, 1⟩) labelled_allocating hx rfl
  refine ⟨labelled_allocating, x, hx, (hmodel 1).2 ⟨3, hresolve⟩,
    ⟨spot, before, after, hplace, hreaches, haccount 1 3 hresolve⟩, id, hid,
    (howns 3 _).2 ⟨rfl, 1, 3, hresolve, by decide, by decide⟩, fun o ho => ?_⟩
  obtain ⟨-, position, count, hcount, -, hle⟩ := (howns 4 o).1 ho
  rw [hresolve] at hcount
  cases hcount
  omega

end Extractor

end PointsTo
