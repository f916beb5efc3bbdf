import Mathlib
import PointsTo.Extract.Registration
import PointsTo.Proofs.ConstantWalk
import PointsTo.Proofs.ObjectOwners

/-!
# What registration does

The first pass uses the table of objects to tell which constants it has met, where a
walk keeps marks. Both meet the same constants in the same order. Settling requests
then comes down to a list of registrations: what the requests ask for, with the
constants of the walk in between.
-/

namespace PointsTo

namespace Registering

@[simp] theorem objects_register (r : Registering) (v : Value) (k : Nat) :
    (r.register v k).objects = (r.objects.register v k).2 := rfl

end Registering

/-! ## The table as a record of the walk -/

/-- The registrations of the constants that end. -/
def constantCalls (marks : List Mark) : List (Value × Nat) :=
  (marks.filterMap Mark.left?).map fun c => (.constant c, 0)

@[simp] theorem constantCalls_nil : constantCalls [] = [] := rfl

@[simp] theorem constantCalls_append (marks marks' : List Mark) :
    constantCalls (marks ++ marks') = constantCalls marks ++ constantCalls marks' := by
  simp [constantCalls]

@[simp] theorem constantCalls_enter (c : ConstId) (marks : List Mark) :
    constantCalls (.enter c :: marks) = constantCalls marks := rfl

@[simp] theorem constantCalls_leave (c : ConstId) (marks : List Mark) :
    constantCalls (.leave c :: marks) = (.constant c, 0) :: constantCalls marks := rfl

@[simp] theorem filter_constantCalls (marks : List Mark) :
    (constantCalls marks).filter (fun call => call.1.isConstant) = constantCalls marks := by
  rw [constantCalls, List.filter_map, List.filter_eq_self.2]
  exact fun _ _ => rfl

@[simp] theorem filter_not_constantCalls (marks : List Mark) :
    (constantCalls marks).filter (fun call => !call.1.isConstant) = [] := by
  rw [constantCalls, List.filter_map, List.filter_eq_nil_iff.2]
  · rfl
  · exact fun _ _ => by simp [Value.isConstant]

/-- The table has the constants that have ended, and the symbols that constants stand
for. -/
structure ObjectTable.Follows (x : ObjectTable Value) (m : Module) (marks : List Mark) : Prop where
  constants : ∀ c, x.contains (.constant c) = true ↔ .leave c ∈ marks
  symbols : ∀ c, (m.constantValue c).isConstant = false → x.contains (m.constantValue c) = true

namespace ObjectTable.Follows

variable {x : ObjectTable Value} {m : Module} {marks : List Mark}

/-- The table passes over a constant exactly when the walk does. -/
theorem contains_iff (h : x.Follows m marks) (c : ConstId) :
    x.contains (m.constantValue c) = true ↔
      (m.constantValue c).isConstant = false ∨ .leave c ∈ marks := by
  by_cases hc : (m.constantValue c).isConstant = true
  · rw [Module.constantValue_of_isConstant hc, h.constants]
    simp [Value.isConstant]
  · rw [Bool.not_eq_true] at hc
    exact iff_of_true (h.symbols c hc) (.inl hc)

theorem enter (h : x.Follows m marks) (c : ConstId) : x.Follows m (marks ++ [.enter c]) where
  constants d := by simp [h.constants]
  symbols := h.symbols

theorem leave (h : x.Follows m marks) (c : ConstId) :
    (x.register (.constant c) 0).2.Follows m (marks ++ [.leave c]) where
  constants d := by
    rw [contains_register, h.constants]
    simp [or_comm]
  symbols d hd := contains_register.2 (.inr (h.symbols d hd))

/-- Registering something else than a constant leaves the walk where it is. -/
theorem register (h : x.Follows m marks) {v : Value} (hv : v.isConstant = false) (k : Nat) :
    (x.register v k).2.Follows m marks where
  constants c := by
    have hne : Value.constant c ≠ v := by
      rintro rfl
      cases hv
    simp [contains_register, hne, h.constants]
  symbols d hd := contains_register.2 (.inr (h.symbols d hd))

end ObjectTable.Follows

namespace Registering

variable {m : Module}

/-- Depths that are enough make no difference to registering a constant. -/
theorem constant_eq_of_within {depth depth' : Nat} {c : ConstId} (h : m.Within depth c)
    (h' : m.Within depth' c) (r : Registering) :
    r.constant m depth c = r.constant m depth' c := by
  induction depth generalizing depth' r c with
  | zero => exact absurd h.1 (lt_irrefl 0)
  | succ depth ih =>
    cases depth' with
    | zero => exact absurd h'.1 (lt_irrefl 0)
    | succ depth' =>
      have hchildren : (m.constantChildren c).foldl (constant m depth) r =
          (m.constantChildren c).foldl (constant m depth') r :=
        List.foldl_ext _ _ _ fun r d hd => ih (h.child hd) (h'.child hd) r
      simp only [constant, hchildren]

/-- What registering constants does to the pass when a walk adds the marks `new`. -/
structure Walked (m : Module) (r r' : Registering) (marks new : List Mark) : Prop where
  objects : r'.objects = r.objects.registerAll (constantCalls new)
  follows : r'.objects.Follows m (marks ++ new)
  matched : r'.matched = r.matched

theorem Walked.refl {r : Registering} {marks : List Mark} (h : r.objects.Follows m marks) :
    Walked m r r marks [] :=
  ⟨rfl, by simpa using h, rfl⟩

theorem Walked.trans {r₁ r₂ r₃ : Registering} {marks new new' : List Mark}
    (h : Walked m r₁ r₂ marks new) (h' : Walked m r₂ r₃ (marks ++ new) new') :
    Walked m r₁ r₃ marks (new ++ new') where
  objects := by
    rw [h'.objects, h.objects, constantCalls_append, ObjectTable.registerAll_append]
  follows := by simpa using h'.follows
  matched := h'.matched.trans h.matched

theorem foldl_constant_walks_of {depth : Nat}
    (ih : ∀ (r : Registering) (marks : List Mark) (c : ConstId), r.objects.Follows m marks →
      ∃ new, m.visit depth marks c = marks ++ new ∧ Walked m r (r.constant m depth c) marks new)
    {r : Registering} {marks : List Mark} (h : r.objects.Follows m marks) (ids : List ConstId) :
    ∃ new, m.visitAll depth marks ids = marks ++ new ∧
      Walked m r (ids.foldl (constant m depth) r) marks new := by
  induction ids generalizing r marks with
  | nil => exact ⟨[], by simp, .refl h⟩
  | cons c ids ihs =>
    obtain ⟨new, hnew, hw⟩ := ih r marks c h
    obtain ⟨new', hnew', hw'⟩ := ihs hw.follows
    exact ⟨new ++ new', by rw [Module.visitAll_cons, hnew, hnew', List.append_assoc],
      hw.trans hw'⟩

/-- Registering a constant follows the walk to it, mark for mark. -/
theorem constant_walks (depth : Nat) {r : Registering} {marks : List Mark} (c : ConstId)
    (h : r.objects.Follows m marks) :
    ∃ new, m.visit depth marks c = marks ++ new ∧ Walked m r (r.constant m depth c) marks new := by
  induction depth generalizing r marks c with
  | zero => exact ⟨[], by simp [Module.visit], .refl h⟩
  | succ depth ih =>
    rcases Module.visit_succ_cases (m := m) depth marks c with ⟨hpass, hv⟩ | ⟨hc, hl, hv⟩
    · have hcontains := (h.contains_iff c).2 hpass
      refine ⟨[], by simp [hv], ?_⟩
      simp only [constant, hcontains, if_true]
      exact .refl h
    · have hcontains : ¬ r.objects.contains (m.constantValue c) = true := by
        rw [h.contains_iff]
        simp [hc, hl]
      obtain ⟨new, hnew, hw⟩ := foldl_constant_walks_of (fun r marks c => ih c) (h.enter c)
        (m.constantChildren c)
      refine ⟨.enter c :: new ++ [.leave c], by rw [hv, hnew]; simp, ?_⟩
      rw [constant, if_neg hcontains, Module.constantValue_of_isConstant hc]
      refine ⟨?_, by simpa using hw.follows.leave c, hw.matched⟩
      simp [hw.objects, ObjectTable.registerAll]

end Registering

/-! ## Requests -/

namespace Setup

/-- The model that takes a call over, by position. -/
def callModel? (s : Setup) (i : Place) (invoke : Invoke) : Option Nat :=
  match s.models.resolve (.new s.unit i invoke) with
  | .ok (some (position, _)) => some position
  | _ => none

/-- How many objects a call owns. -/
def callObjects (s : Setup) (i : Place) (invoke : Invoke) : Nat :=
  match s.models.resolve (.new s.unit i invoke) with
  | .ok (some (_, affiliated)) => affiliated
  | _ => 0

end Setup

namespace Request

/-- What a request registers that is not a constant. -/
def part (s : Setup) : Request → List (Value × Nat)
  | .enter _ => []
  | .value v k => [(v, k)]
  | .call i invoke => [(.instruction i, s.callObjects i invoke)]
  | .constant _ => []

def constant? : Request → Option ConstId
  | .constant c => some c
  | _ => none

/-- The call that a request gives to a model. -/
def matched? (s : Setup) : Request → Option (Place × Nat)
  | .call i invoke => (s.callModel? i invoke).map fun position => (i, position)
  | _ => none

/-- Constants are asked for as such. -/
def Plain : Request → Prop
  | .value v _ => v.isConstant = false
  | _ => True

end Request

/-- Remember a matched call, in place of what was remembered for it. -/
def MatchedCalls.put (l : MatchedCalls) (e : Place × Nat) : MatchedCalls :=
  l.filter (·.1 != e.1) ++ [e]

namespace Registering

/-- What settling requests does: the registrations, in order, are the parts that the
requests ask for, and the constants that the walk ends. -/
structure Settles (s : Setup) (r r' : Registering) (marks : List Mark) (requests : List Request)
    (calls : List (Value × Nat)) : Prop where
  objects : r'.objects = r.objects.registerAll calls
  follows : r'.objects.Follows s.unit
    (s.unit.visitAll s.unit.constantDepth marks (requests.filterMap Request.constant?))
  parts : calls.filter (fun call => !call.1.isConstant) = requests.flatMap (Request.part s)
  constants : constantCalls marks ++ calls.filter (fun call => call.1.isConstant) =
    constantCalls (s.unit.visitAll s.unit.constantDepth marks
      (requests.filterMap Request.constant?))
  matched : r'.matched = (requests.filterMap (Request.matched? s)).foldl MatchedCalls.put r.matched

variable {s : Setup} {r r' : Registering} {marks : List Mark}

theorem Settles.of_part {q : Request} (hq : q.constant? = none)
    (hpart : ∀ call ∈ q.part s, call.1.isConstant = false)
    (hobjects : r'.objects = r.objects.registerAll (q.part s))
    (hfollows : r'.objects.Follows s.unit marks)
    (hmatched : r'.matched = (q.matched? s).toList.foldl MatchedCalls.put r.matched) :
    Settles s r r' marks [q] (q.part s) := by
  have hids : [q].filterMap Request.constant? = [] := List.filterMap_cons_none hq
  have hconst : (q.part s).filter (fun call => call.1.isConstant) = [] :=
    List.filter_eq_nil_iff.2 fun call hcall => by simp [hpart call hcall]
  have hrest : (q.part s).filter (fun call => !call.1.isConstant) = q.part s :=
    List.filter_eq_self.2 fun call hcall => by simp [hpart call hcall]
  refine ⟨hobjects, by simpa [hids] using hfollows, by simp [hrest], by simp [hids, hconst], ?_⟩
  rw [hmatched]
  cases h : q.matched? s <;> simp [h]

/-- An accepted call is registered with what it owns, and its model is remembered. -/
theorem request_call {i : Place} {invoke : Invoke}
    (hr : r.request s (.call i invoke) = (.ok (), r')) :
    r'.objects = (r.objects.register (.instruction i) (s.callObjects i invoke)).2 ∧
      r'.matched = ((Request.call i invoke).matched? s).toList.foldl MatchedCalls.put
        r.matched := by
  simp only [request, Request.matched?, Setup.callModel?, Setup.callObjects] at hr ⊢
  rcases hresolve : s.models.resolve (.new s.unit i invoke) with e | _ | ⟨position, k⟩
  · simp [hresolve] at hr
  · simp only [hresolve, Prod.mk.injEq, true_and] at hr
    subst hr
    exact ⟨rfl, rfl⟩
  · simp only [hresolve, Prod.mk.injEq, true_and] at hr
    subst hr
    exact ⟨rfl, rfl⟩

theorem request_settles {q : Request} (h : r.objects.Follows s.unit marks) (hq : q.Plain)
    (hr : r.request s q = (.ok (), r')) : ∃ calls, Settles s r r' marks [q] calls := by
  cases q with
  | enter function =>
    obtain rfl : r.note _ = r' := (Prod.mk.inj hr).2
    exact ⟨_, .of_part rfl (by simp [Request.part]) rfl h rfl⟩
  | value v k =>
    obtain rfl : r.register v k = r' := (Prod.mk.inj hr).2
    have hv : v.isConstant = false := hq
    exact ⟨_, .of_part rfl (by simp [Request.part, hv]) rfl (h.register hv k) rfl⟩
  | call i invoke =>
    obtain ⟨hobjects, hmatched⟩ := request_call hr
    have hi : (Value.instruction i).isConstant = false := rfl
    have hfollows : r'.objects.Follows s.unit marks := by
      rw [hobjects]
      exact h.register hi _
    exact ⟨_, .of_part rfl (by simp [Request.part, hi]) hobjects hfollows hmatched⟩
  | constant c =>
    obtain rfl : r.constant s.unit s.unit.constantDepth c = r' := (Prod.mk.inj hr).2
    obtain ⟨new, hnew, hw⟩ := constant_walks s.unit.constantDepth c h
    have hvisit : s.unit.visitAll s.unit.constantDepth marks
        ([Request.constant c].filterMap Request.constant?) = marks ++ new := hnew
    refine ⟨constantCalls new, hw.objects, ?_, ?_, ?_, hw.matched⟩
    · rw [hvisit]
      exact hw.follows
    · simp [Request.part]
    · rw [hvisit]
      simp

theorem Settles.trans {r'' : Registering} {requests requests' : List Request}
    {calls calls' : List (Value × Nat)} (h : Settles s r r' marks requests calls)
    (h' : Settles s r' r'' (s.unit.visitAll s.unit.constantDepth marks
      (requests.filterMap Request.constant?)) requests' calls') :
    Settles s r r'' marks (requests ++ requests') (calls ++ calls') where
  objects := by rw [h'.objects, h.objects, ObjectTable.registerAll_append]
  follows := by
    rw [List.filterMap_append, Module.visitAll_append]
    exact h'.follows
  parts := by rw [List.filter_append, h.parts, h'.parts, List.flatMap_append]
  constants := by
    rw [List.filter_append, ← List.append_assoc, h.constants, h'.constants,
      List.filterMap_append, Module.visitAll_append]
  matched := by rw [h'.matched, h.matched, List.filterMap_append, List.foldl_append]

/-- Settling requests, all of which are accepted. -/
theorem settle_settles {requests : List Request} (h : r.objects.Follows s.unit marks)
    (hplain : ∀ q ∈ requests, q.Plain) (hr : r.settle s requests = (.ok (), r')) :
    ∃ calls, Settles s r r' marks requests calls := by
  induction requests generalizing r marks with
  | nil =>
    obtain rfl : r = r' := (Prod.mk.inj hr).2
    exact ⟨[], rfl, h, rfl, by simp, rfl⟩
  | cons q rest ih =>
    rw [List.forall_mem_cons] at hplain
    rw [settle] at hr
    split at hr
    next _ r₁ hq =>
      obtain ⟨calls, hs⟩ := request_settles h hplain.1 hq
      obtain ⟨calls', hs'⟩ := ih hs.follows hplain.2 hr
      exact ⟨calls ++ calls', hs.trans hs'⟩
    next => cases hr

theorem settle_append (r : Registering) (requests requests' : List Request) :
    r.settle s (requests ++ requests') =
      match r.settle s requests with
      | (.ok _, r') => r'.settle s requests'
      | (.error e, r') => (.error e, r') := by
  induction requests generalizing r with
  | nil => rfl
  | cons q rest ih =>
    simp only [List.cons_append, settle]
    split
    · exact ih _
    · rfl

/-- Values alone are always accepted. -/
theorem settle_values (r : Registering) (calls : List (Value × Nat)) :
    ∃ r', r.settle s (calls.map fun call => .value call.1 call.2) = (.ok (), r') ∧
      r'.objects = r.objects.registerAll calls ∧ r'.matched = r.matched := by
  induction calls generalizing r with
  | nil => exact ⟨r, rfl, rfl, rfl⟩
  | cons call rest ih =>
    obtain ⟨r', hr, hobjects, hmatched⟩ := ih (r.register call.1 call.2)
    exact ⟨r', hr, hobjects, hmatched⟩

end Registering

end PointsTo
