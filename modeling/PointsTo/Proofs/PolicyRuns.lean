import Mathlib
import PointsTo.Proofs.Agreement
import PointsTo.Proofs.PairedRegistration
import PointsTo.Proofs.PointerValues
import PointsTo.Proofs.Totality

/-!
# Runs under two policies

A configuration says which pointer arguments may point to anything out of sight. The policy
has no part in registration, and a description under a laxer policy has some more steps, each
right after the step that gives an argument its type. By then the question behind the guard of
such a step is answered and the argument is known to have an id, so the step cannot fail and
does nothing but append its fact.
-/

namespace PointsTo

/-! ## Steps for free arguments -/

/-- The second list has some more steps, which say of arguments that have just been given a
type that they are free. -/
inductive Freed : List Step → List Step → Prop
  | nil : Freed [] []
  | cons (st : Step) {l l' : List Step} : Freed l l' → Freed (st :: l) (st :: l')
  | free (v : Value) (ty : TypeId) {l l' : List Step} : Freed l l' →
      Freed (.typed v (.named ty) :: l)
        (.typed v (.named ty) :: .ifPointer (.named ty) [⟨.freeArgument, [v]⟩] :: l')

namespace Freed

theorem refl (l : List Step) : Freed l l := by
  induction l with
  | nil => exact .nil
  | cons st l ih => exact .cons st ih

theorem append {l l' k k' : List Step} (h : Freed l l') (h' : Freed k k') :
    Freed (l ++ k) (l' ++ k') := by
  induction h with
  | nil => exact h'
  | cons st _ ih => exact .cons st ih
  | free v ty _ ih => exact .free v ty ih

theorem flatMap {α : Type} {l : List α} {f g : α → List Step} (h : ∀ a ∈ l, Freed (f a) (g a)) :
    Freed (l.flatMap f) (l.flatMap g) := by
  induction l with
  | nil => exact .nil
  | cons a l ih =>
    rw [List.forall_mem_cons] at h
    exact h.1.append (ih h.2)

end Freed

/-- The first policy admits no function that the second does not. -/
def FreeArguments.Within (p q : FreeArguments) : Prop :=
  ∀ f, p.admits f = true → q.admits f = true

namespace FreeArguments

theorem never_within (p : FreeArguments) : Within .never p := by
  intro f h
  simp [admits] at h

theorem externallyVisible_within_allPointers : Within .externallyVisible .allPointers := by
  intro f h
  simp only [admits, Bool.and_eq_true] at h ⊢
  exact ⟨h.1, trivial⟩

end FreeArguments

namespace Setup

variable {s : Setup} {p q : FreeArguments} {matched : MatchedCalls}

/-- The setup with another policy. -/
def withPolicy (s : Setup) (p : FreeArguments) : Setup :=
  { s with config := { s.config with freeArguments := p } }

theorem argumentSteps_withPolicy (f : FunctionId) (function : Function) (k : Nat) (ty : TypeId) :
    (s.withPolicy p).argumentSteps f function k ty =
      .row ⟨.argument, [Value.function f, k, Value.argument f k]⟩ ::
        .typed (.argument f k) (.named ty) :: if p.isFree function true
          then [.ifPointer (.named ty) [⟨.freeArgument, [Value.argument f k]⟩]] else [] := rfl

theorem freed_argumentSteps (h : p.Within q) (f : FunctionId) (function : Function) (k : Nat)
    (ty : TypeId) :
    Freed ((s.withPolicy p).argumentSteps f function k ty)
      ((s.withPolicy q).argumentSteps f function k ty) := by
  rw [argumentSteps_withPolicy, argumentSteps_withPolicy]
  refine .cons _ ?_
  simp only [FreeArguments.isFree, Bool.true_and]
  by_cases hp : p.admits function = true
  · rw [if_pos hp, if_pos (h function hp)]
    exact .refl _
  · rw [if_neg hp]
    split
    · exact .free _ ty .nil
    · exact .refl _

theorem freed_functionSteps (h : p.Within q) (f : FunctionId) (function : Function) :
    Tour.Agree Freed ((s.withPolicy p).functionSteps matched f function)
      ((s.withPolicy q).functionSteps matched f function) := by
  have harguments : Freed
      (function.params.zipIdx.flatMap fun e => (s.withPolicy p).argumentSteps f function e.2 e.1.2)
      (function.params.zipIdx.flatMap fun e =>
        (s.withPolicy q).argumentSteps f function e.2 e.1.2) :=
    .flatMap fun e _ => freed_argumentSteps h f function e.2 e.1.2
  have hbody : Tour.Agree Freed ((s.withPolicy p).bodySteps matched f function)
      ((s.withPolicy q).bodySteps matched f function) := fun _ => ⟨rfl, .refl _⟩
  simp only [functionSteps]
  split
  · exact Tour.agree_pure (((Freed.refl _).append harguments).append (.refl _))
  · exact hbody.map fun l l' hl => ((Freed.refl _).append harguments).append hl

/-- A laxer policy adds steps for free arguments to the plan. -/
theorem freed_plan (h : p.Within q) (matched : MatchedCalls) :
    Freed ((s.withPolicy p).plan matched) ((s.withPolicy q).plan matched) := by
  have hglobals : Tour.Agree Freed
      (Tour.collect s.unit.globalList fun e => (s.withPolicy p).globalSteps e.1 e.2)
      (Tour.collect s.unit.globalList fun e => (s.withPolicy q).globalSteps e.1 e.2) :=
    fun _ => ⟨rfl, .refl _⟩
  have hfunctions : Tour.Agree Freed
      (Tour.collect s.unit.functionList fun e => (s.withPolicy p).functionSteps matched e.1 e.2)
      (Tour.collect s.unit.functionList fun e =>
        (s.withPolicy q).functionSteps matched e.1 e.2) :=
    .collect .nil (fun _ _ _ _ => .append)
      (List.forall₂_same.2 fun e _ => freed_functionSteps h e.1 e.2)
  have htour : Tour.Agree Freed ((s.withPolicy p).planTour matched)
      ((s.withPolicy q).planTour matched) :=
    hglobals.map₂ (fun l l' k k' hl hk => ((Freed.refl _).append (.cons _ hl)).append hk)
      hfunctions
  exact (htour []).2

/-- Of what is said of a function, only what the policy admits is about free arguments. -/
theorem FunctionStep.avoids_free {f : FunctionId} {function : Function} {st : Step}
    (h : s.FunctionStep f function st)
    (hfree : s.config.freeArguments.isFree function true = false) : st.Avoids "free_argument" := by
  cases h with
  | freeArgument _ h => cases hfree.symm.trans h
  | typed => exact Step.avoids_typed.2 (by decide)
  | argumentTyped => exact Step.avoids_typed.2 (by decide)
  | emitting => exact Step.avoids_remark
  | intern => exact Step.avoids_intern
  | _ => exact Step.avoids_row.2 (by simp [Relation.function, Relation.memoryObject,
      Relation.addressOf, Relation.argument, Relation.functionDecl, Relation.functionEntry])

end Setup

/-! ## Registration -/

namespace Registering

variable {s : Setup} {p : FreeArguments}

theorem settle_withPolicy (r : Registering) (requests : List Request) :
    r.settle (s.withPolicy p) requests = r.settle s requests := by
  induction requests generalizing r with
  | nil => rfl
  | cons q rest ih =>
    have hrequest : r.request (s.withPolicy p) q = r.request s q := by cases q <;> rfl
    rw [settle, settle, hrequest]
    split
    · exact ih _
    · rfl

end Registering

namespace Extractor

variable {s : Setup} {p : FreeArguments}

/-- The extractor with another policy. -/
def withPolicy (x : Extractor) (p : FreeArguments) : Extractor :=
  { x with setup := x.setup.withPolicy p }

/-- The policy has no part in registration. -/
theorem new_withPolicy (s : Setup) (p : FreeArguments) :
    (Extractor.new (s.withPolicy p)).1 = (Extractor.new s).1.map (·.withPolicy p) := by
  have hvalidate : (s.withPolicy p).config.validate = s.config.validate := rfl
  have hverify : (s.withPolicy p).unit.verify = s.unit.verify := rfl
  have hrequests : (s.withPolicy p).requests = s.requests := rfl
  have hspecial : (s.withPolicy p).config.specialCount = s.config.specialCount := rfl
  unfold new
  rw [hvalidate, hverify, hrequests, hspecial]
  simp only [Registering.settle_withPolicy]
  cases s.config.validate with
  | error err => rfl
  | ok _ =>
    cases s.unit.verify with
    | error fault => rfl
    | ok _ =>
      dsimp only
      split <;> rfl

end Extractor

/-! ## Emission -/

namespace Emission

variable {e e' : Emission}

/-- The second emission has done the same, but may have appended more free arguments. -/
structure Freer (e e' : Emission) : Prop where
  types : e'.types = e.types
  memo : e'.memo = e.memo
  other : ∀ name, name ≠ "free_argument" →
    e'.entries.toList.filterMap (Entry.fact? name) = e.entries.toList.filterMap (Entry.fact? name)
  free : (e.entries.toList.filterMap (Entry.fact? "free_argument")).Sublist
    (e'.entries.toList.filterMap (Entry.fact? "free_argument"))

/-- The emissions fail for the same reason. -/
def FailFreer (err : ExtractError) (e : Emission) (err' : ExtractError) (e' : Emission) : Prop :=
  err = err' ∧ e.Freer e'

theorem filterMap_fact?_append (e : Emission) (entry : Entry) (name : String) :
    (e.append entry).entries.toList.filterMap (Entry.fact? name) =
      e.entries.toList.filterMap (Entry.fact? name) ++ (entry.fact? name).toList := by
  have hone : [entry].filterMap (Entry.fact? name) = (entry.fact? name).toList := by
    cases h : entry.fact? name <;> simp [h]
  simp only [append, Array.toList_push, List.filterMap_append, hone]

theorem Freer.append (h : e.Freer e') (entry : Entry) :
    (e.append entry).Freer (e'.append entry) where
  types := h.types
  memo := h.memo
  other name hname := by
    rw [filterMap_fact?_append, filterMap_fact?_append, h.other name hname]
  free := by
    rw [filterMap_fact?_append, filterMap_fact?_append]
    exact h.free.append (.refl _)

theorem Freer.append_free (h : e.Freer e') (fact : Fact) :
    e.Freer (e'.append ⟨.freeArgument, fact⟩) where
  types := h.types
  memo := h.memo
  other name hname := by
    have hnone : Entry.fact? name ⟨.freeArgument, fact⟩ = none := if_neg (Ne.symm hname)
    rw [filterMap_fact?_append, hnone, h.other name hname, Option.toList_none, List.append_nil]
  free := by
    rw [filterMap_fact?_append]
    exact h.free.trans (List.sublist_append_left _ _)

end Emission

namespace Emit

open Emission

variable {t : Emission.Target}

theorem together_staticType_freer (ty : StaticType) :
    Together Freer (staticType ty) (staticType ty) (fun id e id' e' => id = id' ∧ e.Freer e')
      FailFreer := by
  intro e e' h
  have hresolve : e'.types.resolve ty = e.types.resolve ty := by rw [h.types]
  exact ⟨congrArg Prod.fst hresolve.symm, ⟨congrArg Prod.snd hresolve, h.memo, h.other, h.free⟩⟩

theorem together_holdsPointer_freer (id : TypeId) :
    Together Freer (holdsPointer id) (holdsPointer id) (fun a e b e' => a = b ∧ e.Freer e')
      FailFreer := by
  intro e e' h
  have hask : e'.memo.ask e'.types id = e.memo.ask e.types id := by rw [h.types, h.memo]
  exact ⟨congrArg Prod.fst hask.symm, ⟨h.types, congrArg Prod.snd hask, h.other, h.free⟩⟩

theorem together_row_freer (r : Row) :
    Together Freer (row t r) (row t r) (fun _ e _ e' => e.Freer e') FailFreer := by
  intro e e' h
  rw [exec_row, exec_row, h.types]
  cases r.accept t e.types with
  | error err => exact ⟨rfl, h⟩
  | ok fact => exact h.append ⟨r.relation, fact⟩

theorem together_rows_freer (rs : List Row) :
    Together Freer (rows t rs) (rows t rs) (fun _ e _ e' => e.Freer e') FailFreer := by
  induction rs with
  | nil => exact together_pure fun _ _ h => h
  | cons r rest ih => exact (together_row_freer r).bind fun _ _ => ih

end Emit

open Emission in
/-- A step that is known beforehand does the same to both. -/
theorem Step.together_run_freer (t : Emission.Target) {st : Step} (hst : st.isKnown = true) :
    Emit.Together Freer (st.run t) (st.run t) (fun _ e _ e' => e.Freer e') FailFreer := by
  cases st with
  | row r => exact Emit.together_row_freer r
  | typed v ty =>
    refine (Emit.together_staticType_freer ty).bind fun id id' => ?_
    rintro e e' ⟨rfl, h⟩
    refine (Emit.together_row_freer _).bind (fun _ _ =>
      (Emit.together_holdsPointer_freer id).bind fun answer answer' => ?_) e e' h
    rintro e e' ⟨rfl, h⟩
    cases answer with
    | true => exact Emit.together_row_freer _ e e' h
    | false => exact h
  | intern ty =>
    exact (Emit.together_staticType_freer ty).bind fun _ _ => Emit.together_pure fun _ _ h => h.2
  | ifPointer ty rs =>
    refine (Emit.together_staticType_freer ty).bind fun id id' => ?_
    rintro e e' ⟨rfl, h⟩
    refine (Emit.together_holdsPointer_freer id).bind (fun answer answer' => ?_) e e' h
    rintro e e' ⟨rfl, h⟩
    cases answer with
    | true => exact Emit.together_rows_freer rs e e' h
    | false => exact h
  | need o =>
    intro e e' h
    simp only [Step.run, Emit.exec_bind, Emit.exec_lift]
    cases o.resolve t.objects with
    | error err => exact ⟨rfl, h⟩
    | ok id => exact h
  | remark r =>
    intro e e' h
    exact ⟨h.types, h.memo, h.other, h.free⟩
  | visited c =>
    intro e e' h
    exact ⟨h.types, h.memo, h.other, h.free⟩
  | acts choose => cases hst

namespace Emit

open Emission

variable {α β : Type} {t : Emission.Target} {e e₁ : Emission}

/-- What holds after the second computation whenever it succeeds holds after both. -/
theorem Together.and_right {P : Emission → Emission → Prop} {c : Emit α} {c' : Emit β}
    {Q : α → Emission → β → Emission → Prop}
    {F : ExtractError → Emission → ExtractError → Emission → Prop} {R : Emission → Prop}
    (h : Together P c c' Q F) (hR : ∀ {e b e₁}, exec c' e = (.ok b, e₁) → R e₁) :
    Together P c c' (fun a e b e' => Q a e b e' ∧ R e') F := by
  intro e e' he
  have hrun := h e e' he
  generalize hexec : exec c e = r, hexec' : exec c' e' = r' at hrun
  obtain ⟨out, e₁⟩ := r
  obtain ⟨out', e₁'⟩ := r'
  cases out with
  | error err => cases out' <;> exact hrun
  | ok a =>
    cases out' with
    | error err => exact hrun
    | ok b => exact ⟨hrun, hR hexec'⟩

/-- A value that has been given a type has an id, and the question whether it holds a pointer
is answered. -/
theorem exists_of_exec_typed {v : Value} {ty : TypeId}
    (h : exec ((Step.typed v (.named ty)).run t) e = (.ok (), e₁)) :
    (∃ id, t.objects.idOf v = .ok id) ∧ ∃ answer, e₁.memo.answer? ty = some answer := by
  obtain ⟨id, a, hid, h⟩ := exec_bind_eq_ok.1 h
  obtain ⟨_, b, hrow, h⟩ := exec_bind_eq_ok.1 h
  obtain ⟨answer, c, hanswer, h⟩ := exec_bind_eq_ok.1 h
  obtain rfl : id = ty := by
    cases hid
    rfl
  constructor
  · rw [exec_row] at hrow
    split at hrow
    next fact hfact =>
      rcases Row.forall₂_of_accept hfact with _ | ⟨hv, _⟩
      obtain ⟨id, hid, -⟩ := Cell.resolve_object_eq_ok hv
      exact ⟨id, ObjectRef.resolve_value_eq_ok_iff.1 hid⟩
    next => cases hrow
  · have hgrows : c.Grows e₁ := by
      cases answer with
      | true => exact (advances_row t _).grows_of_exec h
      | false => exact (advances_pure (P := fun _ => True) ()).grows_of_exec h
    exact ⟨answer, hgrows.memo _ _ (answer?_of_holdsPointer hanswer)⟩

/-- Then to say that the value is free succeeds, and changes nothing else. -/
theorem exec_free {v : Value} {id : ObjectId} {ty : TypeId} {answer : Bool}
    (hschema : t.schema = .standard) (hid : t.objects.idOf v = .ok id)
    (hanswer : e.memo.answer? ty = some answer) :
    ∃ e₁, exec ((Step.ifPointer (.named ty) [⟨.freeArgument, [v]⟩]).run t) e = (.ok (), e₁) ∧
      ∀ e₀ : Emission, e₀.Freer e → e₀.Freer e₁ := by
  have hnamed : exec (staticType (.named ty)) e =
      (.ok ty, { e with log := e.log ++ e.types.resolveNotices (.named ty) }) := rfl
  have hasked (log : Array Notice) : exec (holdsPointer ty) { e with log } =
      (.ok answer, { e with log }) := by
    have hask : exec (holdsPointer ty) { e with log } = (.ok (e.memo.ask e.types ty).1,
      { e with log, memo := (e.memo.ask e.types ty).2 }) := rfl
    rw [hask, PointerMemo.ask_of_answer? hanswer]
  simp only [Step.run, exec_bind, hnamed, hasked]
  cases answer with
  | false => exact ⟨_, rfl, fun e₀ h => ⟨h.types, h.memo, h.other, h.free⟩⟩
  | true =>
    have haccept : Row.accept t e.types ⟨.freeArgument, [v]⟩ = .ok [.object id] := by
      have hcheck : t.schema.check .freeArgument [.object id] = .ok () :=
        hschema ▸ Schema.check_standard (by decide) rfl
      have hv : ObjectRef.resolve t.objects v = .ok id := ObjectRef.resolve_value_eq_ok_iff.2 hid
      have hresolve : Row.resolve t.objects e.types ⟨.freeArgument, [v]⟩ = .ok [.object id] := by
        simp [Row.resolve, Cell.resolve, hv, Except.map, pure, Except.pure, bind, Except.bind]
      simp only [Row.accept, hresolve, hcheck]
    refine ⟨_, by simp only [if_true, rows, exec_bind, exec_row, haccept]; rfl, fun e₀ h => ?_⟩
    exact (⟨h.types, h.memo, h.other, h.free⟩ : e₀.Freer { e with log := _ }).append_free _

/-- Steps for free arguments let everything else be as it is. -/
theorem together_steps_freed (hschema : t.schema = .standard) {l l' : List Step}
    (h : Freed l l') (hl : ∀ st ∈ l, st.isKnown = true) :
    Together Freer (steps t l) (steps t l') (fun _ e _ e' => e.Freer e') FailFreer := by
  induction h with
  | nil => exact together_pure fun _ _ h => h
  | cons st _ ih =>
    rw [List.forall_mem_cons] at hl
    exact (Step.together_run_freer t hl.1).bind fun _ _ => ih hl.2
  | @free v ty l l' _ ih =>
    rw [List.forall_mem_cons] at hl
    -- After the first step the question is answered, so the second only appends.
    refine ((Step.together_run_freer t hl.1).and_right exists_of_exec_typed).bind fun _ _ => ?_
    rintro e e' ⟨hfreer, ⟨id, hid⟩, answer, hanswer⟩
    obtain ⟨e₁, hexec, hfree⟩ := exec_free hschema hid hanswer
    rw [steps, exec_bind, hexec]
    exact ih hl.2 e e₁ (hfree e hfreer)

end Emit

/-! ## Runs under two policies -/

theorem Both.eq {ε : Type} {out out' : Except ε Unit} (h : Both (fun _ _ => True) Eq out out') :
    out = out' := by
  cases h with
  | ok => rfl
  | error herr => rw [herr]

namespace Extractor

variable {s : Setup} {x : Extractor} {p q : FreeArguments} {types : TypeTable} {name : String}

/-- Under a laxer policy a run ends alike, and appends the same but for free arguments. -/
theorem outcome_and_freer_withPolicy (hb : x.setup.models.Bundled) (h : p.Within q)
    (types : TypeTable) :
    ((x.withPolicy p).run types (.new .standard)).outcome =
        ((x.withPolicy q).run types (.new .standard)).outcome ∧
      Emission.Freer ((x.withPolicy p).run types (.new .standard)).state
        ((x.withPolicy q).run types (.new .standard)).state := by
  have hstart : Emission.Freer ⟨types, (x.withPolicy p).memo, [], #[], #[]⟩
      ⟨types, (x.withPolicy q).memo, [], #[], #[]⟩ := ⟨rfl, rfl, fun _ _ => rfl, .refl _⟩
  have hknown : ∀ st ∈ (x.setup.withPolicy p).plan x.matched, st.isKnown = true := fun st hst =>
    (Setup.regular_of_bundled (s := x.setup.withPolicy p) hb hst).isKnown
  have hsteps := Emit.together_steps_freed (t := ⟨x.objects, .new .standard⟩) rfl
    (Setup.freed_plan h x.matched) hknown
  obtain ⟨hboth, _, _, hfreer⟩ := outcomes_of_together (x := x.withPolicy p) (y := x.withPolicy q)
    (E := Eq) hsteps hstart
  exact ⟨hboth.eq, hfreer.types, hfreer.memo, hfreer.other, hfreer.free⟩

theorem relation_withPolicy (hb : x.setup.models.Bundled) (types : TypeTable)
    (p q : FreeArguments) (hname : name ≠ "free_argument") :
    ((x.withPolicy p).generate types (.new .standard)).store.relation name =
      ((x.withPolicy q).generate types (.new .standard)).store.relation name := by
  have hp := (outcome_and_freer_withPolicy hb p.never_within types).2.other name hname
  have hq := (outcome_and_freer_withPolicy hb q.never_within types).2.other name hname
  rw [relation_generate, relation_generate]
  exact hp.trans hq.symm

theorem outcome_withPolicy (hb : x.setup.models.Bundled) (types : TypeTable)
    (p q : FreeArguments) :
    ((x.withPolicy p).generate types (.new .standard)).outcome =
      ((x.withPolicy q).generate types (.new .standard)).outcome :=
  (outcome_and_freer_withPolicy hb p.never_within types).1.symm.trans
    (outcome_and_freer_withPolicy hb q.never_within types).1

theorem sublist_withPolicy (hb : x.setup.models.Bundled) (h : p.Within q) (types : TypeTable) :
    (((x.withPolicy p).generate types (.new .standard)).store.relation "free_argument").Sublist
      (((x.withPolicy q).generate types (.new .standard)).store.relation "free_argument") := by
  rw [relation_generate, relation_generate]
  exact (outcome_and_freer_withPolicy hb h types).2.free

/-- If the policy admits no function, no argument is free. -/
theorem relation_of_never (hb : x.setup.models.Bundled)
    (hnever : x.setup.config.freeArguments = .never) :
    (x.generate types (.new .standard)).store.relation "free_argument" = [] := by
  rw [relation_generate, List.filterMap_eq_nil_iff]
  intro entry hentry
  obtain ⟨st, hst, r, hr, hgives⟩ := exists_row_of_entry hentry
  have havoids : st.Avoids "free_argument" := by
    cases Setup.mem_plan_iff.1 hst with
    | preamble h => exact h.describes.avoids (by decide)
    | global _ h => exact h.describes.avoids (by decide)
    | function _ h =>
      refine h.avoids_free ?_
      simp [hnever, FreeArguments.isFree, FreeArguments.admits]
    | block => exact (Setup.describes_block _ _).avoids (by decide)
    | terminator _ h => exact h.describes.avoids (by decide)
    | instr _ h => exact h.describes.avoids (by decide)
    | effect _ h => exact h.avoids (by decide) (hb.write_ne (by decide))
    | mark _ h => exact h.describes.avoids (by decide)
  rw [Entry.fact?, hgives.1, if_neg (havoids r hr)]

end Extractor

end PointsTo
