import Mathlib
import PointsTo.Proofs.CallAccounts

/-!
# Where pointers come from

An analysis follows a pointer back to a load, an address, another pointer, a call, or to the
object that stands for the unknown. Of the instructions that give pointers, arithmetic has no
such origin, nor has a phi without predecessors. Conversions have one only if they keep the
pointer or make it from an integer: a pointer that comes of another conversion has no origin at
all, not even the unknown one.
-/

namespace PointsTo

/-! ## Origins -/

/-- The names of the relations that say where a pointer comes from. -/
def Relation.ofOrigins : List String :=
  ["load", "address_of", "element_addr", "move", "phi", "call_return", "unknown_source"]

theorem Relation.origin_names :
    load.name ∈ ofOrigins ∧ addressOf.name ∈ ofOrigins ∧ elementAddr.name ∈ ofOrigins ∧
      move.name ∈ ofOrigins ∧ phi.name ∈ ofOrigins ∧ callReturn.name ∈ ofOrigins ∧
      unknownSource.name ∈ ofOrigins := by
  decide

/-- The instruction says nothing about where its result comes from. -/
def Instr.Untraced : Instr → Prop
  | .iarith .. | .farith .. => True
  | .phi _ _ incoming => incoming = []
  | .cast _ op _ _ => op ≠ .bitcast ∧ op ≠ .intToPtr
  | _ => False

theorem Config.exists_specialId?_of_mem {c : Config} {name : String}
    (h : name ∈ c.specialObjects) : ∃ id, c.specialId? name = some id := by
  rw [← Option.isSome_iff_exists, specialId?, Option.isSome_map, List.isSome_idxOf?]
  exact h

namespace Setup

variable {s : Setup} {matched : MatchedCalls} {e : Emission} {scope : Scope} {place : Place}
  {i : Instr} {call : Invoke} {steps : List Step}

/-- The steps say where a pointer comes from. -/
def Traces (e : Emission) (steps : List Step) : Prop :=
  ∃ st ∈ steps, ∃ r ∈ st.rowsIn e, r.relation.name ∈ Relation.ofOrigins

theorem traces_row {r : Row} (hmem : .row r ∈ steps) (hr : r.relation.name ∈ Relation.ofOrigins) :
    Traces e steps :=
  ⟨_, hmem, r, List.mem_singleton.2 rfl, hr⟩

theorem traces_ifPointer_iff {ty : StaticType} {rows : List Row} (hholds : e.holds ty = true) :
    Traces e [.ifPointer ty rows] ↔ ∃ r ∈ rows, r.relation.name ∈ Relation.ofOrigins := by
  simp [Traces, Step.rowsIn, hholds]

/-- Each account of a call says where its result comes from. -/
theorem CallAccount.traces (h : s.CallAccount scope place call steps) (hdest : call.dest.isSome)
    {ty : TypeId} (hty : call.ty = some ty) (hholds : e.holds (.named ty) = true) :
    Traces e steps := by
  cases h with
  | general _ =>
    have hresult : .ifPointer (.named ty) [⟨.callReturn, [Value.instruction place]⟩] ∈
        s.generalCallSteps scope (.instruction place) call := by
      rw [generalCallSteps_eq, hty]
      simp
    exact ⟨_, hresult, ⟨.callReturn, [Value.instruction place]⟩, by simp [Step.rowsIn, hholds],
      by simp [Relation.origin_names]⟩
  | allocation model =>
    exact traces_row (List.mem_cons_of_mem _ (List.mem_cons_of_mem _
      (List.mem_cons_of_mem _ List.mem_cons_self))) (by simp [Relation.origin_names])
  | copy model destination source =>
    rw [if_pos hdest]
    exact traces_row (List.mem_cons_of_mem _ (List.mem_cons_of_mem _ List.mem_cons_self))
      (by simp [Relation.origin_names])

/-- An instruction other than a call whose result is a pointer says where it comes from, unless
it is one of those that never do. -/
theorem traces_effectSteps_iff (hcall : ∀ call, i ≠ .invoke call)
    (hunknown : unknownObject ∈ s.config.specialObjects) (hbit : e.holds .bit = false)
    {ty : StaticType} (hty : i.resultType? = some ty) (hholds : e.holds ty = true) :
    Traces e (s.effectSteps matched scope place i) ↔ ¬ i.Untraced := by
  have hguarded {rows : List Row} : Traces e [.ifPointer ty rows] ↔
      ∃ r ∈ rows, r.relation.name ∈ Relation.ofOrigins := traces_ifPointer_iff hholds
  cases i with
  | icmp | fcmp =>
    cases hty
    rw [hbit] at hholds
    cases hholds
  | load | select =>
    cases hty
    simp [effectSteps, hguarded, Instr.Untraced, Relation.origin_names]
  | phi dest ty incoming =>
    cases hty
    cases incoming <;> simp [effectSteps, hguarded, Instr.Untraced, Relation.origin_names]
  | alloca | elementPtr =>
    simp [effectSteps, Traces, Step.rowsIn, Instr.Untraced, Relation.origin_names]
  | cast dest op ty value =>
    cases hty
    cases op with
    | bitcast => simp [effectSteps, hguarded, Instr.Untraced, Relation.origin_names]
    | intToPtr =>
      obtain ⟨id, hid⟩ := Config.exists_specialId?_of_mem hunknown
      simp [effectSteps, unknownSourceSteps, hid, Traces, Step.rowsIn, Instr.Untraced,
        Relation.origin_names]
    | _ => simp [effectSteps, Traces, Instr.Untraced]
  | store => cases hty
  | iarith | farith => simp [effectSteps, Traces, Instr.Untraced]
  | invoke call => exact absurd rfl (hcall call)

end Setup

/-! ## Facts about origins -/

namespace Extractor

variable {x : Extractor} {types : TypeTable} {place : Place} {i : Instr} {id : ObjectId}

/-- A description says where the object comes from. -/
def HasOrigin (x : Extractor) (types : TypeTable) (id : ObjectId) : Prop :=
  ∃ name ∈ Relation.ofOrigins, (x.generate types (.new .standard)).store.Occurs name 0 id

/-- An object is in the first column of a relation if there are facts about it. -/
theorem occurs_iff {name : String} : (x.generate types (.new .standard)).store.Occurs name 0 id ↔
    x.factsAbout types name id ≠ [] := by
  simp only [FactStore.Occurs, factsAbout, ne_eq, List.filter_eq_nil_iff, decide_eq_true_eq,
    List.head?_eq_getElem?, not_forall, not_not, exists_prop]

/-- Where the result of an instruction comes from is said by its own steps. -/
theorem Finished.hasOrigin_iff (hx : x.Finished types)
    (hi : x.setup.unit.instruction? place = some i) :
    ∃ id scope, x.objects.idOf (.instruction place) = .ok id ∧
      (x.HasOrigin types id ↔ Setup.Traces (x.run types (.new .standard)).state
        (x.setup.effectSteps x.matched scope place i)) := by
  obtain ⟨function, b, id, -, hid, hfacts⟩ := hx.exists_factsAbout hi
  refine ⟨id, .new place.function function, hid, ?_⟩
  have hheaded : ∀ name ∈ Relation.ofOrigins,
      name ∉ (Relation.ofInstrs ++ Relation.withoutSubject).map Relation.name := by decide
  have hrows : ∀ name ∈ Relation.ofOrigins,
      ((x.generate types (.new .standard)).store.Occurs name 0 id ↔
        ∃ r, r ∈ x.rowsOf types name ⟨place, function, i⟩) := by
    intro name hname
    rw [occurs_iff, ← List.length_pos_iff_ne_nil, ← List.length_pos_iff_exists_mem,
      (hfacts name (hheaded name hname)).length_eq]
  constructor
  · rintro ⟨name, hname, hoccurs⟩
    obtain ⟨r, hr⟩ := (hrows name hname).1 hoccurs
    obtain ⟨st, hst, hr⟩ := List.mem_flatMap.1 hr
    obtain ⟨hr, hrelation⟩ := List.mem_filter.1 hr
    exact ⟨st, hst, r, hr, of_decide_eq_true hrelation ▸ hname⟩
  · rintro ⟨st, hst, r, hr, hname⟩
    refine ⟨_, hname, (hrows _ hname).2 ⟨r, List.mem_flatMap.2 ⟨st, hst, ?_⟩⟩⟩
    exact List.mem_filter.2 ⟨hr, decide_eq_true rfl⟩

/-- In a description that succeeds, a result that holds a pointer has an origin unless it comes of
arithmetic, of a phi without predecessors, or of a conversion that neither keeps a pointer nor
makes one from an integer. -/
theorem hasOrigin_iff_not_untraced {s : Setup} (hl : s.unit.Labelled) (hb : s.models.Bundled)
    (hunknown : "unknown" ∈ s.config.specialObjects) (hnew : (Extractor.new s).1 = .ok x)
    (hok : (x.generate types (.new .standard)).outcome = .ok ())
    (hi : s.unit.instruction? place = some i) (hdest : i.dest?.isSome) :
    ∃ id, x.objects.idOf (.instruction place) = .ok id ∧
      (x.isPointer types id = true → (x.HasOrigin types id ↔ ¬ i.Untraced)) := by
  have hmemo : x.memo.Truthful types := by
    obtain ⟨-, r, -, rfl⟩ := exists_settle_of_new hnew
    exact PointerMemo.truthful_empty types
  obtain ⟨rfl, -⟩ := registered_of_new hl hnew
  have hx : x.Finished types := ⟨⟨hnew, hb, hok⟩, hl⟩
  obtain ⟨id, scope, hid, horigin⟩ := hx.hasOrigin_iff hi
  refine ⟨id, hid, fun hpointer => horigin.trans ?_⟩
  rw [hx.isPointer_instruction hi hid] at hpointer
  cases hty : i.resultType? with
  | none => simp [hty] at hpointer
  | some ty =>
    have hholds : (x.run types (.new .standard)).state.holds ty = true := by
      simpa [hty] using hpointer
    by_cases hcall : ∀ call, i ≠ .invoke call
    · exact Setup.traces_effectSteps_iff hcall hunknown (holds_bit hmemo _) hty hholds
    · obtain ⟨call, rfl⟩ := not_forall_not.1 hcall
      obtain ⟨ty, hcall, rfl⟩ := Option.map_eq_some_iff.1 hty
      exact iff_of_true ((hx.callAccount hi scope).traces hdest hcall hholds) not_false

/-- An integer becomes a pointer in two ways, of which one is no conversion to a pointer. -/
def converting : Setup where
  unit :=
    { name := "m"
      globals := []
      functions :=
        [.define "f" [(⟨0⟩, ⟨1⟩)] none
          [⟨.entry,
            [.cast ⟨1⟩ .intToPtr ⟨0⟩ (.reg ⟨0⟩), .cast ⟨2⟩ .trunc ⟨0⟩ (.reg ⟨0⟩)],
            .ret none⟩]]
      constants := Module.fewConstants }
  config := .default
  models := ⟨.firstMatch, []⟩

theorem labelled_converting : converting.unit.Labelled := by
  unfold Module.Labelled Function.Labelled
  decide

theorem bundled_converting : converting.models.Bundled := by
  simp [CallModels.Bundled, converting]

/-- Both conversions give pointers; the facts that tell where a pointer comes from leave out the
second. -/
theorem exists_converting :
    ∃ x, (Extractor.new converting).1 = .ok x ∧
      (x.generate (.ofList [.ptr, .int .i64]) (.new .standard)).outcome = .ok () ∧
      (x.objects.idOf (.instruction ⟨⟨0⟩, .entry, 0⟩) = .ok ⟨5⟩ ∧
        x.isPointer (.ofList [.ptr, .int .i64]) ⟨5⟩ = true) ∧
      (x.objects.idOf (.instruction ⟨⟨0⟩, .entry, 1⟩) = .ok ⟨6⟩ ∧
        x.isPointer (.ofList [.ptr, .int .i64]) ⟨6⟩ = true) ∧
      ∀ name ∈ Relation.ofOrigins, x.factsAbout (.ofList [.ptr, .int .i64]) name ⟨6⟩ = [] :=
  ⟨_, rfl, by decide +kernel⟩

theorem converting_hasOrigin :
    converting.unit.Labelled ∧ converting.models.Bundled ∧
      "unknown" ∈ converting.config.specialObjects ∧
      converting.unit.instruction? ⟨⟨0⟩, .entry, 0⟩ = some (.cast ⟨1⟩ .intToPtr ⟨0⟩ (.reg ⟨0⟩)) ∧
      ∃ x, (Extractor.new converting).1 = .ok x ∧
        (x.generate (.ofList [.ptr, .int .i64]) (.new .standard)).outcome = .ok () ∧
        x.isPointer (.ofList [.ptr, .int .i64]) ⟨5⟩ = true ∧
        x.HasOrigin (.ofList [.ptr, .int .i64]) ⟨5⟩ := by
  have hi : converting.unit.instruction? ⟨⟨0⟩, .entry, 0⟩ =
      some (.cast ⟨1⟩ .intToPtr ⟨0⟩ (.reg ⟨0⟩)) := by decide
  obtain ⟨x, hx, hok, ⟨hid, hpointer⟩, -⟩ := exists_converting
  refine ⟨labelled_converting, bundled_converting, by decide, hi, x, hx, hok, hpointer, ?_⟩
  obtain ⟨id, hid', horigin⟩ :=
    hasOrigin_iff_not_untraced labelled_converting bundled_converting (by decide) hx hok hi rfl
  obtain rfl : id = ⟨5⟩ := Except.ok.inj (hid'.symm.trans hid)
  exact (horigin hpointer).2 (by simp [Instr.Untraced])

/-- A pointer that comes of a truncation has no origin, although the unknown object is there and
the result is neither arithmetic nor a phi. -/
theorem pointer_without_origin :
    converting.unit.Labelled ∧ converting.models.Bundled ∧
      "unknown" ∈ converting.config.specialObjects ∧
      converting.unit.instruction? ⟨⟨0⟩, .entry, 1⟩ = some (.cast ⟨2⟩ .trunc ⟨0⟩ (.reg ⟨0⟩)) ∧
      ∃ x, (Extractor.new converting).1 = .ok x ∧
        (x.generate (.ofList [.ptr, .int .i64]) (.new .standard)).outcome = .ok () ∧
        x.objects.idOf (.instruction ⟨⟨0⟩, .entry, 1⟩) = .ok ⟨6⟩ ∧
        x.isPointer (.ofList [.ptr, .int .i64]) ⟨6⟩ = true ∧
        ¬ x.HasOrigin (.ofList [.ptr, .int .i64]) ⟨6⟩ := by
  obtain ⟨x, hx, hok, -, ⟨hid, hpointer⟩, hfacts⟩ := exists_converting
  refine ⟨labelled_converting, bundled_converting, by decide, by decide, x, hx, hok, hid, hpointer,
    ?_⟩
  rintro ⟨name, hname, hoccurs⟩
  exact occurs_iff.1 hoccurs (hfacts name hname)

end Extractor

end PointsTo
