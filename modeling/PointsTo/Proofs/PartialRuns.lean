import Mathlib
import PointsTo.Proofs.Answers
import PointsTo.Proofs.Schemas
import PointsTo.Proofs.Stores
import PointsTo.Proofs.Verification

/-!
# Descriptions that fail

A description appends fact by fact, and one that fails keeps what it has appended. The first
fact of every description needs no id, so it is refused only by a schema that does not declare
its relation. Hence a store is left as it was exactly if the description cannot even begin.
-/

namespace PointsTo

namespace FactStore

/-- Entries that change no relation are none. -/
theorem relation_foldl_record_eq_iff (s : FactStore) (entries : List Entry) :
    (∀ name, (entries.foldl record s).relation name = s.relation name) ↔ entries = [] := by
  constructor
  · intro h
    cases entries with
    | nil => rfl
    | cons e rest =>
      have hname := h e.relation.name
      rw [relation_foldl_record] at hname
      simp [Entry.fact?] at hname
  · rintro rfl name
    rfl

end FactStore

namespace Setup

variable {s : Setup} {matched : MatchedCalls}

/-- The relation of the first fact of a description. -/
def opening (s : Setup) : Relation :=
  if s.config.specialObjects.isEmpty then .moduleName else .specialObject

/-- A description lists the special objects, names the module, and goes on. -/
theorem exists_plan_special (s : Setup) (matched : MatchedCalls) :
    ∃ rest, s.plan matched = (s.config.specialObjects.zipIdx.map fun e =>
        Step.row ⟨.specialObject, [ObjectRef.special e.2, e.1]⟩) ++
      .row ⟨.moduleName, [s.unit.name]⟩ :: rest :=
  ⟨_, List.append_assoc _ (_ :: _) _⟩

/-- A description begins with a row that has a fact whatever the objects are. -/
theorem plan_opens (s : Setup) (matched : MatchedCalls) :
    ∃ cells rest, s.plan matched = .row ⟨s.opening, cells⟩ :: rest ∧
      ∀ x types, ∃ fact, Row.resolve x types ⟨s.opening, cells⟩ = .ok fact ∧
        fact.map Term.column = s.opening.columns := by
  obtain ⟨rest, hplan⟩ := s.exists_plan_special matched
  rw [hplan, opening]
  cases s.config.specialObjects with
  | nil => exact ⟨_, _, rfl, fun _ _ => ⟨[.str s.unit.name], rfl, rfl⟩⟩
  | cons name names => exact ⟨_, _, rfl, fun _ _ => ⟨[.object ⟨0⟩, .str name], rfl, rfl⟩⟩

end Setup

namespace Extractor

variable {x : Extractor} {types : TypeTable} {store : FactStore}

theorem appends_of_undeclared
    (h : store.schema.get? x.setup.opening.name ≠ some x.setup.opening) :
    x.appends types store = [] ∧ (x.generate types store).outcome =
      .error (.store (.undeclared x.setup.opening.name)) := by
  obtain ⟨cells, rest, hplan, hopen⟩ := x.setup.plan_opens x.matched
  obtain ⟨fact, hfact, hcolumns⟩ := hopen x.objects types
  have hundeclared : store.schema.contains x.setup.opening = false := by
    rw [← Bool.not_eq_true, Schema.contains_eq_true_iff]
    exact h
  have haccept : Row.accept ⟨x.objects, store⟩ types ⟨x.setup.opening, cells⟩ =
      .error (.store (.undeclared x.setup.opening.name)) := by
    simp [Row.accept, hfact, Schema.check_of_columns hcolumns, hundeclared]
  obtain ⟨log, hexec⟩ := x.exec_steps types store
  rw [hplan, Emit.steps, Step.run, Emit.exec_bind, Emit.exec_row, haccept] at hexec
  obtain ⟨houtcome, hstate⟩ := Prod.mk.inj hexec
  have hentries : #[] = (x.run types store).entries := congrArg Emission.entries hstate
  exact ⟨congrArg Array.toList hentries.symm, houtcome.symm⟩

theorem appends_ne_nil_of_declared
    (h : store.schema.get? x.setup.opening.name = some x.setup.opening) :
    x.appends types store ≠ [] := by
  obtain ⟨cells, rest, hplan, hopen⟩ := x.setup.plan_opens x.matched
  obtain ⟨fact, hfact, hcolumns⟩ := hopen x.objects types
  have haccept : Row.accept ⟨x.objects, store⟩ types ⟨x.setup.opening, cells⟩ = .ok fact := by
    simp [Row.accept, hfact, Schema.check_of_columns hcolumns, Schema.contains_eq_true_iff.2 h]
  obtain ⟨log, hexec⟩ := x.exec_steps types store
  rw [hplan, Emit.steps, Step.run, Emit.exec_bind, Emit.exec_row, haccept] at hexec
  dsimp only at hexec
  obtain ⟨new, hnew, -⟩ := (Emit.advances_steps ⟨x.objects, store⟩ rest).entries
    (Emission.append ⟨types, x.memo, [], #[], #[]⟩ ⟨x.setup.opening, fact⟩)
  rw [hexec] at hnew
  have hentries : x.appends types store = ⟨x.setup.opening, fact⟩ :: new := hnew
  rw [hentries]
  exact List.cons_ne_nil _ _

/-- What a store held stays, and a description that fails keeps what it has appended. The facts
of the store are the same as before exactly if its schema does not declare the relation of the
first fact, and then the description fails for that reason. -/
theorem generate_unchanged_iff (x : Extractor) (types : TypeTable) (store : FactStore) :
    (∀ name, store.relation name <+: (x.generate types store).store.relation name) ∧
      ((∀ name, (x.generate types store).store.relation name = store.relation name) ↔
        store.schema.get? x.setup.opening.name ≠ some x.setup.opening) ∧
      (store.schema.get? x.setup.opening.name ≠ some x.setup.opening →
        (x.generate types store).outcome =
          .error (.store (.undeclared x.setup.opening.name))) := by
  refine ⟨fun name => ?_, ?_, fun h => (appends_of_undeclared h).2⟩
  · rw [store_generate, FactStore.relation_foldl_record]
    exact List.prefix_append _ _
  · rw [store_generate, FactStore.relation_foldl_record_eq_iff]
    exact ⟨fun hnil hdeclared => appends_ne_nil_of_declared hdeclared hnil,
      fun h => (appends_of_undeclared h).1⟩

/-- A switch between a constant and one that the module lacks. -/
def lackingCase : Setup := ⟨Module.switching ⟨0⟩ ⟨9⟩, .default, .standard .default⟩

theorem lackingCase_unchanged :
    ∃ x, (Extractor.new lackingCase).1 = .ok x ∧
      Schema.empty.get? x.setup.opening.name ≠ some x.setup.opening ∧
      (∀ name, (x.generate .empty (.new .empty)).store.relation name = []) ∧
      (x.generate .empty (.new .empty)).outcome =
        .error (.store (.undeclared "special_object")) := by
  refine ⟨_, rfl, by simp [Schema.get?, Schema.empty], ?_, ?_⟩
  · exact (generate_unchanged_iff _ .empty (.new .empty)).2.1.2 (by simp [FactStore.new,
      Schema.get?, Schema.empty])
  · exact (generate_unchanged_iff _ .empty (.new .empty)).2.2 (by simp [FactStore.new,
      Schema.get?, Schema.empty])

/-- A description may fail and leave facts behind. -/
theorem generate_not_atomic :
    ¬ ∀ (s : Setup) (x : Extractor) (types : TypeTable) (store : FactStore) (err : ExtractError),
      (Extractor.new s).1 = .ok x → (x.generate types store).outcome = .error err →
        ∀ name, (x.generate types store).store.relation name = store.relation name := by
  intro h
  have hleaves : ∃ x, (Extractor.new lackingCase).1 = .ok x ∧
      (x.generate .empty (.new .standard)).outcome = .error (.unit (.undefinedConstant ⟨9⟩)) ∧
      (x.generate .empty (.new .standard)).store.relation "module" = [[.str "m"]] :=
    ⟨_, rfl, by decide +kernel⟩
  obtain ⟨x, hnew, houtcome, hmodule⟩ := hleaves
  have hsame := h lackingCase x .empty (.new .standard) _ hnew houtcome "module"
  rw [hmodule] at hsame
  cases hsame

end Extractor

end PointsTo
