import Mathlib
import PointsTo.Proofs.EmissionRuns
import PointsTo.Proofs.Mentions

/-!
# When a description succeeds

An extractor describes its module into the standard relations unless the module has one of
two references that its check does not look at: an operand that is a label without a block,
or a case value that is not in the pool. Nothing else can go wrong: every row fits its
relation, and whatever else a row mentions has an id.
-/

namespace PointsTo

/-! ## The standard relations -/

theorem Schema.relations_standard :
    Schema.standard.relations = .ofList (Relation.standard.map fun r => (r.name, r)) := rfl

theorem Schema.contains_standard {r : Relation} (h : r ∈ Relation.standard) :
    Schema.standard.contains r = true := by
  have hnodup : (Relation.standard.map Relation.name).Nodup := by decide
  have hname : Schema.standard.relations.contains r.name = true := by
    rw [relations_standard, Table.contains_ofList, List.map_map]
    exact List.mem_map.2 ⟨r, h, rfl⟩
  obtain ⟨r', hr'⟩ := Option.isSome_iff_exists.1 hname
  rw [relations_standard] at hr'
  obtain ⟨r'', hmem, heq⟩ := List.mem_map.1 (Table.mem_of_get?_ofList hr')
  obtain ⟨hnames, rfl⟩ := Prod.mk.inj heq
  obtain rfl : r'' = r := List.inj_on_of_nodup_map hnodup hmem h hnames
  rw [← relations_standard] at hr'
  simp [contains, get?, hr']

theorem Relation.mismatch?_eq_none {r : Relation} {fact : Fact}
    (h : fact.map Term.column = r.columns) : r.mismatch? fact = none := by
  have hzip : fact.zip r.columns = fact.map fun term => (term, term.column) := by
    rw [← h, List.zip_eq_zipWith, List.zipWith_map_right, List.zipWith_self]
  unfold mismatch?
  rw [hzip, List.findSome?_eq_none_iff]
  rintro ⟨e, position⟩ hmem
  obtain ⟨term, -, rfl⟩ := List.mem_map.1 (List.fst_mem_of_mem_zipIdx hmem)
  simp

/-- A fact with the right columns is refused only if its relation is not declared. -/
theorem Schema.check_of_columns {r : Relation} {fact : Fact}
    (h : fact.map Term.column = r.columns) (s : Schema) :
    s.check r fact = if s.contains r then .ok () else .error (.undeclared r.name) := by
  have hlength : fact.length = r.arity := by
    rw [Relation.arity, ← h, List.length_map]
  cases hr : s.contains r <;> simp [check, hr, hlength, Relation.mismatch?_eq_none h]

theorem Schema.check_standard {r : Relation} {fact : Fact} (hr : r ∈ Relation.standard)
    (h : fact.map Term.column = r.columns) : Schema.standard.check r fact = .ok () := by
  rw [check_of_columns h, if_pos (contains_standard hr)]

/-! ## Rows that fit -/

theorem Cell.column_of_resolve {x : ObjectTable Value} {types : TypeTable} {cell : Cell}
    {term : Term} (h : cell.resolve x types = .ok term) : term.column = cell.column := by
  cases cell with
  | object o =>
    obtain ⟨id, -, rfl⟩ := resolve_object_eq_ok h
    rfl
  | int n => cases h; rfl
  | str text => cases h; rfl
  | typeText t => cases h; rfl

theorem Row.columns_of_resolve {x : ObjectTable Value} {types : TypeTable} {cells : List Cell}
    {fact : Fact} (h : List.Forall₂ (fun cell term => cell.resolve x types = .ok term) cells fact) :
    fact.map Term.column = cells.map Cell.column := by
  rw [← List.forall₂_eq_eq_eq, List.forall₂_map_left_iff, List.forall₂_map_right_iff]
  exact h.flip.imp fun _ _ hresolve => Cell.column_of_resolve hresolve

theorem Cell.exists_of_resolve_error {x : ObjectTable Value} {types : TypeTable} {cell : Cell}
    {err : ExtractError} (h : cell.resolve x types = .error err) :
    ∃ o, cell = .object o ∧ o.resolve x = .error err := by
  cases cell with
  | object o =>
    refine ⟨o, rfl, ?_⟩
    cases ho : o.resolve x with
    | error err' => simpa [Cell.resolve, ho, Except.map] using h
    | ok id => simp [Cell.resolve, ho, Except.map] at h
  | int n => cases h
  | str text => cases h
  | typeText t => cases h

variable {s : Setup}

/-- A row that fits fails only for an object it mentions. -/
theorem Row.Fits.exists_of_failsWith {r : Row} (h : r.Fits s) {x : ObjectTable Value}
    {err : ExtractError} (herr : r.FailsWith ⟨x, .new .standard⟩ err) :
    ∃ o, s.Mentions o ∧ o.resolve x = .error err := by
  obtain ⟨types, haccept⟩ := herr
  unfold Row.accept Row.resolve at haccept
  rcases mapM_cases (Cell.resolve x types) r.cells with
    ⟨fact, hfact, hcells⟩ | ⟨e, he, cell, hcell, hresolve⟩
  · have hcolumns : fact.map Term.column = r.relation.columns :=
      (Row.columns_of_resolve hcells).trans h.columns
    have hcheck : Schema.check (Emission.Target.schema ⟨x, .new .standard⟩) r.relation fact =
        .ok () := Schema.check_standard h.standard hcolumns
    simp [hfact, hcheck] at haccept
  · simp only [he, Except.error.injEq] at haccept
    subst haccept
    obtain ⟨o, rfl, ho⟩ := Cell.exists_of_resolve_error hresolve
    exact ⟨o, h.mentions o hcell, ho⟩

/-- A step that fits fails only for an object it mentions. -/
theorem Step.Fits.exists_of_failsWith {st : Step} (h : st.Fits s) {x : ObjectTable Value}
    {err : ExtractError} (herr : st.FailsWith ⟨x, .new .standard⟩ err) :
    ∃ o, s.Mentions o ∧ o.resolve x = .error err := by
  cases herr with
  | need ho => exact ⟨_, h, ho⟩
  | act => exact h.elim
  | row hmay hrow =>
    refine Row.Fits.exists_of_failsWith ?_ hrow
    cases hmay with
    | row r => exact h
    | valueType v ty id => exact Row.fits_typeText _ (by decide) h id
    | pointerValue v ty => exact Row.fits_one _ (by decide) h
    | guarded ty hr => exact (h _ hr).1
    | act => exact h.elim

/-! ## Objects that have ids -/

/-- A reference of the module that leads nowhere, as a description reports it. -/
inductive Module.Dangling (m : Module) : ExtractError → Prop
  | label {f : FunctionId} {function : Function} {b : Block} {l : Label} :
      m.HasBlock f function b → .label l ∈ Function.blockOperands b →
      function.body.contains l = false → m.Dangling (.object (.unregistered (.block f l)))
  | case {c : ConstId} : m.HasCase c → ¬ m.HasConstant c →
      m.Dangling (.unit (.undefinedConstant c))

theorem ObjectRef.resolve_value {x : ObjectTable Value} {v : Value} (h : x.contains v = true) :
    ∃ id, (ObjectRef.value v).resolve x = .ok id := by
  obtain ⟨id, hid⟩ := ObjectTable.contains_iff_idOf.1 h
  exact ⟨id, by simp [resolve, hid, Except.mapError]⟩

theorem ObjectRef.not_error_of_ok {x : ObjectTable Value} {o : ObjectRef} {err : ExtractError}
    (h : ∃ id, o.resolve x = .ok id) : o.resolve x ≠ .error err := by
  obtain ⟨id, hid⟩ := h
  simp [hid]

theorem ObjectRef.resolve_value_error {x : ObjectTable Value} {v : Value}
    (h : x.contains v = false) :
    (ObjectRef.value v).resolve x = .error (.object (.unregistered v)) := by
  have hnone : x.find? v = none := by simpa [ObjectTable.contains] using h
  simp [resolve, ObjectTable.idOf, hnone, Except.mapError]

namespace Extractor.Registered

variable {x : Extractor}

/-- A part has an id, with the slot that says what the part owns. -/
theorem exists_slot (h : x.Registered) {v : Value} {k : Nat} (hv : (v, k) ∈ x.setup.parts) :
    ∃ id, x.objects.idOf v = .ok id ∧ x.objects.slot id = .ok (.owning v k) := by
  obtain ⟨id, hslot⟩ := ObjectTable.mem_owners_iff.1 (h.mem_owners_iff.2 (.inl hv))
  exact ⟨id, ObjectTable.idOf_eq_ok_iff.2 ((h.blocks.find?_iff v id).2 ⟨k, hslot⟩), hslot⟩

theorem resolve_owned (h : x.Registered) {v : Value} {k n : Nat} (hv : (v, k) ∈ x.setup.parts)
    (hpos : 0 < n) (hle : n ≤ k) : ∃ id, (ObjectRef.affiliated v n).resolve x.objects = .ok id := by
  obtain ⟨id, hid, hslot⟩ := h.exists_slot hv
  refine ⟨⟨id.index + n⟩, ?_⟩
  simp [ObjectRef.resolve, hid, Except.bind, ObjectTable.affiliated, hslot, hpos.ne', hle,
    Except.mapError]

theorem resolve_storage (h : x.Registered) {v : Value} {k : Nat} (hv : (v, k) ∈ x.setup.parts) :
    ∃ id, (ObjectRef.storage v).resolve x.objects = .ok id := by
  obtain ⟨id, hid, hslot⟩ := h.exists_slot hv
  cases k with
  | zero =>
    refine ⟨id, ?_⟩
    simp [ObjectRef.resolve, hid, Except.bind, ObjectTable.storage, ObjectTable.affiliated, hslot,
      Except.mapError]
  | succ k =>
    refine ⟨⟨id.index + 1⟩, ?_⟩
    simp [ObjectRef.resolve, hid, Except.bind, ObjectTable.storage, ObjectTable.affiliated, hslot,
      Except.mapError]

/-- A block has an id exactly if its function has a block under the label. -/
theorem contains_block_iff (h : x.Registered) (hl : x.setup.unit.Labelled) {f : FunctionId}
    {function : Function} (hf : (f, function) ∈ x.setup.unit.functionList) {l : Label} :
    x.objects.contains (.block f l) = true ↔ function.body.contains l = true := by
  constructor
  · intro hcontains
    obtain ⟨k, hk⟩ := h.exists_part_of_contains hcontains rfl
    obtain ⟨function', b, hb, rfl⟩ := Setup.hasBlock_of_mem_parts hk
    have hfunction := Module.mem_functionList_iff.1 hf
    rw [Module.mem_functionList_iff.1 hb.mem_functionList] at hfunction
    cases hfunction
    exact (hl function (Module.mem_functions_of_mem hf)).contains_iff.2 ⟨b, hb.mem_blocks, rfl⟩
  · exact fun hlabel => h.contains_of_mem_parts (Setup.label_mem_parts hf hl hlabel)

/-- What a plan mentions has an id, unless the reference to it leads nowhere. -/
theorem dangling_of_mentions (h : x.Registered) (hl : x.setup.unit.Labelled) {o : ObjectRef}
    (ho : x.setup.Mentions o) {err : ExtractError} (herr : o.resolve x.objects = .error err) :
    x.setup.unit.Dangling err := by
  cases ho with
  | special position => cases herr
  | part hpart =>
    have hok := ObjectRef.resolve_value (h.contains_of_mem_parts hpart)
    exact absurd herr (ObjectRef.not_error_of_ok hok)
  | storage hpart => exact absurd herr (ObjectRef.not_error_of_ok (h.resolve_storage hpart))
  | owned hpart hpos hle =>
    exact absurd herr (ObjectRef.not_error_of_ok (h.resolve_owned hpart hpos hle))
  | constant hc hr =>
    have hok := ObjectRef.resolve_value (h.contains_constantValue hc hr)
    exact absurd herr (ObjectRef.not_error_of_ok hok)
  | @label f function b l hb hlabel =>
    by_cases hcontains : function.body.contains l = true
    · have hok := ObjectRef.resolve_value
        ((h.contains_block_iff hl hb.mem_functionList).2 hcontains)
      exact absurd herr (ObjectRef.not_error_of_ok hok)
    · have hblock : x.objects.contains (.block f l) = false := by
        rw [Bool.eq_false_iff, ne_eq, h.contains_block_iff hl hb.mem_functionList]
        exact hcontains
      rw [ObjectRef.resolve_value_error hblock] at herr
      cases herr
      exact .label hb hlabel (by simpa using hcontains)
  | missing hcase hconstant =>
    cases herr
    exact .case hcase hconstant

end Extractor.Registered

/-! ## Success -/

def Operand.label? : Operand → Option Label
  | .label l => some l
  | _ => none

namespace Module

/-- Operands name blocks of their own functions. -/
def LabelsExist (m : Module) : Prop :=
  ∀ f ∈ m.functions, ∀ b ∈ f.blocks, ∀ l ∈ (Function.blockOperands b).filterMap Operand.label?,
    f.body.contains l = true

/-- Case values of switches are in the pool. -/
def CasesExist (m : Module) : Prop :=
  ∀ f ∈ m.functions, ∀ b ∈ f.blocks, ∀ c ∈ b.terminator.caseValues, m.HasConstant c

instance (m : Module) (c : ConstId) : Decidable (m.HasConstant c) :=
  inferInstanceAs (Decidable (_ = true))

instance (m : Module) : Decidable m.LabelsExist :=
  inferInstanceAs (Decidable (∀ f ∈ m.functions, ∀ b ∈ f.blocks,
    ∀ l ∈ (Function.blockOperands b).filterMap Operand.label?, f.body.contains l = true))

instance (m : Module) : Decidable m.CasesExist :=
  inferInstanceAs (Decidable (∀ f ∈ m.functions, ∀ b ∈ f.blocks,
    ∀ c ∈ b.terminator.caseValues, m.HasConstant c))

theorem not_dangling {m : Module} (hlabels : m.LabelsExist) (hcases : m.CasesExist)
    {err : ExtractError} : ¬ m.Dangling err := by
  intro h
  cases h with
  | @label f function b l hb hlabel hnone =>
    have hcontains := hlabels function (mem_functions_of_mem hb.mem_functionList) b hb.mem_blocks l
      (List.mem_filterMap.2 ⟨_, hlabel, rfl⟩)
    rw [hcontains] at hnone
    cases hnone
  | case hcase hconstant =>
    obtain ⟨f, hf, b, hb, hc⟩ := hcase
    exact hconstant (hcases f hf b hb _ hc)

end Module

namespace Setup

/-- Each operand of a block has its row in the plan. -/
theorem operand_mem_plan {f : FunctionId} {function : Function} {b : Block}
    (hb : s.unit.HasBlock f function b) {o : Operand} (ho : o ∈ Function.blockOperands b)
    (matched : MatchedCalls) :
    ∃ (user : Value) (k : Nat), .row ⟨.operand, [user, k, (Scope.new f function).object s.unit o]⟩ ∈
      s.plan matched := by
  rcases List.mem_append.1 ho with ho | ho
  · obtain ⟨i, hi, ho⟩ := List.mem_flatMap.1 ho
    obtain ⟨n, hn⟩ := List.mem_iff_getElem?.1 hi
    obtain ⟨k, hk⟩ := List.mem_iff_getElem?.1 ho
    exact ⟨_, k, mem_plan_iff.2 (.instr ⟨hb, List.mk_mem_zipIdx_iff_getElem?.2 hn⟩
      (.operand (List.mk_mem_zipIdx_iff_getElem?.2 hk)))⟩
  · obtain ⟨k, hk⟩ := List.mem_iff_getElem?.1 ho
    exact ⟨_, k, mem_plan_iff.2 (.terminator hb (.operand (List.mk_mem_zipIdx_iff_getElem?.2 hk)))⟩

/-- A case value that the pool lacks is needed by the plan. -/
theorem need_mem_plan {c : ConstId} (hcase : s.unit.HasCase c) (hc : ¬ s.unit.HasConstant c)
    (matched : MatchedCalls) : .need (.missing (.undefinedConstant c)) ∈ s.plan matched := by
  have hnone : s.unit.constants.get? c = none := by simpa [Module.HasConstant] using hc
  have hself : (s.unit.constantValue c).isConstant = true := by
    simp [Module.constantValue, hnone, Value.isConstant]
  have hleave : .leave c ∈ s.unit.marksOf s.unit.references := Module.leave_mem_marksOf_iff.2
    ⟨hself, c, Module.mem_references_iff.2 (.inr hcase), .refl⟩
  have henter := ((Module.adds_marksOf s.unit.references).balanced c).2 hleave
  exact mem_plan_iff.2 (.mark henter (.missing hc))

end Setup

namespace Extractor

variable {x : Extractor} {types : TypeTable}

/-- A row that succeeds resolves every object it mentions. -/
theorem resolve_of_row {t : Emission.Target} {r : Row} {new : List Entry}
    (h : (Step.row r).Appends t new) {o : ObjectRef} (ho : .object o ∈ r.cells) :
    ∃ id, o.resolve t.objects = .ok id := by
  obtain ⟨entry, -, -, types, haccept⟩ := h.row r rfl
  obtain ⟨term, -, hterm⟩ := exists_left_of_mem_right (Row.forall₂_of_accept haccept).flip ho
  obtain ⟨id, hid, -⟩ := Cell.resolve_object_eq_ok hterm
  exact ⟨id, hid⟩

theorem labelsExist_of_outcome (h : x.Registered) (hl : x.setup.unit.Labelled)
    (hok : (x.run types (.new .standard)).outcome = .ok ()) : x.setup.unit.LabelsExist := by
  intro function hfunction b hblock l hmem
  have hlabel : .label l ∈ Function.blockOperands b := by
    obtain ⟨o, ho, hol⟩ := List.mem_filterMap.1 hmem
    cases o with
    | label l' => cases hol; exact ho
    | reg r => cases hol
    | imm c => cases hol
  obtain ⟨n, hn⟩ := List.mem_iff_getElem?.1 hfunction
  have hb : x.setup.unit.HasBlock ⟨n⟩ function b := ⟨Module.mem_functionList_iff.2 hn, hblock⟩
  obtain ⟨user, k, hrow⟩ := Setup.operand_mem_plan hb hlabel x.matched
  obtain ⟨new, hnew⟩ := exists_appends_of_mem hok hrow
  have hid := resolve_of_row hnew (o := .value (.block ⟨n⟩ l)) (by simp [Scope.object, Scope.new])
  rw [← h.contains_block_iff hl hb.mem_functionList]
  by_contra hnot
  exact ObjectRef.not_error_of_ok hid (ObjectRef.resolve_value_error (by simpa using hnot))

theorem casesExist_of_outcome {store : FactStore} (hok : (x.run types store).outcome = .ok ()) :
    x.setup.unit.CasesExist := by
  intro f hf b hb c hcase
  by_contra hc
  obtain ⟨new, hnew⟩ := exists_appends_of_mem hok
    (Setup.need_mem_plan ⟨f, hf, b, hb, hcase⟩ hc x.matched)
  obtain ⟨id, hid⟩ := hnew.need _ rfl
  cases hid

/-- A run into the standard relations fails only for a reference that leads nowhere. -/
theorem Registered.dangling_of_outcome (hx : x.Registered) (hl : x.setup.unit.Labelled)
    (hb : x.setup.models.Bundled) {err : ExtractError}
    (herr : (x.run types (.new .standard)).outcome = .error err) : x.setup.unit.Dangling err := by
  obtain ⟨st, hst, hfails⟩ := exists_failing_step herr
  rw [hx.matched] at hst
  obtain ⟨o, ho, hresolve⟩ := (Setup.fits_plan hx.checked hl hb st hst).exists_of_failsWith hfails
  exact hx.dangling_of_mentions hl ho hresolve

theorem Registered.outcome_of_exist (hx : x.Registered) (hl : x.setup.unit.Labelled)
    (hb : x.setup.models.Bundled) (hlabels : x.setup.unit.LabelsExist)
    (hcases : x.setup.unit.CasesExist) : (x.run types (.new .standard)).outcome = .ok () := by
  cases houtcome : (x.run types (.new .standard)).outcome with
  | ok u => rfl
  | error err =>
    exact absurd (hx.dangling_of_outcome hl hb houtcome) (Module.not_dangling hlabels hcases)

/-- Describing a module into the standard relations succeeds exactly if its operands name
blocks that there are and its switches have cases that are in the pool. If it fails it
reports one such reference, and nothing else. -/
theorem generate_ok_iff {s : Setup} (hl : s.unit.Labelled) (hb : s.models.Bundled)
    (hnew : (Extractor.new s).1 = .ok x) (types : TypeTable) :
    ((x.generate types (.new .standard)).outcome = .ok () ↔
      s.unit.LabelsExist ∧ s.unit.CasesExist) ∧
        ∀ err, (x.generate types (.new .standard)).outcome = .error err → s.unit.Dangling err := by
  obtain ⟨rfl, hx⟩ := registered_of_new hl hnew
  refine ⟨⟨fun hok => ⟨labelsExist_of_outcome hx hl hok, casesExist_of_outcome hok⟩, ?_⟩, ?_⟩
  · rintro ⟨hlabels, hcases⟩
    exact hx.outcome_of_exist hl hb hlabels hcases
  · exact fun err herr => hx.dangling_of_outcome hl hb herr

/-- A call to an allocator, whose result goes to a stack slot and on to a phi. A global
holds an aggregate, a block ends in a switch, and one operand is a label. -/
def allocating : Setup where
  unit :=
    { name := "m"
      globals := [⟨"g", ⟨2⟩, some ⟨3⟩, .external, .default, false⟩]
      functions :=
        [.declare "malloc" [(⟨0⟩, ⟨1⟩)] (some ⟨0⟩),
          .define "main" [(⟨0⟩, ⟨1⟩)] (some ⟨0⟩)
            [⟨.entry,
              [.alloca ⟨1⟩ ⟨0⟩ (.imm ⟨0⟩) none,
                .invoke ⟨.imm ⟨2⟩, [.imm ⟨0⟩], some ⟨2⟩, some ⟨0⟩⟩,
                .store (.reg ⟨1⟩) (.reg ⟨2⟩) ⟨none, none, false⟩],
              .switch (.reg ⟨0⟩) ⟨1⟩ [(⟨0⟩, .entry), (⟨1⟩, ⟨1⟩)]⟩,
              ⟨⟨1⟩,
                [.phi ⟨3⟩ ⟨0⟩ [(.entry, .reg ⟨2⟩)], .icmp ⟨4⟩ ⟨0⟩ .eq (.label .entry) (.reg ⟨3⟩)],
                .ret (some (.reg ⟨3⟩))⟩]]
      constants := Module.fewConstants.push ⟨.aggregate ⟨2⟩ [⟨1⟩, ⟨2⟩, ⟨0⟩], ⟨2⟩⟩ (by decide) }
  config := .default
  models := .standard .default

theorem labelled_allocating : allocating.unit.Labelled := by
  unfold Module.Labelled Function.Labelled
  decide

theorem bundled_allocating : allocating.models.Bundled := by
  simp [CallModels.Bundled, allocating, CallModels.standard]

theorem outcome_allocating {x : Extractor} (hx : (Extractor.new allocating).1 = .ok x) :
    (x.generate .empty (.new .standard)).outcome = .ok () := by
  obtain ⟨hsetup, hregistered⟩ := registered_of_new labelled_allocating hx
  refine hregistered.outcome_of_exist ?_ ?_ ?_ ?_ <;> rw [hsetup]
  · exact labelled_allocating
  · exact bundled_allocating
  · decide
  · decide

theorem allocating_generates :
    allocating.unit.Labelled ∧ allocating.models.Bundled ∧
      ∃ x, (Extractor.new allocating).1 = .ok x ∧
        (x.generate .empty (.new .standard)).outcome = .ok () := by
  have hnew : ∃ x, (Extractor.new allocating).1 = .ok x := ⟨_, rfl⟩
  obtain ⟨x, hx⟩ := hnew
  exact ⟨labelled_allocating, bundled_allocating, x, hx,
    (generate_ok_iff labelled_allocating bundled_allocating hx .empty).1.2 (by decide)⟩

end Extractor

end PointsTo
