import Mathlib
import PointsTo.Proofs.PlainRows
import PointsTo.Proofs.Totality

/-!
# Values are listed in id order

For each kind of value there is a relation with a column that lists the values of that
kind. A description that succeeds lists in each of these columns exactly the values that
registration gave ids, each once and in the order of the ids: describing a module meets its
parts and its constants in the order in which they were registered.
-/

namespace PointsTo

/-- The kinds of values that have a column of their own. -/
inductive Kind
  | global | function | argument | block | instruction | constant
  deriving DecidableEq

namespace Kind

/-- The relation that lists the values of a kind. -/
def relation : Kind → Relation
  | .global => .global
  | .function => .function
  | .argument => .argument
  | .block => .block
  | .instruction => .instr
  | .constant => .constant

/-- The names of the relations that list values. -/
def names : List String := ["global", "function", "argument", "block", "instr", "constant"]

theorem name_mem_names (κ : Kind) : κ.relation.name ∈ names := by
  cases κ <;> decide

/-- The column of the relation that has the values. -/
def column : Kind → Nat
  | .argument => 2
  | _ => 0

/-- Whether a value is of a kind; a terminator is an instruction. -/
def holds : Kind → Value → Bool
  | .global, .global _ => true
  | .function, .function _ => true
  | .argument, .argument .. => true
  | .block, .block .. => true
  | .instruction, .instruction _ => true
  | .instruction, .terminator .. => true
  | .constant, .constant _ => true
  | _, _ => false

variable (κ : Kind)

/-- What a step puts into the column of a kind. -/
def cell? : Step → Option (Option Cell)
  | .row r => if r.relation.name = κ.relation.name then some r.cells[κ.column]? else none
  | _ => none

/-- The cells of a column that lists the values of a kind among some. -/
def listed (values : List Value) : List (Option Cell) :=
  (values.filter κ.holds).map fun v => some (.object (.value v))

theorem listed_eq_nil {values : List Value} (h : ∀ v ∈ values, κ.holds v = false) :
    κ.listed values = [] := by
  rw [listed, List.filter_eq_nil_iff.2 fun v hv => by simp [h v hv]]
  rfl

theorem listed_append (values values' : List Value) :
    κ.listed (values ++ values') = κ.listed values ++ κ.listed values' := by
  simp [listed]

/-- Values that are not of the kind may be left out. -/
theorem listed_filter (p : Value → Bool) (h : ∀ v, κ.holds v = true → p v = true)
    (calls : List (Value × Nat)) :
    κ.listed ((calls.filter fun call => p call.1).map Prod.fst) =
      κ.listed (calls.map Prod.fst) := by
  have hfilter : (fun call : Value × Nat => κ.holds call.1 && p call.1) =
      fun call => κ.holds call.1 := by
    funext call
    cases hcall : κ.holds call.1 with
    | false => rfl
    | true => simp [h call.1 hcall]
  simp only [listed, List.filter_map, List.filter_filter, Function.comp_def, hfilter]

theorem holds_constant (v : Value) : Kind.constant.holds v = v.isConstant := by
  cases v <;> rfl

theorem isConstant_of_holds {κ : Kind} (hκ : κ ≠ .constant) {v : Value} (h : κ.holds v = true) :
    v.isConstant = false := by
  cases v with
  | constant c => cases κ <;> first | exact absurd rfl hκ | cases h
  | _ => rfl

theorem listed_flatMap {α : Type} (l : List α) (f : α → List Value) :
    κ.listed (l.flatMap f) = l.flatMap fun a => κ.listed (f a) := by
  induction l with
  | nil => rfl
  | cons a l ih => rw [List.flatMap_cons, List.flatMap_cons, listed_append, ih]

/-- Rows of other relations put nothing into the columns of the kinds. -/
theorem cell?_row {rel : Relation} {cells : List Cell} (h : rel.name ∉ names) :
    κ.cell? (.row ⟨rel, cells⟩) = none :=
  if_neg fun heq : rel.name = κ.relation.name => h (heq ▸ κ.name_mem_names)

theorem cells_rows {α : Type} {rel : Relation} (l : List α) (cells : α → List Cell)
    (h : rel.name ∉ names) : (l.map fun a => Step.row ⟨rel, cells a⟩).filterMap κ.cell? = [] := by
  rw [List.filterMap_eq_nil_iff]
  intro st hst
  obtain ⟨a, -, rfl⟩ := List.mem_map.1 hst
  exact κ.cell?_row h

theorem cell?_eq_map_row? (st : Step) :
    κ.cell? st = (st.row? κ.relation.name).map (·.cells[κ.column]?) := by
  cases st with
  | row r => by_cases hname : r.relation.name = κ.relation.name <;> simp [cell?, Step.row?, hname]
  | _ => rfl

/-- Steps that avoid the relation of a kind put nothing into its column. -/
theorem cells_eq_nil {steps : List Step} (h : ∀ st ∈ steps, st.Avoids κ.relation.name) :
    steps.filterMap κ.cell? = [] := by
  rw [funext κ.cell?_eq_map_row?, ← List.map_filterMap, Step.rows_eq_nil h, List.map_nil]

/-- Steps list values piece by piece. -/
theorem piecewise_listed :
    Setup.Piecewise fun steps values => steps.filterMap κ.cell? = κ.listed values :=
  ⟨rfl, fun h h' => by rw [List.filterMap_append, h, h', listed_append]⟩

end Kind

namespace Setup

variable {s : Setup} {matched : MatchedCalls} (κ : Kind)

/-! ## The outline -/

theorem cells_operandOutline (scope : Scope) (user : Value) (operands : List Operand) :
    (s.operandOutline scope user operands).filterMap κ.cell? = [] :=
  κ.cells_rows operands.zipIdx (fun e => [user, e.2, scope.object s.unit e.1])
    (by decide : Relation.operand.name ∉ Kind.names)

theorem cells_instrOutline (hb : s.models.Bundled) (scope : Scope) (place : Place) (block : Value)
    (i : Instr) :
    (s.instrOutline matched scope place block i).filterMap κ.cell? =
      κ.listed [.instruction place] := by
  have hrow : [Step.row ⟨.instr, [Value.instruction place, i.opcode, block]⟩].filterMap κ.cell? =
      κ.listed [.instruction place] := by
    cases κ <;> rfl
  have htyped : (i.resultType?.toList.map fun ty => Step.typed (.instruction place) ty).filterMap
      κ.cell? = [] := by
    simp [Kind.cell?]
  have heffects : (s.effectSteps matched scope place i).filterMap κ.cell? = [] :=
    κ.cells_eq_nil fun st hst => (mem_effectSteps_iff.1 hst).avoids (by cases κ <;> decide)
      (hb.write_ne (by cases κ <;> decide))
  rw [instrOutline, instrHead, ← hrow, ← List.singleton_append]
  simp only [List.filterMap_append, htyped, heffects, cells_operandOutline, List.append_nil]

theorem cells_terminatorOutline (scope : Scope) (label : Label) (t : Terminator) :
    (s.terminatorOutline scope label t).filterMap κ.cell? =
      κ.listed [.terminator scope.function label] := by
  have hrow : [Step.row ⟨.instr, [Value.terminator scope.function label, t.opcode,
      Value.block scope.function label]⟩].filterMap κ.cell? =
        κ.listed [.terminator scope.function label] := by
    cases κ <;> rfl
  have hsuccessors : ((successorRows scope.function (.block scope.function label) t).map
      Step.row).filterMap κ.cell? = [] := by
    rw [successorRows, List.map_map]
    exact κ.cells_rows _ _ (by decide : Relation.successor.name ∉ Kind.names)
  have hreturns : (s.returnSteps scope t).filterMap κ.cell? = [] := by
    rw [funext κ.cell?_eq_map_row?, ← List.map_filterMap, rows_returnSteps, List.map_nil]
  have hcases : (s.caseOutline (.terminator scope.function label) t.operands.length
      t.caseValues).filterMap κ.cell? = [] :=
    κ.cells_rows t.caseValues.zipIdx (fun e => [Value.terminator scope.function label,
      t.operands.length + e.2, s.unit.constantValue e.1])
      (by decide : Relation.operand.name ∉ Kind.names)
  rw [terminatorOutline, ← hrow, ← List.singleton_append]
  simp only [List.filterMap_append, cells_operandOutline, hsuccessors, hreturns, hcases,
    List.append_nil]

theorem cells_functionHead (f : FunctionId) (function : Function) :
    (s.functionHead f function).filterMap κ.cell? = κ.listed ([.function f] ++
      function.params.zipIdx.flatMap fun e => [.argument f e.2]) := by
  have hself : [Step.row ⟨.function, [Value.function f, function.name]⟩,
      .row ⟨.memoryObject, [Value.function f, "function"]⟩,
      .row ⟨.addressOf, [Value.function f, Value.function f]⟩,
      .typed (.function f) .pointer].filterMap κ.cell? = κ.listed [.function f] := by
    cases κ <;> rfl
  have hargument (k : Nat) (ty : TypeId) :
      (s.argumentSteps f function k ty).filterMap κ.cell? = κ.listed [.argument f k] := by
    unfold argumentSteps
    split <;> cases κ <;> rfl
  have hbody : (if function.isDeclaration then [Step.row ⟨.functionDecl, [Value.function f]⟩]
      else .remark (.emitting function.name function.body.size) ::
        .row ⟨.functionEntry, [Value.function f, Value.block f .entry]⟩ ::
        ((Scope.new f function).names.filterMap fun e => e.2.2.map .intern)).filterMap
          κ.cell? = [] := by
    split
    · exact List.filterMap_cons_none (κ.cell?_row (by decide))
    · rw [List.filterMap_cons_none rfl, List.filterMap_cons_none (κ.cell?_row (by decide)),
        List.filterMap_eq_nil_iff]
      intro st hst
      obtain ⟨e, -, hst⟩ := List.mem_filterMap.1 hst
      obtain ⟨ty, -, rfl⟩ := Option.map_eq_some_iff.1 hst
      rfl
  rw [functionHead, List.filterMap_append, List.filterMap_append, hself, hbody, List.append_nil,
    List.filterMap_flatMap, κ.listed_append, κ.listed_flatMap]
  simp only [hargument]

theorem cells_globalOutline (g : GlobalId) (global : Global) :
    (s.globalOutline g global).filterMap κ.cell? = κ.listed [.global g] := by
  have hhead : [Step.row ⟨.global, [Value.global g, global.name]⟩,
      .typed (.global g) .pointer,
      .row ⟨.memoryObject, [ObjectRef.storage (.global g), "global"]⟩,
      .row ⟨.objectType, [ObjectRef.storage (.global g), .typeText global.ty]⟩,
      .row ⟨.addressOf, [Value.global g, ObjectRef.storage (.global g)]⟩].filterMap κ.cell? =
        κ.listed [.global g] := by
    cases κ <;> rfl
  have hinit : (global.initializer.toList.map fun c => Step.row
      ⟨.globalInit, [ObjectRef.storage (.global g), s.unit.constantValue c]⟩).filterMap
        κ.cell? = [] :=
    κ.cells_rows _ _ (by decide : Relation.globalInit.name ∉ Kind.names)
  rw [globalOutline, List.filterMap_append, hinit, List.append_nil, hhead]

/-- Functions are listed apart from what is in them. -/
theorem listed_functions (s : Setup) :
    (s.unit.functionList.flatMap fun e =>
      κ.listed [.function e.1] ++ κ.listed ((s.functionParts e.1 e.2).map Prod.fst)) =
        κ.listed (s.unit.functionList.map fun e => .function e.1) ++
          κ.listed (s.bodyParts.map Prod.fst) := by
  rw [bodyParts, List.map_flatMap, List.map_eq_flatMap, κ.listed_flatMap, κ.listed_flatMap]
  by_cases hκ : κ = .function
  · have hnone : ∀ e ∈ s.unit.functionList,
        κ.listed ((s.functionParts e.1 e.2).map Prod.fst) = [] := by
      subst hκ
      refine fun e _ => Kind.listed_eq_nil _ fun v hv => ?_
      have hhome := mem_functionParts hv
      cases v <;> first | rfl | cases hhome
    rw [List.flatMap_congr fun e he => by rw [hnone e he, List.append_nil],
      List.flatMap_eq_nil_iff.2 hnone, List.append_nil]
  · have hnone : ∀ e ∈ s.unit.functionList, κ.listed [.function e.1] = [] := by
      refine fun e _ => κ.listed_eq_nil fun v hv => ?_
      obtain rfl := List.mem_singleton.1 hv
      cases κ <;> first | rfl | exact absurd rfl hκ
    rw [List.flatMap_congr fun e he => by rw [hnone e he, List.nil_append],
      List.flatMap_eq_nil_iff.2 hnone, List.nil_append]

/-- The outline lists the parts of the module. -/
theorem cells_outline (hb : s.models.Bundled) :
    (s.outline matched).filterMap κ.cell? = κ.listed (s.parts.map Prod.fst) := by
  have hpreamble : s.preamble.filterMap κ.cell? = κ.listed [] :=
    κ.cells_eq_nil fun st hst => (mem_preamble_iff.1 hst).describes.avoids (by cases κ <;> decide)
  have hblock (f : FunctionId) (l : Label) :
      [Step.row ⟨.block, [Value.block f l, Value.function f]⟩].filterMap κ.cell? =
        κ.listed [.block f l] := by
    cases κ <;> rfl
  have houtline : (s.outline matched).filterMap κ.cell? = κ.listed (valuePieces.all s.unit) :=
    κ.piecewise_listed.outline valuePieces hpreamble
      (fun g global _ => cells_globalOutline κ g global)
      (fun f function _ => cells_functionHead κ f function) hblock
      (fun _ => cells_instrOutline κ hb _ _ _ _) fun _ => cells_terminatorOutline κ _ _ _
  rw [houtline, all_valuePieces, κ.listed_append, κ.listed_flatMap s.unit.functionList, fst_parts,
    κ.listed_append, κ.listed_append, ← listed_functions]
  simp only [κ.listed_append]

/-! ## Constants -/

theorem cells_markSteps {mark : Mark} (h : s.unit.HasConstant mark.subject) :
    (s.markSteps mark).filterMap κ.cell? = κ.listed (mark.left?.toList.map .constant) := by
  cases mark with
  | enter c =>
    simp only [markSteps]
    split <;> rfl
  | leave c =>
    obtain ⟨pooled, hc⟩ := Option.isSome_iff_exists.1 h
    have hrow : [Step.row ⟨.constant, [Value.constant c, pooled.value.kind]⟩,
        .typed (.constant c) (.named pooled.ty)].filterMap κ.cell? = κ.listed [.constant c] := by
      cases κ <;> rfl
    have hget : s.unit.constants.get? c = some pooled := hc
    have hshape : ((s.shapeRows c pooled.value).map Step.row).filterMap κ.cell? = [] := by
      rw [List.filterMap_eq_nil_iff, List.forall_mem_map]
      intro r hr
      rcases mem_shapeRows_iff.1 hr with ⟨_, _, -, _, _, -, rfl⟩ | ⟨_, _, _, -, rfl⟩ |
        ⟨-, _, -, rfl⟩
      · exact κ.cell?_row (by decide)
      · exact κ.cell?_row (by decide)
      · exact κ.cell?_row (by decide)
    have hvisited : [Step.visited c].filterMap κ.cell? = [] := rfl
    simp only [markSteps, hget, List.filterMap_append, hrow, hshape, hvisited, List.append_nil]
    rfl

/-- The walk lists the constants that it ends. -/
theorem cells_marks {marks : List Mark} (h : ∀ mark ∈ marks, s.unit.HasConstant mark.subject) :
    (marks.flatMap s.markSteps).filterMap κ.cell? =
      κ.listed ((constantCalls marks).map Prod.fst) := by
  have hcalls : (constantCalls marks).map Prod.fst =
      marks.flatMap fun mark => mark.left?.toList.map .constant := by
    rw [constantCalls, List.map_map, List.filterMap_eq_flatMap_toList, List.map_flatMap]
    rfl
  rw [List.filterMap_flatMap, hcalls, κ.listed_flatMap]
  exact List.flatMap_congr fun mark hmark => cells_markSteps κ (h mark hmark)

end Setup

/-! ## Runs -/

namespace Kind

variable (κ : Kind)

/-- What an entry has in the column of a kind. -/
def term? (e : Entry) : Option (Option Term) :=
  if e.relation.name = κ.relation.name then some e.fact[κ.column]? else none

/-- A value of the plan and the id of that value. -/
def Identifies (x : ObjectTable Value) (cell : Option Cell) (term : Option Term) : Prop :=
  ∀ v, cell = some (.object (.value v)) → ∃ id, x.idOf v = .ok id ∧ term = some (.object id)

theorem identifies_of_becomes {t : Emission.Target} {r : Row} {fact : Fact}
    (h : r.Becomes t fact) (k : Nat) : Identifies t.objects r.cells[k]? fact[k]? := by
  intro v hv
  obtain ⟨id, hid, hterm⟩ := h.exists_term hv
  exact ⟨id, ObjectRef.resolve_value_eq_ok_iff.1 hid, hterm⟩

theorem term?_eq_map_fact? (e : Entry) :
    κ.term? e = (e.fact? κ.relation.name).map (·[κ.column]?) := by
  by_cases hname : e.relation.name = κ.relation.name <;> simp [term?, Entry.fact?, hname]

/-- What steps of a plan put into the column of a kind is what they append there. -/
theorem identifies_of_forall₂_appends {t : Emission.Target} {steps : List Step}
    {parts : List (List Entry)} (hregular : ∀ st ∈ steps, st.Regular)
    (h : List.Forall₂ (Step.Appends t) steps parts) :
    List.Forall₂ (Identifies t.objects) (steps.filterMap κ.cell?)
      (parts.flatten.filterMap κ.term?) := by
  have hname : κ.relation.name ∉ Relation.implied.map Relation.name := by
    cases κ <;> decide
  rw [funext κ.cell?_eq_map_row?, funext κ.term?_eq_map_fact?, ← List.map_filterMap,
    ← List.map_filterMap, List.forall₂_map_left_iff, List.forall₂_map_right_iff]
  exact (Step.forall₂_becomes (fun st hst => (hregular st hst).plainIn hname) h).imp fun _ _ hr =>
    identifies_of_becomes hr κ.column

end Kind

/-! ## Columns -/

namespace Extractor

variable {x : Extractor} {types : TypeTable}

/-- In a run that succeeds every constant of the walk is in the pool. -/
theorem hasConstant_of_mark (hm : x.setup.unit.Checked) {store : FactStore}
    (hok : (x.run types store).outcome = .ok ()) {mark : Mark}
    (h : mark ∈ x.setup.unit.marksOf x.setup.unit.references) :
    x.setup.unit.HasConstant mark.subject := by
  by_contra hc
  obtain ⟨c, href, hr⟩ := (Module.adds_marksOf x.setup.unit.references).reaches mark h
  obtain ⟨f, hf, b, hb, hcase⟩ := Setup.hasCase_of_not_hasConstant hm href hr hc
  exact hc (casesExist_of_outcome hok f hf b hb _ hcase)

/-- The plan lists what the table has. -/
theorem Registered.cells_plan (hx : x.Registered) (hb : x.setup.models.Bundled)
    (hmarks : ∀ mark ∈ x.setup.unit.marksOf x.setup.unit.references,
      x.setup.unit.HasConstant mark.subject) (κ : Kind) :
    (x.setup.plan x.matched).filterMap κ.cell? = κ.listed (x.objects.owners.map Prod.fst) := by
  have hplan := x.setup.plan_interleaves x.matched
  have houtline : (x.setup.outline x.matched).filterMap κ.cell? =
      κ.listed (x.setup.parts.map Prod.fst) := Setup.cells_outline κ hb
  have hwalk := Setup.cells_marks κ hmarks
  by_cases hκ : κ = .constant
  · subst hκ
    -- No part is a constant, so all that is listed comes of the walk.
    have hnone : (x.setup.outline x.matched).filterMap Kind.constant.cell? = [] := by
      rw [houtline]
      refine Kind.listed_eq_nil _ fun v hv => ?_
      rw [Kind.holds_constant, Setup.isConstant_of_mem_parts hv]
    rw [hplan.symm.filterMap_left hnone, hwalk, ← hx.constants,
      Kind.listed_filter _ Value.isConstant fun v hv => by rwa [Kind.holds_constant] at hv]
  · -- The walk lists nothing but constants.
    have hnone : ((x.setup.unit.marksOf x.setup.unit.references).flatMap
        x.setup.markSteps).filterMap κ.cell? = [] := by
      rw [hwalk, ← filter_constantCalls]
      refine κ.listed_eq_nil fun v hv => ?_
      obtain ⟨call, hcall, rfl⟩ := List.mem_map.1 hv
      by_contra hholds
      rw [Bool.not_eq_false] at hholds
      have hconstant := (List.mem_filter.1 hcall).2
      rw [Kind.isConstant_of_holds hκ hholds] at hconstant
      cases hconstant
    rw [hplan.filterMap_left hnone, houtline, ← hx.parts,
      κ.listed_filter (fun v => !v.isConstant) fun v hv => by
        rw [Kind.isConstant_of_holds hκ hv]; rfl]

/-- The ids of listed values, in a column. -/
theorem terms_eq_of_identifies {x : ObjectTable Value} {values : List Value} {ids : List ObjectId}
    {terms : List (Option Term)} (hids : ids.map Except.ok = values.map x.idOf)
    (h : List.Forall₂ (Kind.Identifies x) (values.map fun v => some (.object (.value v))) terms) :
    terms = ids.map fun id => some (.object id) := by
  induction values generalizing ids terms with
  | nil =>
    obtain rfl : ids = [] := by simpa using hids
    cases h
    rfl
  | cons v values ih =>
    cases ids with
    | nil => cases hids
    | cons id ids =>
      rw [List.map_cons, List.map_cons, List.cons.injEq] at hids
      cases h with
      | cons hv hrest =>
        obtain ⟨id', hid', rfl⟩ := hv v rfl
        rw [← hids.1] at hid'
        cases hid'
        rw [ih hids.2 hrest]
        rfl

/-- The column of a kind, in the store of a run. -/
theorem column_generate (x : Extractor) (types : TypeTable) (κ : Kind) :
    ((x.generate types (.new .standard)).store.relation κ.relation.name).map (·[κ.column]?) =
      (x.run types (.new .standard)).entries.toList.filterMap κ.term? := by
  rw [relation_generate, List.map_filterMap]
  exact List.filterMap_congr fun e _ => (κ.term?_eq_map_fact? e).symm

/-- A description that succeeds lists, for each kind, the values of the table that are of
that kind: their column is the list of their ids, in increasing order. So every value that
was registered is described once, in the order of registration. -/
theorem column_eq_idsOf {s : Setup} (hl : s.unit.Labelled) (hb : s.models.Bundled)
    (hnew : (Extractor.new s).1 = .ok x)
    (hok : (x.generate types (.new .standard)).outcome = .ok ()) (κ : Kind) :
    ((x.generate types (.new .standard)).store.relation κ.relation.name).map (·[κ.column]?) =
        (x.objects.idsOf κ.holds).map (fun id => some (.object id)) ∧
      (x.objects.idsOf κ.holds).Pairwise fun a b => a.index < b.index := by
  obtain ⟨rfl, hx⟩ := registered_of_new hl hnew
  refine ⟨?_, x.objects.idsOf_pairwise κ.holds⟩
  have hrun : (x.run types (.new .standard)).outcome = .ok () := hok
  obtain ⟨parts, hentries, happends⟩ := exists_appended hrun
  have hregular : ∀ st ∈ x.setup.plan x.matched, st.Regular :=
    fun st hst => Setup.regular_of_bundled hb hst
  have hterms := κ.identifies_of_forall₂_appends hregular happends
  rw [hx.cells_plan hb (fun mark => hasConstant_of_mark hx.checked hrun) κ] at hterms
  rw [column_generate, hentries]
  exact terms_eq_of_identifies (hx.blocks.idsOf_eq κ.holds) hterms

theorem allocating_columns :
    allocating.unit.Labelled ∧ allocating.models.Bundled ∧
      ∃ x, (Extractor.new allocating).1 = .ok x ∧
        (x.generate .empty (.new .standard)).outcome = .ok () ∧
        ∀ κ : Kind, ((x.generate .empty (.new .standard)).store.relation κ.relation.name).map
            (·[κ.column]?) = (x.objects.idsOf κ.holds).map (fun id => some (.object id)) ∧
          (x.objects.idsOf κ.holds).Pairwise fun a b => a.index < b.index := by
  have hnew : ∃ x, (Extractor.new allocating).1 = .ok x := ⟨_, rfl⟩
  obtain ⟨x, hx⟩ := hnew
  exact ⟨labelled_allocating, bundled_allocating, x, hx, outcome_allocating hx, fun κ =>
    column_eq_idsOf labelled_allocating bundled_allocating hx (outcome_allocating hx) κ⟩

end Extractor

end PointsTo
