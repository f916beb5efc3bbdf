import Mathlib
import PointsTo.Proofs.PartialRuns
import PointsTo.Proofs.PlainRows
import PointsTo.Proofs.SsaForm

/-!
# Special objects are named uniquely

The names of the special objects are read in three places. A configuration is refused if a name
comes twice, a name is looked up by the first position that has it, and a description lists each
position with its name. For a configuration that is not refused the three agree: the reserved
ids are those of the names, one for each name, below all ids that an extractor allocates, and
the facts are the graph of the look-up. This holds also of a description that fails later on.
-/

namespace PointsTo

/-! ## Where a list repeats itself -/

/-- The element at position `i` is the same as one before it, and `i` is the first position of
that kind. -/
structure FirstRepeatAt {α : Type} (l : List α) (i : Nat) (a : α) : Prop where
  here : l[i]? = some a
  earlier : ∃ j < i, l[j]? = some a
  first : ∀ k < i, ∀ j < k, l[j]? ≠ l[k]?

theorem firstRepeat?_eq_some_iff_at {α : Type} [DecidableEq α] {l : List α} {a : α} :
    firstRepeat? l = some a ↔ ∃ i, FirstRepeatAt l i a := by
  rw [firstRepeat?_eq_some_iff]
  constructor
  · rintro ⟨before, after, rfl, hnodup, ha⟩
    obtain ⟨j, hj, rfl⟩ := List.mem_iff_getElem.1 ha
    refine ⟨before.length, by simp, ⟨j, hj, ?_⟩, fun k hk j hjk => ?_⟩
    · rw [List.getElem?_append_left hj, List.getElem?_eq_getElem hj]
    · rw [List.getElem?_append_left (hjk.trans hk), List.getElem?_append_left hk]
      exact List.nodup_iff_getElem?_ne_getElem?.1 hnodup j k hjk hk
  · rintro ⟨i, h⟩
    obtain ⟨hi, rfl⟩ := List.getElem?_eq_some_iff.1 h.here
    refine ⟨l.take i, l.drop (i + 1), ?_, ?_, ?_⟩
    · rw [List.getElem_cons_drop, List.take_append_drop]
    · refine List.nodup_iff_getElem?_ne_getElem?.2 fun j k hjk hk => ?_
      have hk : k < i := hk.trans_le (List.length_take_le i l)
      rw [List.getElem?_take_of_lt (hjk.trans hk), List.getElem?_take_of_lt hk]
      exact h.first k hk j hjk
    · obtain ⟨j, hj, ha⟩ := h.earlier
      rw [← List.getElem?_take_of_lt hj] at ha
      exact List.mem_of_getElem? ha

/-! ## Names and positions -/

namespace Config

variable {c : Config} {name : String} {id : ObjectId}

theorem validate_eq_ok_iff : c.validate = .ok () ↔ c.specialObjects.Nodup := by
  rw [← firstRepeat?_eq_none_iff, validate]
  cases firstRepeat? c.specialObjects <;> simp

theorem validate_eq_error_iff {e : ConfigError} :
    c.validate = .error e ↔
      ∃ i name, FirstRepeatAt c.specialObjects i name ∧ e = .duplicateSpecial name := by
  have hreport : c.validate = .error e ↔
      ∃ name, firstRepeat? c.specialObjects = some name ∧ e = .duplicateSpecial name := by
    rw [validate]
    cases firstRepeat? c.specialObjects <;> simp [eq_comm]
  rw [hreport]
  constructor
  · rintro ⟨name, hname, rfl⟩
    obtain ⟨i, hi⟩ := firstRepeat?_eq_some_iff_at.1 hname
    exact ⟨i, name, hi, rfl⟩
  · rintro ⟨i, name, hi, rfl⟩
    exact ⟨name, firstRepeat?_eq_some_iff_at.2 ⟨i, hi⟩, rfl⟩

theorem specialId?_eq_none_iff : c.specialId? name = none ↔ name ∉ c.specialObjects := by
  rw [specialId?, Option.map_eq_none_iff, List.idxOf?_eq_none_iff]

/-- Without repetitions a name has the id that is its position. -/
theorem specialId?_eq_some_iff (h : c.specialObjects.Nodup) :
    c.specialId? name = some id ↔ c.specialObjects[id.index]? = some name := by
  rw [specialId?, Option.map_eq_some_iff]
  constructor
  · rintro ⟨i, hi, rfl⟩
    obtain ⟨hlt, hname, -⟩ := List.idxOf?_eq_some_iff.1 hi
    exact List.getElem?_eq_some_iff.2 ⟨hlt, hname⟩
  · intro hid
    obtain ⟨hlt, rfl⟩ := List.getElem?_eq_some_iff.1 hid
    refine ⟨id.index, List.idxOf?_eq_some_iff.2 ⟨hlt, rfl, fun j hj heq => ?_⟩, rfl⟩
    exact absurd (h.getElem_inj_iff.1 heq) hj.ne

/-- The special objects as facts, in id order. -/
def specialFacts (c : Config) : List Fact :=
  c.specialObjects.zipIdx.map fun e => [.object ⟨e.2⟩, .str e.1]

/-- The facts are the graph of the look-up of special objects by name, each pair once. -/
structure Graph (c : Config) (facts : List Fact) : Prop where
  nodup : facts.Nodup
  mem_iff : ∀ fact, fact ∈ facts ↔
    ∃ name id, c.specialId? name = some id ∧ fact = [.object id, .str name]

theorem graph_specialFacts (h : c.specialObjects.Nodup) : c.Graph c.specialFacts where
  nodup := by
    have hpairs : c.specialObjects.zipIdx.Nodup := by
      refine .of_map Prod.snd ?_
      rw [List.zipIdx_map_snd]
      exact List.nodup_range'
    refine hpairs.map ?_
    rintro ⟨name, i⟩ ⟨name', i'⟩ heq
    simpa [and_comm] using heq
  mem_iff fact := by
    rw [specialFacts, List.mem_map]
    constructor
    · rintro ⟨⟨name, i⟩, hmem, rfl⟩
      exact ⟨name, ⟨i⟩, (specialId?_eq_some_iff h).2 (List.mk_mem_zipIdx_iff_getElem?.1 hmem), rfl⟩
    · rintro ⟨name, id, hid, rfl⟩
      have hmem := List.mk_mem_zipIdx_iff_getElem?.2 ((specialId?_eq_some_iff h).1 hid)
      exact ⟨(name, id.index), hmem, rfl⟩

end Config

/-! ## The rows of special objects -/

namespace Config

/-- The special objects as rows, in id order. -/
def specialRows (c : Config) : List Row :=
  c.specialObjects.zipIdx.map fun e => ⟨.specialObject, [ObjectRef.special e.2, e.1]⟩

theorem map_specialRows (c : Config) : c.specialRows.map Step.row =
    c.specialObjects.zipIdx.map fun e =>
      .row ⟨.specialObject, [ObjectRef.special e.2, e.1]⟩ := by
  rw [specialRows, List.map_map]
  rfl

theorem special_rows (c : Config) :
    (c.specialObjects.zipIdx.map fun e => Step.row
      ⟨.specialObject, [ObjectRef.special e.2, e.1]⟩).filterMap (Step.row? "special_object") =
        c.specialRows := by
  rw [specialRows, List.filterMap_map]
  exact List.filterMap_eq_map_iff_forall_eq_some.2 fun e _ => rfl

end Config

namespace Setup

variable {s : Setup} {matched : MatchedCalls}
  (hm : s.models.Write fun r => r.relation.name ≠ "special_object")

include hm

/-- Only the special objects have rows of their relation. -/
theorem special_rows_plan :
    (s.plan matched).filterMap (Step.row? "special_object") = s.config.specialRows := by
  have hnone {steps : List Step} (h : ∀ st ∈ steps, st.Avoids "special_object") :
      steps.filterMap (Step.row? "special_object") = [] := Step.rows_eq_nil h
  have hpreamble : s.preamble.filterMap (Step.row? "special_object") = s.config.specialRows := by
    rw [preamble, List.filterMap_append, Config.special_rows]
    exact List.append_nil _
  let pieces : Pieces Row := ⟨s.config.specialRows, fun _ => [], fun _ _ => [], fun _ _ => [],
    fun _ _ => [], fun _ _ => []⟩
  have houtline : (s.outline matched).filterMap (Step.row? "special_object") = pieces.all s.unit :=
    (piecewise_filterMap _).outline pieces hpreamble
      (fun g global _ =>
        hnone fun st hst => (mem_globalOutline_iff.1 hst).describes.avoids (by decide))
      (fun f function _ =>
        hnone fun st hst => (mem_functionHead_iff.1 hst).describes.avoids (by decide))
      (fun f label => rfl) (fun _ => rows_instrOutline_eq_nil (by decide) hm _ _ _ _)
      fun _ => hnone fun st hst =>
        (mem_terminatorOutline_iff.1 hst).describes.avoids (by decide)
  rw [rows_plan_outline (by decide), houtline,
    Pieces.all_of_blocks_nil _ (fun _ _ => rfl) (fun _ _ => rfl) fun _ _ => rfl]
  simp [pieces]

/-- The special objects come first, and nothing else may be said by rows of their relation. -/
theorem exists_plan_other (matched : MatchedCalls) :
    ∃ rest, s.plan matched = s.config.specialRows.map .row ++ rest ∧
      ∀ st ∈ rest, st.Avoids "special_object" := by
  obtain ⟨rest, hplan⟩ := s.exists_plan_special matched
  have hrows : (s.plan matched).filterMap (Step.row? "special_object") = s.config.specialRows :=
    special_rows_plan hm
  rw [hplan, List.filterMap_append, Config.special_rows] at hrows
  have hplain := List.append_right_eq_self.1 hrows
  refine ⟨_, by rw [hplan, Config.map_specialRows], fun st hst r hmay hname => ?_⟩
  -- What is not a plain row is about types or guarded, and special objects are neither.
  have hrow : st = .row r :=
    plainIn_of_mem (by decide) hm (hplan ▸ List.mem_append_right _ hst) r hmay hname
  have hnone := List.filterMap_eq_nil_iff.1 hplain st hst
  rw [hrow, Step.row?, if_pos hname] at hnone
  cases hnone

end Setup

/-! ## The facts of special objects -/

/-- Rows that have a fact whatever the types are append it. -/
theorem Emit.exec_steps_of_accept {t : Emission.Target} {rows : List Row} {entries : List Entry}
    (h : List.Forall₂ (fun r entry => entry.relation = r.relation ∧
      ∀ types, r.accept t types = .ok entry.fact) rows entries) (e : Emission) :
    ∃ e', exec (Emit.steps t (rows.map .row)) e = (.ok (), e') ∧
      e'.entries.toList = e.entries.toList ++ entries := by
  induction h generalizing e with
  | nil => exact ⟨e, rfl, (List.append_nil _).symm⟩
  | @cons r entry rows entries hr _ ih =>
    obtain ⟨hrelation, haccept⟩ := hr
    obtain ⟨e', hexec, hentries⟩ := ih (e.append entry)
    refine ⟨e', ?_, by simp [hentries, Emission.append]⟩
    rw [List.map_cons, Emit.steps, Step.run, exec_bind, exec_row, haccept, ← hrelation]
    exact hexec

theorem Config.accept_specialRows {c : Config} {t : Emission.Target}
    (h : t.schema.contains .specialObject = true ∨ c.specialObjects = []) :
    List.Forall₂ (fun r entry => entry.relation = r.relation ∧
        ∀ types, Row.accept t types r = .ok entry.fact)
      c.specialRows (c.specialFacts.map (Entry.mk .specialObject)) := by
  rcases h with h | h
  · rw [specialRows, specialFacts, List.map_map, List.forall₂_map_left_iff,
      List.forall₂_map_right_iff, List.forall₂_same]
    refine fun e _ => ⟨rfl, fun types => ?_⟩
    have hfact : Row.resolve t.objects types ⟨.specialObject, [ObjectRef.special e.2, e.1]⟩ =
        .ok [.object ⟨e.2⟩, .str e.1] := rfl
    have hcolumns : ([.object ⟨e.2⟩, .str e.1] : Fact).map Term.column =
        Relation.specialObject.columns := rfl
    simp [Row.accept, hfact, Schema.check_of_columns hcolumns, h]
  · rw [specialRows, specialFacts, h]
    exact .nil

namespace Extractor

variable {x : Extractor} {s : Setup}

/-- If the schema lets them, the facts of the special objects are appended whatever comes of
the rest of the description. -/
theorem specialFacts_of_appends {types : TypeTable} {store : FactStore}
    (hm : x.setup.models.Write fun r => r.relation.name ≠ "special_object")
    (h : store.schema.contains .specialObject = true ∨ x.setup.config.specialObjects = []) :
    (x.appends types store).filterMap (Entry.fact? "special_object") =
      x.setup.config.specialFacts := by
  obtain ⟨rest, hplan, hrest⟩ := Setup.exists_plan_other hm x.matched
  obtain ⟨log, hexec⟩ := x.exec_steps types store
  obtain ⟨e₁, hspecial, hfirst⟩ := Emit.exec_steps_of_accept
    (Config.accept_specialRows (t := ⟨x.objects, store⟩) h) ⟨types, x.memo, [], #[], #[]⟩
  -- The rest may fail, but what it appends before that is of other relations.
  rw [hplan, Emit.exec_steps_append, hspecial] at hexec
  dsimp only at hexec
  obtain ⟨new, hnew, hothers⟩ := (Emit.advances_steps ⟨x.objects, store⟩ rest).entries e₁
  rw [hexec, hfirst, List.nil_append] at hnew
  have hsilent : new.filterMap (Entry.fact? "special_object") = [] := by
    rw [List.filterMap_eq_nil_iff]
    intro entry hentry
    obtain ⟨st, hst, r, hmay, hrelation, -⟩ := hothers entry hentry
    exact if_neg (hrelation ▸ hrest st hst r hmay)
  have hentries : x.appends types store = _ := hnew
  rw [hentries, List.filterMap_append, hsilent, List.append_nil, List.filterMap_map]
  exact List.filterMap_some

/-- A description that succeeds was let to list the special objects. -/
theorem contains_of_outcome {types : TypeTable} {store : FactStore}
    (hok : (x.generate types store).outcome = .ok ()) :
    store.schema.contains .specialObject = true ∨ x.setup.config.specialObjects = [] := by
  by_contra h
  obtain ⟨hcontains, hne⟩ := not_or.1 h
  have hopening : x.setup.opening = .specialObject := by simp [Setup.opening, hne]
  rw [← hopening, Schema.contains_eq_true_iff] at hcontains
  rw [(appends_of_undeclared hcontains).2] at hok
  cases hok

theorem validate_of_new (hnew : (Extractor.new s).1 = .ok x) : s.config.validate = .ok () := by
  unfold new at hnew
  split at hnew
  next => cases hnew
  next h => exact h

end Extractor

/-! ## Reserved ids -/

namespace ObjectTable

variable {V : Type} [DecidableEq V] {t : ObjectTable V} {id : ObjectId}

/-- The id counts as allocated, or is given for a value or for what a value owns. -/
def GivesOut (t : ObjectTable V) (id : ObjectId) : Prop :=
  t.isValid id = true ∨ (∃ v, t.idOf v = .ok id) ∨ ∃ base k, t.affiliated base k = .ok id

theorem Blocks.special_le_of_givesOut (h : t.Blocks) (hid : t.GivesOut id) :
    t.special ≤ id.index := by
  rcases hid with hid | ⟨v, hid⟩ | ⟨base, k, hid⟩
  · obtain ⟨slot, hslot⟩ := isValid_iff.1 hid
    exact (lt_stop_of_slot hslot).1
  · obtain ⟨k, hslot⟩ := (h.find?_iff v id).1 (idOf_eq_ok_iff.1 hid)
    exact (lt_stop_of_slot hslot).1
  · obtain ⟨v, n, hslot, -, -, rfl⟩ := affiliated_eq_ok_iff.1 hid
    exact (lt_stop_of_slot hslot).1.trans (Nat.le_add_right _ _)

end ObjectTable

namespace Extractor

variable {x : Extractor} {s : Setup}

/-- The reserved ids are those of the names, one name for each, and come before all others. -/
structure Reserves (x : Extractor) (c : Config) : Prop where
  named : ∀ id : ObjectId, id.index < x.objects.special ↔ ∃! name, c.specialId? name = some id
  below : ∀ name id other, c.specialId? name = some id → x.objects.GivesOut other →
    id.index < other.index

/-- Whatever was asked and described before, a description appends the graph of the look-up of
special objects by name. It has to succeed, or to go into a store whose schema declares their
relation. -/
def ListsSpecial (x : Extractor) (c : Config) : Prop :=
  ∀ (memo : PointerMemo) (visited : List ConstId) (types : TypeTable) (store : FactStore),
    store.schema.contains .specialObject = true ∨
        ({ x with memo, visited }.generate types store).outcome = .ok () →
      ∃ facts, c.Graph facts ∧
        ({ x with memo, visited }.generate types store).store.relation "special_object" =
          store.relation "special_object" ++ facts

theorem reserves_of_new (hnew : (Extractor.new s).1 = .ok x) : x.Reserves s.config := by
  have hnodup := Config.validate_eq_ok_iff.1 (validate_of_new hnew)
  have hspecial : x.objects.special = s.config.specialObjects.length := by
    rw [special_of_new hnew, setup_of_new hnew]
    rfl
  constructor
  case named =>
    intro id
    simp only [Config.specialId?_eq_some_iff hnodup]
    rw [hspecial]
    constructor
    · intro hlt
      exact ⟨_, List.getElem?_eq_getElem hlt, fun name hname =>
        (Option.some.inj ((List.getElem?_eq_getElem hlt).symm.trans hname)).symm⟩
    · rintro ⟨name, hname, -⟩
      exact (List.getElem?_eq_some_iff.1 hname).1
  case below =>
    intro name id other hid hother
    have hlt : id.index < x.objects.special := hspecial ▸ Config.index_lt_of_specialId? hid
    exact hlt.trans_le ((blocks_of_new hnew).special_le_of_givesOut hother)

theorem listsSpecial_of_new (hnew : (Extractor.new s).1 = .ok x)
    (hm : s.models.Write fun r => r.relation.name ≠ "special_object") :
    x.ListsSpecial s.config := by
  have hnodup := Config.validate_eq_ok_iff.1 (validate_of_new hnew)
  obtain ⟨-, r, -, rfl⟩ := exists_settle_of_new hnew
  intro memo visited types store h
  have hlet := h.elim Or.inl contains_of_outcome
  refine ⟨_, Config.graph_specialFacts hnodup, ?_⟩
  rw [store_generate, FactStore.relation_foldl_record, specialFacts_of_appends hm hlet]

/-- A configuration passes exactly if no special object is named twice, and otherwise the name at
the first position that repeats an earlier one is reported. In a configuration that passes, the
position of a name is its id and no other name has one. So an extractor reserves the ids of the
names, which are below all that it allocates, and the special objects in a description are the
graph of the look-up; this holds for all models that write no such facts themselves. -/
theorem special_names_exact (c : Config) :
    (c.validate = .ok () ↔ c.specialObjects.Nodup) ∧
      (∀ e, c.validate = .error e ↔
        ∃ i name, FirstRepeatAt c.specialObjects i name ∧ e = .duplicateSpecial name) ∧
      (c.validate = .ok () →
        (∀ i name, c.specialObjects[i]? = some name → c.specialId? name = some ⟨i⟩) ∧
          ∀ name, name ∉ c.specialObjects → c.specialId? name = none) ∧
      ∀ s x, s.config = c → (Extractor.new s).1 = .ok x →
        c.validate = .ok () ∧ x.Reserves c ∧
          ((s.models.Write fun r => r.relation.name ≠ "special_object") → x.ListsSpecial c) := by
  refine ⟨Config.validate_eq_ok_iff, fun e => Config.validate_eq_error_iff, fun hok => ?_, ?_⟩
  · have hnodup := Config.validate_eq_ok_iff.1 hok
    exact ⟨fun i name hname => (Config.specialId?_eq_some_iff hnodup).2 hname,
      fun name => Config.specialId?_eq_none_iff.2⟩
  · rintro s x rfl hnew
    exact ⟨validate_of_new hnew, reserves_of_new hnew, listsSpecial_of_new hnew⟩

/-- Three special objects, and a module whose description fails at a case value. -/
def reserving : Setup where
  unit := Module.switching ⟨0⟩ ⟨9⟩
  config := { Config.default with specialObjects := ["heap", "null", "unknown"] }
  models := .standard .default

/-- The second name to be repeated has the first repetition. -/
def repeating : Config :=
  { Config.default with specialObjects := ["null", "unknown", "unknown", "null"] }

theorem reserving_special_names :
    repeating.validate = .error (.duplicateSpecial "unknown") ∧
      reserving.config.validate = .ok () ∧
      reserving.config.specialId? "unknown" = some ⟨2⟩ ∧
      reserving.config.specialId? "stack" = none ∧
      (reserving.models.Write fun r => r.relation.name ≠ "special_object") ∧
      ∃ x, (Extractor.new reserving).1 = .ok x ∧ x.Reserves reserving.config ∧
        x.objects.GivesOut ⟨3⟩ ∧
        (x.generate .empty (.new .standard)).outcome = .error (.unit (.undefinedConstant ⟨9⟩)) ∧
        (x.generate .empty (.new .standard)).store.relation "special_object" =
          [[.object ⟨0⟩, .str "heap"], [.object ⟨1⟩, .str "null"],
            [.object ⟨2⟩, .str "unknown"]] ∧
        reserving.config.Graph
          ((x.generate .empty (.new .standard)).store.relation "special_object") := by
  have hrepeat : FirstRepeatAt repeating.specialObjects 2 "unknown" :=
    ⟨rfl, ⟨1, by decide, rfl⟩, by decide⟩
  have hok : reserving.config.validate = .ok () :=
    (special_names_exact _).1.2 (by decide)
  have hb : reserving.models.Bundled := by
    simp [CallModels.Bundled, reserving, CallModels.standard]
  have hwrite : reserving.models.Write fun r => r.relation.name ≠ "special_object" :=
    hb.write_ne (by decide)
  obtain ⟨hposition, hother⟩ := (special_names_exact reserving.config).2.2.1 hok
  have hnew : ∃ x, (Extractor.new reserving).1 = .ok x ∧ x.objects.isValid ⟨3⟩ = true ∧
      (x.generate .empty (.new .standard)).outcome = .error (.unit (.undefinedConstant ⟨9⟩)) ∧
      (x.generate .empty (.new .standard)).store.relation "special_object" =
        [[.object ⟨0⟩, .str "heap"], [.object ⟨1⟩, .str "null"],
          [.object ⟨2⟩, .str "unknown"]] := ⟨_, rfl, by decide +kernel⟩
  obtain ⟨x, hx, hvalid, houtcome, hlisted⟩ := hnew
  obtain ⟨-, hreserves, hlists⟩ :=
    (special_names_exact reserving.config).2.2.2 reserving x rfl hx
  obtain ⟨facts, hgraph, hfacts⟩ :=
    hlists hwrite x.memo x.visited .empty (.new .standard)
      (.inl (Schema.contains_standard List.mem_cons_self))
  exact ⟨((special_names_exact repeating).2.1 _).2 ⟨2, _, hrepeat, rfl⟩, hok,
    hposition 2 _ rfl, hother _ (by decide), hwrite, x, hx, hreserves, .inl hvalid, houtcome,
    hlisted, hfacts ▸ hgraph⟩

end Extractor

end PointsTo
