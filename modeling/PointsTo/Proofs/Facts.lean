import Mathlib
import PointsTo.Proofs.Shapes

/-!
# The facts of a description

The store of a description that succeeds holds what the rows of the plan give: each fact
comes from a row that a step may append, and each plain row gives a fact. A relation whose
rows are always plain holds one fact for each of its rows, in the order of the plan.
-/

namespace PointsTo

/-! ## Objects -/

namespace ObjectRef

variable {x : ObjectTable Value} {v : Value} {id : ObjectId}

theorem resolve_value_eq_ok_iff : (value v).resolve x = .ok id ↔ x.idOf v = .ok id := by
  cases hid : x.idOf v <;> simp [resolve, hid, Except.mapError]

/-- The value that an object belongs to. -/
def owner? : ObjectRef → Option Value
  | .value v => some v
  | .storage site => some site
  | .affiliated owner _ => some owner
  | .special _ => none
  | .missing _ => none

/-- An object that belongs to a value lies in the block of that value. -/
theorem exists_inBlock_of_resolve (hx : x.Blocks) {o : ObjectRef} (ho : o.owner? = some v)
    (h : o.resolve x = .ok id) : ∃ base, x.idOf v = .ok base ∧ x.InBlock base id := by
  cases o with
  | special position => cases ho
  | missing fault => cases ho
  | value w =>
    cases ho
    have hid := resolve_value_eq_ok_iff.1 h
    obtain ⟨k, hslot⟩ := (hx.find?_iff v id).1 (ObjectTable.idOf_eq_ok_iff.1 hid)
    exact ⟨id, hid, v, k, hslot, le_rfl, Nat.le_add_right _ _⟩
  | storage w =>
    cases ho
    unfold resolve at h
    cases hbase : x.idOf v with
    | error e => simp [hbase, Except.bind, Except.mapError] at h
    | ok base =>
      cases hstorage : x.storage base with
      | error e => simp [hbase, hstorage, Except.bind, Except.mapError] at h
      | ok o =>
        obtain rfl : o = id := by simpa [hbase, hstorage, Except.bind, Except.mapError] using h
        exact ⟨base, rfl, ObjectTable.inBlock_of_storage hstorage⟩
  | affiliated w n =>
    cases ho
    unfold resolve at h
    cases hbase : x.idOf v with
    | error e => simp [hbase, Except.bind, Except.mapError] at h
    | ok base =>
      cases howned : x.affiliated base n with
      | error e => simp [hbase, howned, Except.bind, Except.mapError] at h
      | ok o =>
        obtain rfl : o = id := by simpa [hbase, howned, Except.bind, Except.mapError] using h
        exact ⟨base, rfl, ObjectTable.inBlock_of_affiliated howned⟩

/-- The value that an object belongs to is the main value of its id. -/
theorem mainValue_of_resolve (hx : x.Blocks) {o : ObjectRef} (ho : o.owner? = some v)
    (h : o.resolve x = .ok id) : x.mainValue id = .ok v := by
  obtain ⟨base, hbase, hin⟩ := exists_inBlock_of_resolve hx ho h
  obtain ⟨k, hslot⟩ := (hx.find?_iff v base).1 (ObjectTable.idOf_eq_ok_iff.1 hbase)
  exact hx.mainValue_of_inBlock hslot hin

end ObjectRef

theorem Config.index_lt_of_specialId? {c : Config} {name : String} {id : ObjectId}
    (h : c.specialId? name = some id) : id.index < c.specialCount := by
  obtain ⟨position, hposition, rfl⟩ := Option.map_eq_some_iff.1 h
  exact (List.idxOf?_eq_some_iff.1 hposition).1

/-- Objects that belong to values are not special. -/
theorem Extractor.Registered.special_le_of_resolve {x : Extractor} (hx : x.Registered)
    {o : ObjectRef} {v : Value} {id : ObjectId} (ho : o.owner? = some v)
    (hid : o.resolve x.objects = .ok id) :
    x.setup.config.specialCount ≤ id.index := by
  obtain ⟨base, -, w, k, hslot, hle, -⟩ := ObjectRef.exists_inBlock_of_resolve hx.blocks ho hid
  have hbase := (ObjectTable.lt_stop_of_slot hslot).1
  rw [hx.special] at hbase
  exact hbase.trans hle

/-! ## Rows and facts -/

theorem exists_left_of_getElem? {α β : Type} {R : α → β → Prop} {l : List α} {l' : List β}
    (h : List.Forall₂ R l l') {k : Nat} {b : β} (hb : l'[k]? = some b) :
    ∃ a, l[k]? = some a ∧ R a b := by
  induction h generalizing k with
  | nil => cases hb
  | @cons a b' l l' hr _ ih =>
    cases k with
    | zero =>
      cases hb
      exact ⟨a, rfl, hr⟩
    | succ k => exact ih hb

namespace Row

variable {t : Emission.Target} {r : Row} {fact : Fact} {k : Nat}

/-- The row becomes the fact, with some table of types. -/
def Becomes (t : Emission.Target) (r : Row) (fact : Fact) : Prop :=
  ∃ types, r.accept t types = .ok fact

/-- An object of a fact is an object of the row. -/
theorem Becomes.exists_cell (h : r.Becomes t fact) {id : ObjectId}
    (hk : fact[k]? = some (.object id)) :
    ∃ o : ObjectRef, r.cells[k]? = some (.object o) ∧ o.resolve t.objects = .ok id := by
  obtain ⟨types, haccept⟩ := h
  obtain ⟨cell, hcell, hterm⟩ := exists_left_of_getElem? (forall₂_of_accept haccept) hk
  cases cell with
  | object o =>
    obtain ⟨id', hid, heq⟩ := Cell.resolve_object_eq_ok hterm
    cases heq
    exact ⟨o, hcell, hid⟩
  | int n => cases hterm
  | str s => cases hterm
  | typeText ty => cases hterm

/-- An object of a row is an object of its fact. -/
theorem Becomes.exists_term (h : r.Becomes t fact) {o : ObjectRef}
    (hk : r.cells[k]? = some (.object o)) :
    ∃ id, o.resolve t.objects = .ok id ∧ fact[k]? = some (.object id) := by
  obtain ⟨types, haccept⟩ := h
  obtain ⟨term, hterm, hcell⟩ := exists_left_of_getElem? (forall₂_of_accept haccept).flip hk
  obtain ⟨id, hid, rfl⟩ := Cell.resolve_object_eq_ok hcell
  exact ⟨id, hid, hterm⟩

theorem Becomes.eq_text {rel : Relation} {a : ObjectRef} {text : String}
    (h : Row.Becomes t ⟨rel, [a, text]⟩ fact) :
    ∃ id, a.resolve t.objects = .ok id ∧ fact = [.object id, .str text] := by
  obtain ⟨types, haccept⟩ := h
  have hcells := forall₂_of_accept haccept
  rcases hcells with _ | ⟨ha, _ | ⟨htext, _ | _⟩⟩
  obtain ⟨id, hid, rfl⟩ := Cell.resolve_object_eq_ok ha
  cases htext
  exact ⟨id, hid, rfl⟩

theorem Becomes.eq_pair {rel : Relation} {a b : ObjectRef} (h : Row.Becomes t ⟨rel, [a, b]⟩ fact) :
    ∃ p o, a.resolve t.objects = .ok p ∧ b.resolve t.objects = .ok o ∧
      fact = [.object p, .object o] := by
  obtain ⟨types, haccept⟩ := h
  have hcells := forall₂_of_accept haccept
  rcases hcells with _ | ⟨ha, _ | ⟨hb, _ | _⟩⟩
  obtain ⟨p, hp, rfl⟩ := Cell.resolve_object_eq_ok ha
  obtain ⟨o, ho, rfl⟩ := Cell.resolve_object_eq_ok hb
  exact ⟨p, o, hp, ho, rfl⟩

theorem Becomes.eq_indexed {rel : Relation} {a b : ObjectRef} {k : Nat}
    (h : Row.Becomes t ⟨rel, [a, k, b]⟩ fact) :
    ∃ p o, a.resolve t.objects = .ok p ∧ b.resolve t.objects = .ok o ∧
      fact = [.object p, .int k, .object o] := by
  obtain ⟨types, haccept⟩ := h
  have hcells := forall₂_of_accept haccept
  rcases hcells with _ | ⟨ha, _ | ⟨hk, _ | ⟨hb, _ | _⟩⟩⟩
  obtain ⟨p, hp, rfl⟩ := Cell.resolve_object_eq_ok ha
  obtain ⟨o, ho, rfl⟩ := Cell.resolve_object_eq_ok hb
  cases hk
  exact ⟨p, o, hp, ho, rfl⟩

end Row

/-- The plain row of a relation that a step is. -/
def Step.row? (name : String) : Step → Option Row
  | .row r => if r.relation.name = name then some r else none
  | _ => none

theorem Step.row?_eq_some_iff {name : String} {st : Step} {r : Row} :
    st.row? name = some r ↔ st = .row r ∧ r.relation.name = name := by
  cases st with
  | row r' =>
    simp only [row?, Option.ite_none_right_eq_some, Option.some.injEq, Step.row.injEq]
    constructor
    · rintro ⟨hname, rfl⟩
      exact ⟨rfl, hname⟩
    · rintro ⟨rfl, hname⟩
      exact ⟨hname, rfl⟩
  | _ => simp [row?]

/-- The fact of a relation that an entry has. -/
def Entry.fact? (name : String) (e : Entry) : Option Fact :=
  if e.relation.name = name then some e.fact else none

theorem Step.Appends.forall₂_becomes {t : Emission.Target} {name : String} {st : Step}
    (hplain : st.PlainIn name) {new : List Entry} (h : st.Appends t new) :
    List.Forall₂ (Row.Becomes t) (st.row? name).toList (new.filterMap (Entry.fact? name)) := by
  by_cases hst : ∃ r, st = .row r
  · obtain ⟨r, rfl⟩ := hst
    obtain ⟨entry, rfl, hrelation, hbecomes⟩ := h.row r rfl
    by_cases heq : r.relation.name = name
    · simpa [row?, Entry.fact?, hrelation, heq, Row.Becomes] using hbecomes
    · simp [row?, Entry.fact?, hrelation, heq]
  · have hrow : ∀ r, st ≠ .row r := fun r heq => hst ⟨r, heq⟩
    have hnone : st.row? name = none := by
      cases st with
      | row r => exact absurd rfl (hrow r)
      | _ => rfl
    have hfacts : new.filterMap (Entry.fact? name) = [] := by
      rw [List.filterMap_eq_nil_iff]
      intro entry hentry
      obtain ⟨r, hmay, hrelation, -⟩ := h.may entry hentry
      exact if_neg fun heq => hrow r (hplain r hmay (hrelation ▸ heq))
    rw [hnone, hfacts]
    exact .nil

/-- The plain rows of a list of steps become the facts of their relation, in order. -/
theorem Step.forall₂_becomes {t : Emission.Target} {name : String} {steps : List Step}
    {parts : List (List Entry)} (hplain : ∀ st ∈ steps, st.PlainIn name)
    (h : List.Forall₂ (Step.Appends t) steps parts) :
    List.Forall₂ (Row.Becomes t) (steps.filterMap (Step.row? name))
      (parts.flatten.filterMap (Entry.fact? name)) := by
  induction h with
  | nil => exact .nil
  | @cons st new steps parts hst _ ih =>
    rw [List.forall_mem_cons] at hplain
    rw [List.flatten_cons, List.filterMap_append, List.filterMap_eq_flatMap_toList,
      List.flatMap_cons, ← List.filterMap_eq_flatMap_toList]
    exact List.rel_append (hst.forall₂_becomes hplain.1) (ih hplain.2)

/-! ## Stores -/

/-- The object is in a column of a relation. -/
def FactStore.Occurs (store : FactStore) (name : String) (k : Nat) (id : ObjectId) : Prop :=
  ∃ fact ∈ store.relation name, fact[k]? = some (.object id)

theorem FactStore.relation_foldl_record (entries : List Entry) (store : FactStore)
    (name : String) :
    (entries.foldl record store).relation name =
      store.relation name ++ entries.filterMap (Entry.fact? name) := by
  induction entries generalizing store with
  | nil => simp
  | cons e rest ih =>
    rw [List.foldl_cons, ih]
    by_cases hname : e.relation.name = name
    · subst hname
      simp [Entry.fact?, relation_record_self]
    · simp [Entry.fact?, hname, relation_record_of_ne store e (Ne.symm hname)]

namespace Extractor

variable {x : Extractor} {types : TypeTable} {name : String}

theorem relation_generate (x : Extractor) (types : TypeTable) (schema : Schema) (name : String) :
    (x.generate types (.new schema)).store.relation name =
      (x.run types (.new schema)).entries.toList.filterMap (Entry.fact? name) := by
  have hempty : (FactStore.new schema).relation name = [] := rfl
  rw [store_generate, FactStore.relation_foldl_record, hempty, List.nil_append, appends]

theorem exists_appended_of_generate
    (hok : (x.generate types (.new .standard)).outcome = .ok ()) :
    ∃ parts, (x.run types (.new .standard)).entries.toList = parts.flatten ∧
      List.Forall₂ (Step.Appends ⟨x.objects, .new .standard⟩) (x.setup.plan x.matched) parts :=
  exists_appended hok

/-- A fact comes from a row of the plan. -/
theorem exists_row_of_mem_relation (hok : (x.generate types (.new .standard)).outcome = .ok ())
    {fact : Fact} (h : fact ∈ (x.generate types (.new .standard)).store.relation name) :
    ∃ st ∈ x.setup.plan x.matched, ∃ r, st.May r ∧ r.relation.name = name ∧
      r.Becomes ⟨x.objects, .new .standard⟩ fact := by
  obtain ⟨parts, hentries, happends⟩ := exists_appended_of_generate hok
  rw [relation_generate, hentries] at h
  obtain ⟨entry, hentry, hfact⟩ := List.mem_filterMap.1 h
  obtain ⟨hname, hfact⟩ := Option.ite_none_right_eq_some.1 hfact
  obtain rfl := Option.some.inj hfact
  obtain ⟨new, hnew, hentry⟩ := List.mem_flatten.1 hentry
  obtain ⟨st, hst, happend⟩ := exists_left_of_mem_right happends hnew
  obtain ⟨r, hmay, hrelation, hbecomes⟩ := happend.may entry hentry
  exact ⟨st, hst, r, hmay, hrelation ▸ hname, hbecomes⟩

/-- A plain row of the plan gives a fact. -/
theorem exists_fact_of_row (hok : (x.generate types (.new .standard)).outcome = .ok ())
    {r : Row} (h : .row r ∈ x.setup.plan x.matched) :
    ∃ fact ∈ (x.generate types (.new .standard)).store.relation r.relation.name,
      r.Becomes ⟨x.objects, .new .standard⟩ fact := by
  obtain ⟨parts, hentries, happends⟩ := exists_appended_of_generate hok
  obtain ⟨new, hnew, happend⟩ := exists_right_of_mem_left happends h
  obtain ⟨entry, rfl, hrelation, hbecomes⟩ := happend.row r rfl
  refine ⟨entry.fact, ?_, hbecomes⟩
  rw [relation_generate, hentries]
  exact List.mem_filterMap.2 ⟨entry, List.mem_flatten.2 ⟨_, hnew, List.mem_singleton_self _⟩,
    if_pos (congrArg Relation.name hrelation)⟩

/-- An object of a plain row is in the column of that row. -/
theorem occurs_of_row (hok : (x.generate types (.new .standard)).outcome = .ok ())
    {rel : Relation} {cells : List Cell} {k : Nat} {o : ObjectRef}
    (hr : .row ⟨rel, cells⟩ ∈ x.setup.plan x.matched) (ho : cells[k]? = some (.object o))
    {id : ObjectId} (hid : o.resolve x.objects = .ok id) :
    (x.generate types (.new .standard)).store.Occurs rel.name k id := by
  obtain ⟨fact, hfact, hbecomes⟩ := exists_fact_of_row hok hr
  obtain ⟨id', hid', hterm⟩ := hbecomes.exists_term ho
  obtain rfl : id = id' := Except.ok.inj (hid.symm.trans hid')
  exact ⟨fact, hfact, hterm⟩

/-- The facts of a relation whose rows are always plain are those of its rows. -/
theorem forall₂_becomes (hok : (x.generate types (.new .standard)).outcome = .ok ())
    (hplain : ∀ st ∈ x.setup.plan x.matched, st.PlainIn name) :
    List.Forall₂ (Row.Becomes ⟨x.objects, .new .standard⟩)
      ((x.setup.plan x.matched).filterMap (Step.row? name))
      ((x.generate types (.new .standard)).store.relation name) := by
  obtain ⟨parts, hentries, happends⟩ := exists_appended_of_generate hok
  rw [relation_generate, hentries]
  exact Step.forall₂_becomes hplain happends

end Extractor

end PointsTo
