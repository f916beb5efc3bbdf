import Mathlib
import PointsTo.Proofs.Facts
import PointsTo.Proofs.Totality

/-!
# Stores that are appended to

What a store holds after any calls to `append`, those it refuses among them: the accepted
facts, relation by relation in the order of the calls. A schema refuses a fact for one reason.
It looks for the relation first, then at the number of terms, then at the terms from first to
last.
-/

namespace PointsTo

/-! ## What a schema admits -/

namespace Schema

variable {s : Schema} {r : Relation} {fact : Fact} {err : StoreError}

/-- The relation of the entry is declared with these very columns, and the fact has them. -/
def Admits (s : Schema) (e : Entry) : Prop :=
  s.get? e.relation.name = some e.relation ∧ e.fact.map Term.column = e.relation.columns

instance (s : Schema) : DecidablePred s.Admits := fun e =>
  inferInstanceAs (Decidable (s.get? e.relation.name = some e.relation ∧
    e.fact.map Term.column = e.relation.columns))

/-- Why a schema refuses a fact. -/
inductive Refuses (s : Schema) (r : Relation) (fact : Fact) : StoreError → Prop
  | undeclared (h : s.get? r.name ≠ some r) : s.Refuses r fact (.undeclared r.name)
  | arity (h : s.get? r.name = some r) (hlength : fact.length ≠ r.columns.length) :
      s.Refuses r fact (.arity r.name r.columns.length fact.length)
  | columnKind {before after : List Term} {term : Term} {expected : Column}
      {columns : List Column} (h : s.get? r.name = some r)
      (hlength : fact.length = r.columns.length) (hfact : fact = before ++ term :: after)
      (hcolumns : r.columns = before.map Term.column ++ expected :: columns)
      (hterm : term.column ≠ expected) :
      s.Refuses r fact (.columnKind r.name before.length expected term.column)

theorem contains_eq_true_iff : s.contains r = true ↔ s.get? r.name = some r := by
  rw [contains, beq_iff_eq]

theorem check_of_admits (h : s.Admits ⟨r, fact⟩) : s.check r fact = .ok () := by
  rw [check_of_columns h.2, if_pos (contains_eq_true_iff.2 h.1)]

/-- The terms ahead of the first one of a wrong kind are passed over. -/
theorem mismatch?_of_split {before after : List Term} {term : Term} {expected : Column}
    {columns : List Column} (hfact : fact = before ++ term :: after)
    (hcolumns : r.columns = before.map Term.column ++ expected :: columns)
    (hterm : term.column ≠ expected) :
    r.mismatch? fact = some (.columnKind r.name before.length expected term.column) := by
  have hzip : fact.zip r.columns =
      before.map (fun t => (t, t.column)) ++ (term, expected) :: after.zip columns := by
    rw [hfact, hcolumns, List.zip_append (by simp), List.zip_cons_cons, List.zip_eq_zipWith,
      List.zipWith_map_right, List.zipWith_self]
  unfold Relation.mismatch?
  rw [hzip, List.zipIdx_append, List.findSome?_append]
  refine (congrArg (Option.or · _) (List.findSome?_eq_none_iff.2 ?_)).trans (by simp [hterm])
  rintro ⟨e, position⟩ hmem
  obtain ⟨t, -, rfl⟩ := List.mem_map.1 (List.fst_mem_of_mem_zipIdx hmem)
  simp

theorem check_of_refuses (h : s.Refuses r fact err) : s.check r fact = .error err := by
  cases h with
  | undeclared h =>
    have hr : s.contains r = false := by
      rw [← Bool.not_eq_true, contains_eq_true_iff]
      exact h
    simp [check, hr]
  | arity h hlength => simp [check, contains_eq_true_iff.2 h, Relation.arity, hlength]
  | columnKind h hlength hfact hcolumns hterm =>
    simp [check, contains_eq_true_iff.2 h, Relation.arity, hlength,
      mismatch?_of_split hfact hcolumns hterm]

/-- Terms either have the given columns or differ from them at a first place. -/
theorem columns_eq_or_exists_split {columns : List Column} (h : fact.length = columns.length) :
    fact.map Term.column = columns ∨
      ∃ before term after expected rest, fact = before ++ term :: after ∧
        columns = before.map Term.column ++ expected :: rest ∧ term.column ≠ expected := by
  induction fact generalizing columns with
  | nil =>
    obtain rfl := List.length_eq_zero_iff.1 h.symm
    exact .inl rfl
  | cons term fact ih =>
    cases columns with
    | nil => cases h
    | cons expected columns =>
      by_cases hterm : term.column = expected
      · rcases ih (Nat.succ.inj h) with heq | ⟨before, t, after, c, rest, rfl, rfl, hne⟩
        · exact .inl (by rw [List.map_cons, hterm, heq])
        · exact .inr ⟨term :: before, t, after, c, rest, rfl, by rw [← hterm]; rfl, hne⟩
      · exact .inr ⟨[], term, fact, expected, columns, rfl, rfl, hterm⟩

theorem admits_or_refuses (s : Schema) (r : Relation) (fact : Fact) :
    s.Admits ⟨r, fact⟩ ∨ ∃ err, s.Refuses r fact err := by
  by_cases hr : s.get? r.name = some r
  · by_cases hlength : fact.length = r.columns.length
    · rcases columns_eq_or_exists_split hlength with
        h | ⟨before, term, after, expected, rest, hfact, hcolumns, hterm⟩
      · exact .inl ⟨hr, h⟩
      · exact .inr ⟨_, .columnKind hr hlength hfact hcolumns hterm⟩
    · exact .inr ⟨_, .arity hr hlength⟩
  · exact .inr ⟨_, .undeclared hr⟩

theorem check_eq_error_iff : s.check r fact = .error err ↔ s.Refuses r fact err := by
  refine ⟨fun h => ?_, check_of_refuses⟩
  rcases s.admits_or_refuses r fact with hadmits | ⟨err', hrefuses⟩
  · rw [check_of_admits hadmits] at h
    cases h
  · rw [check_of_refuses hrefuses] at h
    cases h
    exact hrefuses

end Schema

/-! ## What a store holds -/

namespace Table

variable {κ β : Type} [Ord κ] [Std.TransOrd κ]

/-- Storing a list trades the length of the list it replaces for its own. -/
theorem length_flatten_insertEntry (k : κ) (v : List β) {l : List (κ × List β)}
    (h : l.Pairwise fun a b => compare a.1 b.1 = .lt) :
    ((insertEntry k v l).map (·.2)).flatten.length +
        (((l.find? fun e => compare k e.1 == .eq).map (·.2)).getD []).length =
      (l.map (·.2)).flatten.length + v.length := by
  induction l with
  | nil => simp [insertEntry]
  | cons e rest ih =>
    obtain ⟨hlt, hrest⟩ := List.pairwise_cons.1 h
    simp only [insertEntry]
    cases hk : compare k e.1 with
    | lt =>
      -- the keys that follow are larger still
      have hnone : rest.find? (fun e => compare k e.1 == .eq) = none := by
        rw [List.find?_eq_none]
        intro e' he'
        simp [Std.TransCmp.lt_trans hk (hlt e' he')]
      simp [hk, hnone]
      omega
    | eq =>
      simp [hk]
      omega
    | gt =>
      have := ih hrest
      simp [hk] at this ⊢
      omega

end Table

namespace FactStore

@[simp] theorem schema_record (s : FactStore) (e : Entry) : (s.record e).schema = s.schema := rfl

theorem size_record (s : FactStore) (e : Entry) : (s.record e).size = s.size + 1 := by
  have h := Table.length_flatten_insertEntry e.relation.name
    (s.relation e.relation.name ++ [e.fact]) s.facts.sorted
  rw [List.length_append, List.length_singleton] at h
  change (s.record e).size + (s.relation e.relation.name).length = _ at h
  change _ = s.size + _ at h
  omega

/-- No relation is listed without facts. -/
def Tight (s : FactStore) : Prop := ∀ name, s.facts.get? name ≠ some []

theorem tight_new (schema : Schema) : (new schema).Tight := by
  intro name h
  cases h

theorem Tight.record {s : FactStore} (h : s.Tight) (e : Entry) : (s.record e).Tight := by
  intro name
  by_cases hname : name = e.relation.name
  · subst hname
    simp [FactStore.record]
  · simpa [FactStore.record, Table.get?_insert_of_ne _ hname] using h name

theorem Tight.mem_toList_iff {s : FactStore} (h : s.Tight) {name : String} {facts : List Fact} :
    (name, facts) ∈ s.toList ↔ facts = s.relation name ∧ s.relation name ≠ [] := by
  rw [toList, ← Table.get?_eq_some_iff, relation]
  cases hfacts : s.facts.get? name with
  | none => simp
  | some l =>
    have hl : l ≠ [] := by
      rintro rfl
      exact h name hfacts
    simp [hl, eq_comm]

/-- The names are listed in increasing order. -/
theorem pairwise_toList (s : FactStore) : s.toList.Pairwise fun a b => a.1 < b.1 :=
  s.facts.sorted.imp fun h => compare_lt_iff_lt.1 h

/-- The store after calls to `append`. -/
def appendAll (s : FactStore) (calls : List Entry) : FactStore :=
  calls.foldl (fun s e => (s.append e.relation e.fact).2) s

theorem appendAll_append (s : FactStore) (calls : List Entry) (e : Entry) :
    s.appendAll (calls ++ [e]) = ((s.appendAll calls).append e.relation e.fact).2 := by
  rw [appendAll, List.foldl_append]
  rfl

variable {s : FactStore} {e : Entry}

theorem append_of_admits (h : s.schema.Admits e) :
    s.append e.relation e.fact = (.ok (), s.record e) := by
  rw [append, Schema.check_of_admits h]

theorem append_of_refuses {err : StoreError} (h : s.schema.Refuses e.relation e.fact err) :
    s.append e.relation e.fact = (.error err, s) := by
  rw [append, Schema.check_of_refuses h]

theorem append_of_not_admits (h : ¬ s.schema.Admits e) :
    (s.append e.relation e.fact).2 = s := by
  obtain ⟨err, hrefuses⟩ := (s.schema.admits_or_refuses e.relation e.fact).resolve_left h
  rw [append_of_refuses hrefuses]

theorem append_eq_ok_iff {s' : FactStore} :
    s.append e.relation e.fact = (.ok (), s') ↔ s.schema.Admits e ∧ s' = s.record e := by
  rcases s.schema.admits_or_refuses e.relation e.fact with h | ⟨err, h⟩
  · simp [append_of_admits h, h, eq_comm]
  · have hnot : ¬ s.schema.Admits e := fun hadmits => by
      have hcheck := Schema.check_of_admits hadmits
      rw [Schema.check_of_refuses h] at hcheck
      cases hcheck
    simp [append_of_refuses h, hnot]

theorem append_eq_error_iff {err : StoreError} {s' : FactStore} :
    s.append e.relation e.fact = (.error err, s') ↔
      s.schema.Refuses e.relation e.fact err ∧ s' = s := by
  rw [← Schema.check_eq_error_iff, append]
  cases s.schema.check e.relation e.fact <;> simp [eq_comm]

/-- Only the accepted calls count. -/
theorem appendAll_eq_foldl_record (s : FactStore) (calls : List Entry) :
    s.appendAll calls = (calls.filter (s.schema.Admits ·)).foldl record s := by
  induction calls generalizing s with
  | nil => rfl
  | cons e rest ih =>
    rw [appendAll, List.foldl_cons]
    by_cases h : s.schema.Admits e
    · rw [append_of_admits h, List.filter_cons_of_pos (by simpa using h)]
      exact ih (s.record e)
    · rw [append_of_not_admits h, List.filter_cons_of_neg (by simpa using h)]
      exact ih s

theorem schema_appendAll (s : FactStore) (calls : List Entry) :
    (s.appendAll calls).schema = s.schema := by
  rw [appendAll_eq_foldl_record]
  induction calls.filter (s.schema.Admits ·) generalizing s with
  | nil => rfl
  | cons e rest ih => rw [List.foldl_cons, ih, schema_record]

theorem size_foldl_record (s : FactStore) (entries : List Entry) :
    (entries.foldl record s).size = s.size + entries.length := by
  induction entries generalizing s with
  | nil => rfl
  | cons e rest ih =>
    rw [List.foldl_cons, ih, size_record, List.length_cons]
    omega

theorem Tight.foldl_record (h : s.Tight) (entries : List Entry) :
    (entries.foldl FactStore.record s).Tight := by
  induction entries generalizing s with
  | nil => exact h
  | cons e rest ih => exact ih (h.record e)

/-- The store holds the given entries and nothing else. -/
structure Holds (s : FactStore) (schema : Schema) (entries : List Entry) : Prop where
  relation (name : String) : s.relation name = entries.filterMap (Entry.fact? name)
  fits (name : String) : ∀ fact ∈ s.relation name,
    ∃ r, schema.get? name = some r ∧ r.name = name ∧ fact.map Term.column = r.columns
  listed (name : String) (facts : List Fact) :
    (name, facts) ∈ s.toList ↔ facts = s.relation name ∧ ∃ e ∈ entries, e.relation.name = name
  increasing : s.toList.Pairwise fun a b => a.1 < b.1
  size : s.size = entries.length

theorem mem_filterMap_fact? {entries : List Entry} {name : String} {fact : Fact} :
    fact ∈ entries.filterMap (Entry.fact? name) ↔
      ∃ e ∈ entries, e.relation.name = name ∧ e.fact = fact := by
  simp [Entry.fact?, List.mem_filterMap]

theorem holds_foldl_record (schema : Schema) {entries : List Entry}
    (h : ∀ e ∈ entries, schema.Admits e) :
    (entries.foldl record (new schema)).Holds schema entries := by
  have hrelation (name : String) : (entries.foldl record (new schema)).relation name =
      entries.filterMap (Entry.fact? name) := by
    rw [relation_foldl_record]
    rfl
  refine ⟨hrelation, fun name fact hfact => ?_, fun name facts => ?_, pairwise_toList _, ?_⟩
  · rw [hrelation, mem_filterMap_fact?] at hfact
    obtain ⟨e, he, rfl, rfl⟩ := hfact
    exact ⟨e.relation, (h e he).1, rfl, (h e he).2⟩
  · rw [((tight_new schema).foldl_record entries).mem_toList_iff]
    refine and_congr_right fun _ => ?_
    rw [hrelation, ne_eq, List.filterMap_eq_nil_iff]
    simp [Entry.fact?]
  · rw [size_foldl_record]
    exact Nat.zero_add _

/-- After any calls to `append` on an empty store, the store holds the admitted entries. A
further call is accepted exactly if its entry is admitted, and what is refused, for the one
reason there is, leaves the store as it is. -/
theorem holds_appendAll (schema : Schema) (calls : List Entry) :
    ((new schema).appendAll calls).Holds schema (calls.filter (schema.Admits ·)) ∧
      ∀ e,
        (∀ s, ((new schema).appendAll calls).append e.relation e.fact = (.ok (), s) ↔
          schema.Admits e ∧ s = (new schema).appendAll (calls ++ [e])) ∧
        ∀ err s, ((new schema).appendAll calls).append e.relation e.fact = (.error err, s) ↔
          schema.Refuses e.relation e.fact err ∧
            s = (new schema).appendAll (calls ++ [e]) ∧ s = (new schema).appendAll calls := by
  have hschema : ((new schema).appendAll calls).schema = schema := schema_appendAll _ _
  refine ⟨?_, fun e => ⟨fun s => ?_, fun err s => ?_⟩⟩
  · rw [appendAll_eq_foldl_record]
    exact holds_foldl_record schema fun e he => of_decide_eq_true (List.mem_filter.1 he).2
  · rw [append_eq_ok_iff, hschema, appendAll_append]
    refine and_congr_right fun hadmits => ?_
    rw [append_of_admits (hschema.symm ▸ hadmits)]
  · rw [append_eq_error_iff, hschema, appendAll_append]
    refine and_congr_right fun hrefuses => ?_
    rw [append_of_refuses (hschema.symm ▸ hrefuses)]
    exact (and_self_iff).symm

end FactStore

end PointsTo
