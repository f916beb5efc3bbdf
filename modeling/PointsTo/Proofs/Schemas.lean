import Mathlib
import PointsTo.Proofs.Facts
import PointsTo.Proofs.Shapes
import PointsTo.Proofs.Totality

/-!
# Descriptions into other schemas

A schema only decides where an emission stops. Up to the first fact whose relation it does
not declare, an emission goes as it would into the standard relations, from the same types
and the same answers about pointers; what a store holds already is never looked at.
-/

namespace PointsTo

/-- A row with the right columns fails for an object, or because its relation is not
declared. -/
theorem Row.Shaped.accept_eq {r : Row} (h : r.Shaped) (t : Emission.Target) (types : TypeTable) :
    r.accept t types = match r.resolve t.objects types with
      | .error err => .error err
      | .ok fact =>
        if t.schema.contains r.relation then .ok fact
        else .error (.store (.undeclared r.relation.name)) := by
  unfold accept
  rcases mapM_cases (Cell.resolve t.objects types) r.cells with ⟨fact, hfact, hcells⟩ | ⟨e, he, -⟩
  · have hcolumns : fact.map Term.column = r.relation.columns :=
      (Row.columns_of_resolve hcells).trans h.2.symm
    simp only [resolve, hfact, Schema.check_of_columns hcolumns]
    cases t.schema.contains r.relation <;> rfl
  · simp only [resolve, he]

namespace Emit

variable {α β : Type} {schema : Schema}

/-- From `e`, the second outcome is the first, or what is left of it if the emission stops
before the first entry that the schema does not declare. -/
inductive Cut (schema : Schema) (e : Emission) :
    Except ExtractError α × Emission → Except ExtractError α × Emission → Prop
  | whole {out : Except ExtractError α} {e' : Emission} (new : List Entry) :
      e'.entries.toList = e.entries.toList ++ new →
      (∀ entry ∈ new, schema.contains entry.relation = true) → Cut schema e (out, e') (out, e')
  | short {out : Except ExtractError α} {e₁ e₂ : Emission} (new : List Entry) (entry : Entry)
      (rest : List Entry) :
      e₁.entries.toList = e.entries.toList ++ (new ++ entry :: rest) →
      e₂.entries.toList = e.entries.toList ++ new →
      (∀ entry ∈ new, schema.contains entry.relation = true) →
      schema.contains entry.relation = false →
      Cut schema e (out, e₁) (.error (.store (.undeclared entry.relation.name)), e₂)

theorem Cut.exists_entries {e : Emission} {p p' : Except ExtractError α × Emission}
    (h : Cut schema e p p') : ∃ new, p.2.entries.toList = e.entries.toList ++ new := by
  cases h with
  | whole new hnew _ => exact ⟨new, hnew⟩
  | short new entry rest hfull _ _ _ => exact ⟨_, hfull⟩

/-- Where an emission is cut: before the first entry that is not declared. -/
theorem Cut.eq_takeWhile {e e₁ e₂ : Emission} {out out' : Except ExtractError α}
    (h : Cut schema e (out, e₁) (out', e₂)) (he : e.entries.toList = []) :
    e₂.entries.toList =
        e₁.entries.toList.takeWhile (fun entry => schema.contains entry.relation) ∧
      out' = (e₁.entries.toList.find? fun entry => !schema.contains entry.relation).elim out
        fun entry => .error (.store (.undeclared entry.relation.name)) := by
  cases h with
  | whole new hnew hdeclared =>
    rw [he, List.nil_append] at hnew
    have hfind : new.find? (fun entry => !schema.contains entry.relation) = none := by
      simpa using hdeclared
    rw [hnew, hfind, List.takeWhile_eq_self_iff.2 hdeclared]
    exact ⟨rfl, rfl⟩
  | short new entry rest hfull hshort hdeclared hentry =>
    rw [he, List.nil_append] at hfull hshort
    have hfind : new.find? (fun entry => !schema.contains entry.relation) = none := by
      simpa using hdeclared
    rw [hfull, hshort, List.takeWhile_append_of_pos hdeclared, List.find?_append, hfind]
    simp [hentry]

/-- The second computation is the first, cut short by the schema. -/
def Cuts (schema : Schema) (c c' : Emit α) : Prop := ∀ e, Cut schema e (exec c e) (exec c' e)

theorem Cuts.bind {c c' : Emit α} {f f' : α → Emit β} (h : Cuts schema c c')
    (hf : ∀ a, Cuts schema (f a) (f' a)) : Cuts schema (c >>= f) (c' >>= f') := by
  intro e
  have hc := h e
  rw [exec_bind, exec_bind]
  generalize exec c e = p, exec c' e = p' at hc
  cases hc with
  | @whole out e₁ new hnew hdeclared =>
    cases out with
    | error err => exact .whole new hnew hdeclared
    | ok a =>
      have hrest := hf a e₁
      simp only
      generalize exec (f a) e₁ = q, exec (f' a) e₁ = q' at hrest
      cases hrest with
      | whole new' hnew' hdeclared' =>
        refine .whole (new ++ new') ?_ ?_
        · rw [hnew', hnew, List.append_assoc]
        · exact List.forall_mem_append.2 ⟨hdeclared, hdeclared'⟩
      | short new' entry rest hfull hshort hdeclared' hentry =>
        refine .short (new ++ new') entry rest ?_ ?_ ?_ hentry
        · rw [hfull, hnew]
          simp only [List.append_assoc]
        · rw [hshort, hnew, List.append_assoc]
        · exact List.forall_mem_append.2 ⟨hdeclared, hdeclared'⟩
  | @short out e₁ e₂ new entry rest hfull hshort hdeclared hentry =>
    cases out with
    | error err => exact .short new entry rest hfull hshort hdeclared hentry
    | ok a =>
      -- The first computation goes on; the second has stopped.
      obtain ⟨more, hmore⟩ := (hf a e₁).exists_entries
      simp only
      generalize exec (f a) e₁ = q at hmore
      obtain ⟨out, e₃⟩ := q
      refine .short new entry (rest ++ more) ?_ hshort hdeclared hentry
      rw [hmore, hfull]
      simp only [List.append_assoc, List.cons_append]

/-- A computation that appends nothing is not cut. -/
theorem Cuts.of_silent {c : Emit α} (h : ∀ e, (exec c e).2.entries = e.entries) :
    Cuts schema c c := by
  intro e
  have hentries := h e
  generalize exec c e = p at hentries
  obtain ⟨out, e'⟩ := p
  exact .whole [] (by rw [List.append_nil]; exact congrArg Array.toList hentries) (by simp)

theorem cuts_pure (a : α) : Cuts schema (pure a) (pure a) := .of_silent fun _ => rfl

theorem cuts_staticType (ty : StaticType) : Cuts schema (staticType ty) (staticType ty) :=
  .of_silent fun _ => rfl

theorem cuts_holdsPointer (id : TypeId) : Cuts schema (holdsPointer id) (holdsPointer id) :=
  .of_silent fun _ => rfl

theorem cuts_note (notices : List Notice) : Cuts schema (note notices) (note notices) :=
  .of_silent fun _ => rfl

variable {x : ObjectTable Value} {store : FactStore}

/-- The schema stops an emission at a row of a relation that it does not declare. -/
theorem cuts_row {r : Row} (hr : r.Shaped) :
    Cuts store.schema (row ⟨x, .new .standard⟩ r) (row ⟨x, store⟩ r) := by
  intro e
  rw [exec_row, exec_row, hr.accept_eq, hr.accept_eq]
  cases r.resolve x e.types with
  | error err => exact .whole [] (by simp) (by simp)
  | ok fact =>
    have hnew : (e.append ⟨r.relation, fact⟩).entries.toList =
        e.entries.toList ++ [⟨r.relation, fact⟩] := by
      simp [Emission.append]
    simp only [Emission.Target.schema, FactStore.new, Schema.contains_standard hr.1, if_true]
    cases hdeclared : store.schema.contains r.relation with
    | true =>
      simp only [if_true]
      exact .whole _ hnew (List.forall_mem_singleton.2 hdeclared)
    | false =>
      simp only [Bool.false_eq_true, if_false]
      exact .short [] ⟨r.relation, fact⟩ [] hnew (by simp) (by simp) hdeclared

theorem cuts_rows {rs : List Row} (h : ∀ r ∈ rs, r.Shaped) :
    Cuts store.schema (rows ⟨x, .new .standard⟩ rs) (rows ⟨x, store⟩ rs) := by
  induction rs with
  | nil => exact cuts_pure ()
  | cons r rest ih =>
    rw [List.forall_mem_cons] at h
    exact (cuts_row h.1).bind fun _ => ih h.2

end Emit

theorem Step.cuts_run {store : FactStore} {x : ObjectTable Value} {st : Step}
    (hst : st.isKnown = true) (h : ∀ r, st.May r → r.Shaped) :
    Emit.Cuts store.schema (st.run ⟨x, .new .standard⟩) (st.run ⟨x, store⟩) := by
  cases st with
  | row r => exact Emit.cuts_row (h r (.row r))
  | typed v ty =>
    refine (Emit.cuts_staticType ty).bind fun id => ?_
    refine (Emit.cuts_row (h _ (.valueType v ty id))).bind fun _ => ?_
    refine (Emit.cuts_holdsPointer id).bind fun pointer => ?_
    cases pointer with
    | false => exact Emit.cuts_pure ()
    | true => exact Emit.cuts_row (h _ (.pointerValue v ty))
  | intern ty => exact (Emit.cuts_staticType ty).bind fun _ => Emit.cuts_pure ()
  | ifPointer ty rs =>
    refine (Emit.cuts_staticType ty).bind fun id => ?_
    refine (Emit.cuts_holdsPointer id).bind fun pointer => ?_
    cases pointer with
    | false => exact Emit.cuts_pure ()
    | true => exact Emit.cuts_rows fun r hr => h r (.guarded ty hr)
  | need o =>
    refine Emit.Cuts.bind (.of_silent fun e => ?_) fun _ => Emit.cuts_pure ()
    rw [Emit.exec_lift]
  | remark r => exact Emit.cuts_note [r.notice x]
  | visited c =>
    -- The computation is given, for the two targets are not to be compared.
    exact Emit.Cuts.of_silent (c := modify fun e => { e with visited := c :: e.visited })
      fun _ => rfl
  | acts choose => cases hst

theorem Emit.cuts_steps {store : FactStore} {x : ObjectTable Value} {steps : List Step}
    (h : ∀ st ∈ steps, st.isKnown = true ∧ ∀ r, st.May r → r.Shaped) :
    Emit.Cuts store.schema (Emit.steps ⟨x, .new .standard⟩ steps)
      (Emit.steps ⟨x, store⟩ steps) := by
  induction steps with
  | nil => exact Emit.cuts_pure ()
  | cons st rest ih =>
    rw [List.forall_mem_cons] at h
    exact (Step.cuts_run h.1.1 h.1.2).bind fun _ => ih h.2

/-! ## Refusals -/

theorem ObjectRef.resolve_ne_store (x : ObjectTable Value) (o : ObjectRef) (err : StoreError) :
    o.resolve x ≠ .error (.store err) := by
  have hmap {α : Type} (y : Except (ObjectError Value) α) :
      y.mapError ExtractError.object ≠ .error (.store err) := by
    cases y <;> simp [Except.mapError]
  cases o with
  | special position => simp [resolve]
  | value v => exact hmap _
  | storage site => exact hmap _
  | affiliated owner offset => exact hmap _
  | missing fault => simp [resolve]

/-- A store refuses a row with the right columns only if the relation is not declared. -/
theorem Row.Shaped.undeclared_of_failsWith {r : Row} (h : r.Shaped) {t : Emission.Target}
    {err : StoreError} (herr : r.FailsWith t (.store err)) : ∃ name, err = .undeclared name := by
  obtain ⟨types, haccept⟩ := herr
  rw [h.accept_eq] at haccept
  rcases mapM_cases (Cell.resolve t.objects types) r.cells with
    ⟨fact, hfact, -⟩ | ⟨e, he, cell, -, hcell⟩
  · simp only [Row.resolve, hfact] at haccept
    split at haccept
    · cases haccept
    · cases haccept
      exact ⟨_, rfl⟩
  · simp only [Row.resolve, he, Except.error.injEq] at haccept
    subst haccept
    obtain ⟨o, -, ho⟩ := Cell.exists_of_resolve_error hcell
    exact absurd ho (o.resolve_ne_store t.objects err)

namespace Extractor

variable {x : Extractor} {types : TypeTable} {store : FactStore}

theorem undeclared_of_outcome (hb : x.setup.models.Bundled) {err : StoreError}
    (h : (x.run types store).outcome = .error (.store err)) : ∃ name, err = .undeclared name := by
  obtain ⟨st, hst, hfails⟩ := exists_failing_step h
  cases hfails with
  | need ho => exact absurd ho (ObjectRef.resolve_ne_store _ _ _)
  | row hmay hrow => exact (Setup.shaped_of_bundled hb hst hmay).undeclared_of_failsWith hrow
  | act _ => exact (Setup.regular_of_bundled hb hst).elim

/-! ## Runs -/

theorem cut_run (hb : x.setup.models.Bundled) (types : TypeTable) (store : FactStore) :
    ∃ log log', Emit.Cut store.schema ⟨types, x.memo, [], #[], #[]⟩
      ((x.run types (.new .standard)).outcome, { (x.run types (.new .standard)).state with log })
      ((x.run types store).outcome, { (x.run types store).state with log := log' }) := by
  obtain ⟨log, hexec⟩ := x.exec_steps types (.new .standard)
  obtain ⟨log', hexec'⟩ := x.exec_steps types store
  refine ⟨log, log', ?_⟩
  rw [← hexec, ← hexec']
  refine Emit.cuts_steps (fun st hst => ?_) _
  exact ⟨(Setup.regular_of_bundled hb hst).isKnown, fun r => Setup.shaped_of_bundled hb hst⟩

/-- Describing a module into any store appends what would be appended to an empty store of
the standard relations, up to the first fact whose relation the store does not declare. Each
relation then holds what it held and after that its facts among these. The description fails at
that fact and names its relation; if there is no such fact its outcome is the same. No fact is
refused for its columns. -/
theorem generate_eq_takeWhile (hb : x.setup.models.Bundled) (types : TypeTable)
    (store : FactStore) :
    x.appends types store = (x.appends types (.new .standard)).takeWhile
        (fun e => store.schema.contains e.relation) ∧
      (x.generate types store).store =
        ((x.appends types (.new .standard)).takeWhile
          (fun e => store.schema.contains e.relation)).foldl FactStore.record store ∧
      (∀ name, (x.generate types store).store.relation name = store.relation name ++
        ((x.appends types (.new .standard)).takeWhile
          (fun e => store.schema.contains e.relation)).filterMap (Entry.fact? name)) ∧
      (x.generate types store).outcome =
        ((x.appends types (.new .standard)).find?
          (fun e => !store.schema.contains e.relation)).elim
            (x.generate types (.new .standard)).outcome
            (fun e => .error (.store (.undeclared e.relation.name))) ∧
      ∀ err, (x.generate types store).outcome = .error (.store err) →
        ∃ name, err = .undeclared name := by
  obtain ⟨log, log', hcut⟩ := cut_run hb types store
  obtain ⟨happends, houtcome⟩ := hcut.eq_takeWhile rfl
  have hstore : (x.generate types store).store =
      ((x.appends types (.new .standard)).takeWhile
        (fun e => store.schema.contains e.relation)).foldl FactStore.record store := by
    rw [store_generate]
    exact congrArg _ happends
  refine ⟨happends, hstore, fun name => ?_, houtcome, fun err herr => undeclared_of_outcome hb herr⟩
  rw [hstore, FactStore.relation_foldl_record]

/-- A store with a fact already in it, whose schema has the operands without their
positions. -/
def narrow : FactStore :=
  (FactStore.new (Schema.standard.declare ⟨"operand", [.object, .object]⟩)).record
    ⟨.memoryObject, [.object ⟨7⟩, .str "heap"]⟩

theorem narrow_cut :
    allocating.models.Bundled ∧ ∃ x, (Extractor.new allocating).1 = .ok x ∧
      x.appends .empty narrow = (x.appends .empty (.new .standard)).takeWhile
        (fun e => narrow.schema.contains e.relation) ∧
      (x.generate .empty narrow).outcome = .error (.store (.undeclared "operand")) ∧
      (x.generate .empty narrow).store.relation "memory_object" =
        narrow.relation "memory_object" ++
          ((x.appends .empty (.new .standard)).takeWhile
            (fun e => narrow.schema.contains e.relation)).filterMap
              (Entry.fact? "memory_object") := by
  refine ⟨bundled_allocating, _, rfl, ?_⟩
  obtain ⟨happends, -, hrelation, -⟩ :=
    generate_eq_takeWhile (x := (⟨allocating, _, _, .empty, []⟩ : Extractor)) bundled_allocating
      .empty narrow
  refine ⟨happends, ?_, hrelation _⟩
  decide +kernel

end Extractor

end PointsTo
