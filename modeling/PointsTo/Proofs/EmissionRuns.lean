import Mathlib
import PointsTo.Extract.Extractor

/-!
# What an emission does

A step either fails for the sake of one of its rows or of an object it needs, or appends
facts that its rows give. An emission that succeeds appends what its steps append, in
order; one that fails does so for one of its steps.
-/

namespace PointsTo

/-! ## Lists -/

theorem exists_left_of_mem_right {α β : Type} {R : α → β → Prop} {l : List α} {l' : List β}
    (h : List.Forall₂ R l l') {b : β} (hb : b ∈ l') : ∃ a ∈ l, R a b := by
  induction h with
  | nil => cases hb
  | @cons a b' l l' hr _ ih =>
    rcases List.mem_cons.1 hb with rfl | hb
    · exact ⟨a, List.mem_cons_self, hr⟩
    · obtain ⟨a', ha', hr'⟩ := ih hb
      exact ⟨a', List.mem_cons_of_mem _ ha', hr'⟩

theorem exists_right_of_mem_left {α β : Type} {R : α → β → Prop} {l : List α} {l' : List β}
    (h : List.Forall₂ R l l') {a : α} (ha : a ∈ l) : ∃ b ∈ l', R a b :=
  exists_left_of_mem_right h.flip ha

/-- A map that may fail gives the images of all elements, or the failure of one. -/
theorem mapM_cases {α β ε : Type} (f : α → Except ε β) (l : List α) :
    (∃ l', l.mapM f = .ok l' ∧ List.Forall₂ (fun a b => f a = .ok b) l l') ∨
      ∃ e, l.mapM f = .error e ∧ ∃ a ∈ l, f a = .error e := by
  induction l with
  | nil => exact .inl ⟨[], rfl, .nil⟩
  | cons a l ih =>
    rw [List.mapM_cons]
    cases ha : f a with
    | error e => exact .inr ⟨e, rfl, a, List.mem_cons_self, ha⟩
    | ok b =>
      rcases ih with ⟨l', hl, h⟩ | ⟨e, hl, a', ha', he⟩
      · rw [hl]
        exact .inl ⟨b :: l', rfl, .cons ha h⟩
      · rw [hl]
        exact .inr ⟨e, rfl, a', List.mem_cons_of_mem _ ha', he⟩

/-! ## Rows -/

/-- The fact of a row, if the schema takes it. -/
def Row.accept (t : Emission.Target) (types : TypeTable) (r : Row) : Except ExtractError Fact :=
  match r.resolve t.objects types with
  | .error e => .error e
  | .ok fact =>
    match t.schema.check r.relation fact with
    | .error e => .error (.store e)
    | .ok _ => .ok fact

/-- The terms of an accepted fact are those of the cells of its row. -/
theorem Row.forall₂_of_accept {t : Emission.Target} {types : TypeTable} {r : Row} {fact : Fact}
    (h : r.accept t types = .ok fact) :
    List.Forall₂ (fun cell term => cell.resolve t.objects types = .ok term) r.cells fact := by
  unfold accept resolve at h
  rcases mapM_cases (Cell.resolve t.objects types) r.cells with ⟨fact', hfact, hcells⟩ | ⟨e, he, -⟩
  · simp only [hfact] at h
    split at h
    · cases h
    · cases h
      exact hcells
  · simp [he] at h

theorem Cell.resolve_object_eq_ok {x : ObjectTable Value} {types : TypeTable} {o : ObjectRef}
    {term : Term} (h : (Cell.object o).resolve x types = .ok term) :
    ∃ id, o.resolve x = .ok id ∧ term = .object id := by
  unfold resolve at h
  cases ho : o.resolve x with
  | error err => simp [ho, Except.map] at h
  | ok id =>
    simp only [ho, Except.map, Except.ok.injEq] at h
    exact ⟨id, rfl, h.symm⟩

/-- The row gives an entry, with some table of types. -/
def Row.Gives (t : Emission.Target) (r : Row) (entry : Entry) : Prop :=
  entry.relation = r.relation ∧ ∃ types, r.accept t types = .ok entry.fact

/-- The row fails, with some table of types. -/
def Row.FailsWith (t : Emission.Target) (r : Row) (err : ExtractError) : Prop :=
  ∃ types, r.accept t types = .error err

/-- Append an entry that has been checked. -/
def Emission.append (e : Emission) (entry : Entry) : Emission :=
  { e with entries := e.entries.push entry, log := e.log.push entry.notice }

/-! ## Computations -/

namespace Emit

variable {α β : Type} {t : Emission.Target}

/-- A computation, carried out. -/
def exec (c : Emit α) (e : Emission) : Except ExtractError α × Emission := c.run.run e

theorem exec_bind (c : Emit α) (f : α → Emit β) (e : Emission) :
    exec (c >>= f) e = match exec c e with
      | (.ok a, e') => exec (f a) e'
      | (.error err, e') => (.error err, e') := by
  unfold exec
  simp only [ExceptT.run_bind, StateT.run_bind]
  cases h : c.run.run e with
  | mk r e' => cases r <;> rfl

theorem exec_lift (x : Except ExtractError α) (e : Emission) : exec (lift x) e = (x, e) := by
  cases x <;> rfl

theorem exec_row (t : Emission.Target) (r : Row) (e : Emission) :
    exec (row t r) e = match r.accept t e.types with
      | .ok fact => (.ok (), e.append ⟨r.relation, fact⟩)
      | .error err => (.error err, e) := by
  have hget : exec (get : Emit Emission) e = (.ok e, e) := rfl
  unfold row Row.accept
  simp only [exec_bind, hget, exec_lift]
  cases r.resolve t.objects e.types with
  | error err => rfl
  | ok fact =>
    cases hc : t.schema.check r.relation fact with
    | error err => simp only [hc, Except.mapError]
    | ok u =>
      simp only [hc, Except.mapError]
      rfl

/-- The computation fails only as `P` says, and if it succeeds it appends entries as `Q`
says. -/
structure Yields (c : Emit α) (P : ExtractError → Prop) (Q : List Entry → Prop) : Prop where
  error : ∀ {e err e'}, exec c e = (.error err, e') → P err
  ok : ∀ {e a e'}, exec c e = (.ok a, e') →
    ∃ new, e'.entries.toList = e.entries.toList ++ new ∧ Q new

variable {P P' : ExtractError → Prop} {Q Q' : List Entry → Prop}

theorem Yields.mono {c : Emit α} (h : Yields c P Q) (hP : ∀ err, P err → P' err)
    (hQ : ∀ new, Q new → Q' new) : Yields c P' Q' where
  error he := hP _ (h.error he)
  ok he := (h.ok he).imp fun new hnew => ⟨hnew.1, hQ new hnew.2⟩

theorem Yields.bind {c : Emit α} {f : α → Emit β} (h : Yields c P Q)
    (hf : ∀ a, Yields (f a) P Q') :
    Yields (c >>= f) P fun new => ∃ new₁ new₂, new = new₁ ++ new₂ ∧ Q new₁ ∧ Q' new₂ where
  error {e err e'} he := by
    rw [exec_bind] at he
    split at he
    next a e₁ ha => exact (hf a).error he
    next err₁ e₁ ha =>
      cases he
      exact h.error ha
  ok {e b e'} he := by
    rw [exec_bind] at he
    split at he
    next a e₁ ha =>
      obtain ⟨new₁, hnew₁, hQ⟩ := h.ok ha
      obtain ⟨new₂, hnew₂, hQ'⟩ := (hf a).ok he
      exact ⟨new₁ ++ new₂, by rw [hnew₂, hnew₁, List.append_assoc], new₁, new₂, rfl, hQ, hQ'⟩
    next => cases he

/-- A computation that appends nothing and cannot fail may come first. -/
theorem Yields.after_silent {c : Emit α} {f : α → Emit β}
    (h : Yields c (fun _ => False) (· = [])) (hf : ∀ a, Yields (f a) P Q) :
    Yields (c >>= f) P Q := by
  refine ((h.mono (fun _ => False.elim) fun _ => id).bind hf).mono (fun _ => id) ?_
  rintro new ⟨new₁, new₂, rfl, rfl, hQ⟩
  exact hQ

theorem Yields.of_silent {c : Emit α} (h : Yields c (fun _ => False) (· = [])) (hQ : Q []) :
    Yields c P Q := by
  refine h.mono (fun _ => False.elim) ?_
  rintro new rfl
  exact hQ

/-- A computation that always succeeds and leaves the entries as they are is silent. -/
theorem yields_nothing {c : Emit α}
    (h : ∀ e, ∃ a e', exec c e = (.ok a, e') ∧ e'.entries = e.entries) :
    Yields c (fun _ => False) (· = []) where
  error {e err e'} he := by
    obtain ⟨a, e₁, hrun, -⟩ := h e
    rw [hrun] at he
    cases he
  ok {e a e'} he := by
    obtain ⟨a, e₁, hrun, hentries⟩ := h e
    rw [hrun] at he
    cases he
    exact ⟨[], by rw [hentries, List.append_nil], rfl⟩

theorem yields_pure (a : α) : Yields (pure a) (fun _ => False) (· = []) :=
  yields_nothing fun _ => ⟨_, _, rfl, rfl⟩

theorem yields_note (notices : List Notice) :
    Yields (note notices) (fun _ => False) (· = []) :=
  yields_nothing fun _ => ⟨_, _, rfl, rfl⟩

theorem yields_staticType (ty : StaticType) :
    Yields (staticType ty) (fun _ => False) (· = []) :=
  yields_nothing fun _ => ⟨_, _, rfl, rfl⟩

theorem yields_holdsPointer (id : TypeId) :
    Yields (holdsPointer id) (fun _ => False) (· = []) :=
  yields_nothing fun _ => ⟨_, _, rfl, rfl⟩

theorem yields_lift (x : Except ExtractError α) :
    Yields (lift x) (fun err => x = .error err) fun new => new = [] ∧ ∃ a, x = .ok a where
  error he := by
    rw [exec_lift] at he
    exact (Prod.mk.inj he).1
  ok he := by
    rw [exec_lift] at he
    obtain ⟨rfl, rfl⟩ := Prod.mk.inj he
    exact ⟨[], by simp, rfl, _, rfl⟩

theorem yields_row (t : Emission.Target) (r : Row) :
    Yields (row t r) (r.FailsWith t) fun new => ∃ entry, new = [entry] ∧ r.Gives t entry where
  error {e err e'} he := by
    rw [exec_row] at he
    split at he
    next => cases he
    next err' herr =>
      cases he
      exact ⟨_, herr⟩
  ok {e a e'} he := by
    rw [exec_row] at he
    split at he
    next fact hfact =>
      cases he
      exact ⟨[⟨r.relation, fact⟩], by simp [Emission.append], _, rfl, rfl, _, hfact⟩
    next => cases he

theorem yields_rows (t : Emission.Target) (rs : List Row) :
    Yields (rows t rs) (fun err => ∃ r ∈ rs, r.FailsWith t err) fun new =>
      List.Forall₂ (Row.Gives t) rs new := by
  induction rs with
  | nil => exact (yields_pure ()).of_silent .nil
  | cons r rest ih =>
    refine Yields.mono (Yields.bind ((yields_row t r).mono ?_ fun _ => id) fun _ =>
      ih.mono ?_ fun _ => id) (fun _ => id) ?_
    · exact fun err herr => ⟨r, List.mem_cons_self, herr⟩
    · rintro err ⟨r', hr', herr⟩
      exact ⟨r', List.mem_cons_of_mem _ hr', herr⟩
    · rintro new ⟨new₁, new₂, rfl, ⟨entry, rfl, hgives⟩, hrest⟩
      exact .cons hgives hrest

end Emit

/-! ## Steps -/

namespace Step

variable {t : Emission.Target}

/-- What the step does is known before the emission starts. -/
def isKnown : Step → Bool
  | .acts _ => false
  | _ => true

/-- The step may append the row. -/
inductive May : Step → Row → Prop
  | row (r : Row) : May (.row r) r
  | valueType (v : Value) (ty : StaticType) (id : TypeId) :
      May (.typed v ty) ⟨.valueType, [v, .typeText id]⟩
  | pointerValue (v : Value) (ty : StaticType) : May (.typed v ty) ⟨.pointerValue, [v]⟩
  | guarded (ty : StaticType) {rs : List Row} {r : Row} : r ∈ rs → May (.ifPointer ty rs) r
  | act {choose : Emission.Target → Emission → List Act} {t : Emission.Target} {e : Emission}
      {r : Row} : .append r ∈ choose t e → May (.acts choose) r

section May

variable {r r' : Row} {ty : StaticType}

@[simp] theorem may_row_iff : (row r).May r' ↔ r' = r := by
  constructor
  · rintro ⟨⟩
    rfl
  · rintro rfl
    exact .row _

@[simp] theorem may_ifPointer_iff {rows : List Row} : (ifPointer ty rows).May r ↔ r ∈ rows := by
  constructor
  · rintro (_ | _ | _ | ⟨_, h⟩)
    exact h
  · exact .guarded ty

@[simp] theorem may_typed_iff {v : Value} : (typed v ty).May r ↔
    (∃ id, r = ⟨.valueType, [v, .typeText id]⟩) ∨ r = ⟨.pointerValue, [v]⟩ := by
  constructor
  · intro h
    cases h with
    | valueType _ _ id => exact .inl ⟨id, rfl⟩
    | pointerValue => exact .inr rfl
  · rintro (⟨id, rfl⟩ | rfl)
    · exact .valueType v ty id
    · exact .pointerValue v ty

@[simp] theorem not_may_intern : ¬ (intern ty).May r := nofun
@[simp] theorem not_may_need {o : ObjectRef} : ¬ (need o).May r := nofun
@[simp] theorem not_may_remark {n : Remark} : ¬ (remark n).May r := nofun
@[simp] theorem not_may_visited {c : ConstId} : ¬ (visited c).May r := nofun

end May

/-- Why a step fails. -/
inductive FailsWith (t : Emission.Target) : Step → ExtractError → Prop
  | row {s : Step} {r : Row} {err : ExtractError} : s.May r → r.FailsWith t err → FailsWith t s err
  | need {o : ObjectRef} {err : ExtractError} :
      o.resolve t.objects = .error err → FailsWith t (.need o) err
  | act {choose : Emission.Target → Emission → List Act} {e : Emission} {err : ExtractError} :
      .fail err ∈ choose t e → FailsWith t (.acts choose) err

/-- What a step that succeeds appends. -/
structure Appends (t : Emission.Target) (s : Step) (new : List Entry) : Prop where
  may : ∀ entry ∈ new, ∃ r, s.May r ∧ r.Gives t entry
  row : ∀ r, s = .row r → ∃ entry, new = [entry] ∧ r.Gives t entry
  need : ∀ o, s = .need o → ∃ id, o.resolve t.objects = .ok id

/-- A row that a step may append, appended. -/
theorem yields_row_of_may {s : Step} {r : Row} (h : s.May r) :
    Emit.Yields (Emit.row t r) (s.FailsWith t) fun new =>
      ∀ entry ∈ new, ∃ r, s.May r ∧ r.Gives t entry := by
  refine (Emit.yields_row t r).mono (fun err herr => .row h herr) ?_
  rintro new ⟨entry, rfl, hgives⟩
  exact List.forall_mem_singleton.2 ⟨r, h, hgives⟩

theorem yields_typed (v : Value) (ty : StaticType) :
    Emit.Yields ((Step.typed v ty).run t) ((Step.typed v ty).FailsWith t) fun new =>
      ∀ entry ∈ new, ∃ r, (Step.typed v ty).May r ∧ r.Gives t entry := by
  refine Emit.Yields.after_silent (Emit.yields_staticType ty) fun tid => ?_
  refine Emit.Yields.mono (Emit.Yields.bind (yields_row_of_may (.valueType v ty tid)) fun _ =>
    Emit.Yields.after_silent (Q := fun new =>
      ∀ entry ∈ new, ∃ r, (Step.typed v ty).May r ∧ r.Gives t entry)
      (Emit.yields_holdsPointer tid) fun pointer => ?_) (fun _ => id) ?_
  · cases pointer with
    | false => exact (Emit.yields_pure ()).of_silent (by simp)
    | true => exact yields_row_of_may (.pointerValue v ty)
  · rintro new ⟨new₁, new₂, rfl, hnew₁, hnew₂⟩ entry hentry
    exact (List.mem_append.1 hentry).elim (hnew₁ entry) (hnew₂ entry)

theorem yields_ifPointer (ty : StaticType) (rs : List Row) :
    Emit.Yields ((Step.ifPointer ty rs).run t) ((Step.ifPointer ty rs).FailsWith t) fun new =>
      ∀ entry ∈ new, ∃ r, (Step.ifPointer ty rs).May r ∧ r.Gives t entry := by
  refine Emit.Yields.after_silent (Emit.yields_staticType ty) fun id => ?_
  refine Emit.Yields.after_silent (Emit.yields_holdsPointer id) fun pointer => ?_
  cases pointer with
  | false => exact (Emit.yields_pure ()).of_silent (by simp)
  | true =>
    refine (Emit.yields_rows t rs).mono ?_ ?_
    · rintro err ⟨r, hr, herr⟩
      exact .row (.guarded ty hr) herr
    · intro new hnew entry hentry
      obtain ⟨r, hr, hgives⟩ := exists_left_of_mem_right hnew hentry
      exact ⟨r, .guarded ty hr, hgives⟩

theorem yields_acts {choose : Emission.Target → Emission → List Act} {e : Emission}
    {acts : List Act} (h : acts ⊆ choose t e) :
    Emit.Yields (Emit.acts t acts) ((Step.acts choose).FailsWith t) fun new =>
      ∀ entry ∈ new, ∃ r, (Step.acts choose).May r ∧ r.Gives t entry := by
  induction acts with
  | nil => exact (Emit.yields_pure ()).of_silent (by simp)
  | cons a rest ih =>
    rw [List.cons_subset] at h
    have hact : Emit.Yields (a.run t) ((Step.acts choose).FailsWith t) fun new =>
        ∀ entry ∈ new, ∃ r, (Step.acts choose).May r ∧ r.Gives t entry := by
      cases a with
      | append r => exact yields_row_of_may (.act h.1)
      | fail err =>
        constructor
        · intro e err' e' he
          cases he
          exact .act h.1
        · intro e a e' he
          cases he
      | intern ty =>
        refine Emit.Yields.of_silent (Emit.yields_nothing ?_) (by simp)
        exact fun _ => ⟨_, _, rfl, rfl⟩
      | ask id =>
        refine Emit.Yields.of_silent (Emit.yields_nothing ?_) (by simp)
        exact fun _ => ⟨_, _, rfl, rfl⟩
      | note n => exact (Emit.yields_note [n]).of_silent (by simp)
    refine (hact.bind fun _ => ih h.2).mono (fun _ => id) ?_
    rintro new ⟨new₁, new₂, rfl, hnew₁, hnew₂⟩ entry hentry
    exact (List.mem_append.1 hentry).elim (hnew₁ entry) (hnew₂ entry)

/-- All that a step can do. -/
theorem run_yields (t : Emission.Target) (s : Step) :
    Emit.Yields (s.run t) (s.FailsWith t) (s.Appends t) := by
  cases s with
  | row r =>
    refine (Emit.yields_row t r).mono (fun err herr => .row (.row r) herr) ?_
    rintro new ⟨entry, rfl, hgives⟩
    refine ⟨List.forall_mem_singleton.2 ⟨r, .row r, hgives⟩, ?_, by simp⟩
    rintro r' ⟨⟩
    exact ⟨entry, rfl, hgives⟩
  | typed v ty =>
    exact (yields_typed v ty).mono (fun _ => id) fun new hnew => ⟨hnew, by simp, by simp⟩
  | intern ty =>
    have hsilent := Emit.Yields.after_silent (Emit.yields_staticType ty) fun _ =>
      Emit.yields_pure ()
    exact hsilent.of_silent ⟨by simp, by simp, by simp⟩
  | ifPointer ty rs =>
    exact (yields_ifPointer ty rs).mono (fun _ => id) fun new hnew => ⟨hnew, by simp, by simp⟩
  | need o =>
    refine ((Emit.yields_lift (o.resolve t.objects)).bind fun _ => (Emit.yields_pure ()).mono
      (fun _ => False.elim) fun _ => id).mono (fun err herr => .need herr) ?_
    rintro new ⟨new₁, new₂, rfl, ⟨rfl, hid⟩, rfl⟩
    refine ⟨by simp, by simp, ?_⟩
    rintro o' ⟨⟩
    exact hid
  | remark r =>
    exact (Emit.yields_note _).of_silent ⟨by simp, by simp, by simp⟩
  | visited c =>
    refine Emit.Yields.of_silent (Emit.yields_nothing ?_) ⟨by simp, by simp, by simp⟩
    exact fun _ => ⟨_, _, rfl, rfl⟩
  | acts choose =>
    have hget : Emit.Yields (get : Emit Emission) (fun _ => False) (· = []) :=
      Emit.yields_nothing fun _ => ⟨_, _, rfl, rfl⟩
    refine hget.after_silent fun e => ?_
    exact (yields_acts (List.Subset.refl (choose t e))).mono (fun _ => id) fun new hnew =>
      ⟨hnew, by simp, by simp⟩

end Step

theorem Emit.exec_steps_append (t : Emission.Target) (steps steps' : List Step) (e : Emission) :
    exec (Emit.steps t (steps ++ steps')) e =
      match exec (Emit.steps t steps) e with
      | (.ok _, e') => exec (Emit.steps t steps') e'
      | (.error err, e') => (.error err, e') := by
  induction steps generalizing e with
  | nil => rfl
  | cons st rest ih =>
    simp only [List.cons_append, Emit.steps, exec_bind]
    split
    · exact ih _
    · rfl

/-- Steps that succeed append what each of them appends, in order. -/
theorem Emit.steps_yields (t : Emission.Target) (steps : List Step) :
    Emit.Yields (Emit.steps t steps) (fun err => ∃ s ∈ steps, s.FailsWith t err) fun new =>
      ∃ parts, new = parts.flatten ∧ List.Forall₂ (Step.Appends t) steps parts := by
  induction steps with
  | nil => exact (Emit.yields_pure ()).of_silent ⟨[], rfl, .nil⟩
  | cons s rest ih =>
    refine Yields.mono (Yields.bind ((s.run_yields t).mono ?_ fun _ => id) fun _ =>
      ih.mono ?_ fun _ => id) (fun _ => id) ?_
    · exact fun err herr => ⟨s, List.mem_cons_self, herr⟩
    · rintro err ⟨s', hs', herr⟩
      exact ⟨s', List.mem_cons_of_mem _ hs', herr⟩
    · rintro new ⟨new₁, new₂, rfl, happends, parts, rfl, hparts⟩
      exact ⟨new₁ :: parts, rfl, .cons happends hparts⟩

/-! ## Extractors -/

namespace Extractor

variable {x : Extractor} {types : TypeTable} {store : FactStore}

/-- The state that a run ends in. -/
def Run.state (r : Run) : Emission := ⟨r.types, r.memo, r.visited, r.entries, r.log⟩

theorem exec_steps (x : Extractor) (types : TypeTable) (store : FactStore) :
    ∃ log, Emit.exec (Emit.steps ⟨x.objects, store⟩ (x.setup.plan x.matched))
      ⟨types, x.memo, [], #[], #[]⟩ =
        ((x.run types store).outcome, { (x.run types store).state with log }) := by
  refine ⟨(Emit.exec (Emit.steps ⟨x.objects, store⟩ (x.setup.plan x.matched))
    ⟨types, x.memo, [], #[], #[]⟩).2.log, ?_⟩
  simp only [run, emit, clear, Run.state]
  rfl

/-- The facts that a description appends to a store, in order. -/
def appends (x : Extractor) (types : TypeTable) (store : FactStore) : List Entry :=
  (x.run types store).entries.toList

theorem store_generate (x : Extractor) (types : TypeTable) (store : FactStore) :
    (x.generate types store).store = (x.appends types store).foldl FactStore.record store := by
  rw [generate, appends, Array.foldl_toList]

/-- A run that fails does so for a step of the plan. -/
theorem exists_failing_step {err : ExtractError} (h : (x.run types store).outcome = .error err) :
    ∃ s ∈ x.setup.plan x.matched, s.FailsWith ⟨x.objects, store⟩ err := by
  obtain ⟨log, hexec⟩ := x.exec_steps types store
  rw [h] at hexec
  exact (Emit.steps_yields _ _).error hexec

/-- The entries of a run that succeeds are those that the steps of the plan append. -/
theorem exists_appended (h : (x.run types store).outcome = .ok ()) :
    ∃ parts, (x.run types store).entries.toList = parts.flatten ∧
      List.Forall₂ (Step.Appends ⟨x.objects, store⟩) (x.setup.plan x.matched) parts := by
  obtain ⟨log, hexec⟩ := x.exec_steps types store
  rw [h] at hexec
  obtain ⟨new, hnew, parts, rfl, hparts⟩ := (Emit.steps_yields _ _).ok hexec
  exact ⟨parts, hnew, hparts⟩

/-- In a run that succeeds every step of the plan does. -/
theorem exists_appends_of_mem (h : (x.run types store).outcome = .ok ()) {s : Step}
    (hs : s ∈ x.setup.plan x.matched) : ∃ new, s.Appends ⟨x.objects, store⟩ new := by
  obtain ⟨parts, -, hparts⟩ := exists_appended h
  obtain ⟨new, -, hnew⟩ := exists_right_of_mem_left hparts hs
  exact ⟨new, hnew⟩

end Extractor

end PointsTo
