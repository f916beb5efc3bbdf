import Mathlib
import PointsTo.Proofs.EmissionRuns
import PointsTo.Proofs.TypeTables

/-!
# Answers that stay

An emission only adds: facts, types, and answers about pointers. An answer that was given is
not taken back, so the last state of an emission tells which guards held on the way. The facts
of an emission that succeeds are those of the rows that its steps have by the answers of the
last state.
-/

namespace PointsTo

/-! ## Memories -/

namespace PointerMemo

variable {m m' m'' : PointerMemo} {t : TypeTable} {id : TypeId} {answer : Bool}

/-- The answers of the second memory stand in the first. -/
def Keeps (m' m : PointerMemo) : Prop :=
  ∀ id answer, m.answer? id = some answer → m'.answer? id = some answer

theorem Keeps.refl (m : PointerMemo) : m.Keeps m := fun _ _ h => h

theorem Keeps.trans (h : m''.Keeps m') (h' : m'.Keeps m) : m''.Keeps m :=
  fun id answer hanswer => h id answer (h' id answer hanswer)

theorem answer?_remember_self (m : PointerMemo) (id : TypeId) (answer : Bool) :
    (m.remember id answer).answer? id = some answer := by
  simp [answer?, remember]

theorem Keeps.remember (h : m'.Keeps m) (hid : m.answer? id = none) (answer : Bool) :
    (m'.remember id answer).Keeps m := by
  intro id' answer' hanswer
  have hne : (id' == id) = false := by
    rw [beq_eq_false_iff_ne]
    rintro rfl
    rw [hid] at hanswer
    cases hanswer
  rw [answer?, PointerMemo.remember, List.lookup_cons, hne]
  exact h id' answer' hanswer

theorem keeps_foldl {ask : PointerMemo → TypeId → Bool × PointerMemo}
    (hask : ∀ m c, (ask m c).2.Keeps m) (parts : List TypeId) (found : Bool) (m : PointerMemo) :
    (parts.foldl (fun p c => if p.1 then (p.1, p.2) else ask p.2 c) (found, m)).2.Keeps m := by
  induction parts generalizing found m with
  | nil => exact .refl m
  | cons c rest ih =>
    rw [List.foldl_cons]
    cases found with
    | true => exact ih true m
    | false => exact (ih _ _).trans (hask m c)

theorem keeps_askWithin (t : TypeTable) (depth : Nat) (m : PointerMemo) (id : TypeId) :
    (askWithin t depth m id).2.Keeps m := by
  induction depth generalizing m id with
  | zero => exact .refl m
  | succ depth ih =>
    rw [askWithin]
    cases hanswer : m.answer? id with
    | some answer => exact .refl m
    | none =>
      cases t.get? id with
      | none => exact (Keeps.refl m).remember hanswer false
      | some ty => exact (keeps_foldl ih ty.children ty.isPointer m).remember hanswer _

theorem keeps_ask (m : PointerMemo) (t : TypeTable) (id : TypeId) : (m.ask t id).2.Keeps m :=
  keeps_askWithin t (t.size + 1) m id

/-- What was asked is answered from then on. -/
theorem answer?_ask (m : PointerMemo) (t : TypeTable) (id : TypeId) :
    (m.ask t id).2.answer? id = some (m.ask t id).1 := by
  rw [ask, askWithin]
  cases hanswer : m.answer? id with
  | some answer => exact hanswer
  | none => cases t.get? id <;> exact answer?_remember_self _ _ _

end PointerMemo

/-! ## Types -/

namespace TypeTable

variable {t t' : TypeTable} {ty : Ty} {id : TypeId}

theorem Extends.find? (h : t'.Extends t) (hid : t.find? ty = some id) :
    t'.find? ty = some id := by
  have hget := find?_eq_some_iff.1 hid
  exact find?_eq_some_iff.2 ((h.get?_of_lt (lt_size_of_get? hget)).trans hget)

theorem find?_intern (t : TypeTable) (ty : Ty) :
    (t.intern ty).2.find? ty = some (t.intern ty).1 :=
  find?_eq_some_iff.2 (t.get?_intern ty)

/-- The id of a static type, if it is in the table. -/
def idOf? (t : TypeTable) : StaticType → Option TypeId
  | .named id => some id
  | .pointer => t.find? .ptr
  | .bit => t.find? (.int .i1)

theorem Extends.idOf? (h : t'.Extends t) {ty : StaticType} (hid : t.idOf? ty = some id) :
    t'.idOf? ty = some id := by
  cases ty with
  | named id => exact hid
  | pointer => exact h.find? hid
  | bit => exact h.find? hid

theorem idOf?_resolve (t : TypeTable) (ty : StaticType) :
    (t.resolve ty).2.idOf? ty = some (t.resolve ty).1 := by
  cases ty with
  | named id => rfl
  | pointer => exact t.find?_intern .ptr
  | bit => exact t.find?_intern (.int .i1)

end TypeTable

/-! ## Emissions -/

namespace Emission

variable {e e' e'' : Emission} {ty : StaticType}

/-- The second state has the types and the answers that the first has, and no wrong yes is new
among its answers. -/
structure Grows (e e' : Emission) : Prop where
  types : e'.types.Extends e.types
  memo : e'.memo.Keeps e.memo
  truthful : e.memo.Truthful e.types → e'.memo.Truthful e'.types

theorem Grows.refl (e : Emission) : e.Grows e := ⟨.refl _, .refl _, id⟩

theorem Grows.trans (h : e.Grows e') (h' : e'.Grows e'') : e.Grows e'' :=
  ⟨h'.types.trans h.types, h'.memo.trans h.memo, h'.truthful ∘ h.truthful⟩

/-- The answer that was given for a type. -/
def answer? (e : Emission) (ty : StaticType) : Option Bool :=
  (e.types.idOf? ty).bind e.memo.answer?

/-- Whether the type holds a pointer, by the answers that were given. -/
def holds (e : Emission) (ty : StaticType) : Bool := (e.answer? ty).getD false

theorem Grows.answer? (h : e.Grows e') {answer : Bool} (hanswer : e.answer? ty = some answer) :
    e'.answer? ty = some answer := by
  obtain ⟨id, hid, hanswer⟩ := Option.bind_eq_some_iff.1 hanswer
  rw [Emission.answer?, h.types.idOf? hid]
  exact h.memo id answer hanswer

end Emission

namespace Emit

variable {α β : Type} {t : Emission.Target}

theorem exec_bind_eq_ok {c : Emit α} {f : α → Emit β} {e e' : Emission} {b : β} :
    exec (c >>= f) e = (.ok b, e') ↔
      ∃ a e₁, exec c e = (.ok a, e₁) ∧ exec (f a) e₁ = (.ok b, e') := by
  rw [exec_bind]
  constructor
  · intro h
    split at h
    next a e₁ ha => exact ⟨a, e₁, ha, h⟩
    next => cases h
  · rintro ⟨a, e₁, ha, hb⟩
    rw [ha]
    exact hb

/-- The computation only adds, also if it fails, and the entries it adds are as `P` says. -/
structure Advances (P : Entry → Prop) (c : Emit α) : Prop where
  grows : ∀ e : Emission, e.Grows (exec c e).2
  entries : ∀ e : Emission, ∃ new, (exec c e).2.entries.toList = e.entries.toList ++ new ∧
    ∀ entry ∈ new, P entry

variable {P P' : Entry → Prop}

theorem Advances.mono {c : Emit α} (h : Advances P c) (hP : ∀ entry, P entry → P' entry) :
    Advances P' c where
  grows := h.grows
  entries e := by
    obtain ⟨new, hnew, hentries⟩ := h.entries e
    exact ⟨new, hnew, fun entry hentry => hP entry (hentries entry hentry)⟩

theorem Advances.bind {c : Emit α} {f : α → Emit β} (h : Advances P c)
    (hf : ∀ a, Advances P (f a)) : Advances P (c >>= f) where
  grows e := by
    have hgrows := h.grows e
    rw [exec_bind]
    split
    next a e₁ ha =>
      rw [ha] at hgrows
      exact hgrows.trans ((hf a).grows e₁)
    next err e₁ ha =>
      rw [ha] at hgrows
      exact hgrows
  entries e := by
    obtain ⟨new, hnew, hentries⟩ := h.entries e
    rw [exec_bind]
    split
    next a e₁ ha =>
      rw [ha] at hnew
      obtain ⟨new', hnew', hentries'⟩ := (hf a).entries e₁
      refine ⟨new ++ new', by rw [hnew', hnew, List.append_assoc], fun entry hentry => ?_⟩
      exact (List.mem_append.1 hentry).elim (hentries entry) (hentries' entry)
    next err e₁ ha =>
      rw [ha] at hnew
      exact ⟨new, hnew, hentries⟩

/-- A computation that leaves the entries as they are adds what it should. -/
theorem Advances.of_silent {c : Emit α} (hgrows : ∀ e : Emission, e.Grows (exec c e).2)
    (hentries : ∀ e, (exec c e).2.entries = e.entries) : Advances P c where
  grows := hgrows
  entries e := ⟨[], by rw [hentries, List.append_nil], by simp⟩

theorem advances_pure (a : α) : Advances P (pure a) :=
  .of_silent (fun e => .refl e) fun _ => rfl

theorem advances_note (notices : List Notice) : Advances P (note notices) :=
  .of_silent (fun _ => ⟨.refl _, .refl _, id⟩) fun _ => rfl

theorem advances_lift (x : Except ExtractError α) : Advances P (lift x) :=
  .of_silent (fun e => by rw [exec_lift]; exact .refl e) fun e => by rw [exec_lift]

theorem advances_staticType (ty : StaticType) : Advances P (staticType ty) :=
  .of_silent (fun e => ⟨e.types.extends_resolve ty, .refl _,
    fun h => h.of_extends (e.types.extends_resolve ty)⟩) fun _ => rfl

theorem advances_holdsPointer (id : TypeId) : Advances P (holdsPointer id) :=
  .of_silent (fun e => ⟨.refl _, PointerMemo.keeps_ask e.memo e.types id, fun h => h.ask id⟩)
    fun _ => rfl

theorem advances_row (t : Emission.Target) (r : Row) : Advances (r.Gives t) (row t r) where
  grows e := by
    rw [exec_row]
    split
    · exact ⟨.refl _, .refl _, id⟩
    · exact .refl e
  entries e := by
    rw [exec_row]
    split
    next fact hfact =>
      refine ⟨[⟨r.relation, fact⟩], by simp [Emission.append], ?_⟩
      exact List.forall_mem_singleton.2 ⟨rfl, e.types, hfact⟩
    next => exact ⟨[], (List.append_nil _).symm, by simp⟩

theorem advances_rows (t : Emission.Target) (rs : List Row) :
    Advances (fun entry => ∃ r ∈ rs, r.Gives t entry) (rows t rs) := by
  induction rs with
  | nil => exact advances_pure ()
  | cons r rest ih =>
    refine Advances.bind ((advances_row t r).mono ?_) fun _ => ih.mono ?_
    · exact fun entry hentry => ⟨r, List.mem_cons_self, hentry⟩
    · rintro entry ⟨r', hr', hentry⟩
      exact ⟨r', List.mem_cons_of_mem _ hr', hentry⟩

theorem advances_acts (t : Emission.Target) (acts : List Act) :
    Advances (fun entry => ∃ r, .append r ∈ acts ∧ r.Gives t entry) (Emit.acts t acts) := by
  induction acts with
  | nil => exact advances_pure ()
  | cons a rest ih =>
    refine Advances.bind ?_ fun _ => ih.mono fun entry ⟨r, hr, hentry⟩ =>
      ⟨r, List.mem_cons_of_mem _ hr, hentry⟩
    cases a with
    | append r => exact (advances_row t r).mono fun entry hentry => ⟨r, List.mem_cons_self, hentry⟩
    | intern ty =>
      exact .of_silent (fun e => ⟨e.types.extends_intern ty, .refl _,
        fun h => h.of_extends (e.types.extends_intern ty)⟩) fun _ => rfl
    | ask id => exact (advances_holdsPointer id).bind fun _ => advances_pure ()
    | note n => exact advances_note [n]
    | fail err => exact .of_silent (fun e => .refl e) fun _ => rfl

theorem advances_run (t : Emission.Target) (st : Step) :
    Advances (fun entry => ∃ r, st.May r ∧ r.Gives t entry) (st.run t) := by
  have hrow {r : Row} (hr : st.May r) :
      Advances (fun entry => ∃ r, st.May r ∧ r.Gives t entry) (row t r) :=
    (advances_row t r).mono fun entry hentry => ⟨r, hr, hentry⟩
  cases st with
  | row r => exact hrow (.row r)
  | typed v ty =>
    refine (advances_staticType ty).bind fun id => (hrow (.valueType v ty id)).bind fun _ =>
      (advances_holdsPointer id).bind fun answer => ?_
    cases answer with
    | true => exact hrow (.pointerValue v ty)
    | false => exact advances_pure ()
  | intern ty => exact (advances_staticType ty).bind fun _ => advances_pure ()
  | ifPointer ty rs =>
    refine (advances_staticType ty).bind fun id => (advances_holdsPointer id).bind fun answer => ?_
    cases answer with
    | true =>
      refine (advances_rows t rs).mono ?_
      rintro entry ⟨r, hr, hentry⟩
      exact ⟨r, .guarded ty hr, hentry⟩
    | false => exact advances_pure ()
  | need o => exact (advances_lift _).bind fun _ => advances_pure ()
  | remark r => exact advances_note _
  | visited c => exact .of_silent (fun _ => ⟨.refl _, .refl _, id⟩) fun _ => rfl
  | acts choose =>
    have hget : Advances (fun entry => ∃ r, (Step.acts choose).May r ∧ r.Gives t entry)
        (get : Emit Emission) := .of_silent (fun e => .refl e) fun _ => rfl
    exact hget.bind fun e => (advances_acts t _).mono fun entry ⟨r, hr, hentry⟩ =>
      ⟨r, .act hr, hentry⟩

theorem advances_steps (t : Emission.Target) (steps : List Step) :
    Advances (fun entry => ∃ st ∈ steps, ∃ r, st.May r ∧ r.Gives t entry)
      (Emit.steps t steps) := by
  induction steps with
  | nil => exact advances_pure ()
  | cons st rest ih =>
    refine Advances.bind ((advances_run t st).mono ?_) fun _ => ih.mono ?_
    · exact fun entry hentry => ⟨st, List.mem_cons_self, hentry⟩
    · rintro entry ⟨st', hst', hentry⟩
      exact ⟨st', List.mem_cons_of_mem _ hst', hentry⟩

end Emit

/-! ## Rows by the answers of the last state -/

/-- The rows of a step by the types and answers of a state. -/
def Step.rowsIn (e : Emission) : Step → List Row
  | .row r => [r]
  | .typed v ty => ⟨.valueType, [v, .typeText ((e.types.idOf? ty).getD ⟨0⟩)]⟩ ::
      if e.holds ty then [⟨.pointerValue, [v]⟩] else []
  | .ifPointer ty rs => if e.holds ty then rs else []
  | _ => []

namespace Emit

variable {α : Type} {t : Emission.Target} {e e₁ e₂ : Emission}

theorem Advances.grows_of_exec {P : Entry → Prop} {c : Emit α} (hc : Advances P c)
    {out : Except ExtractError α} (h : exec c e = (out, e₁)) : e.Grows e₁ := by
  have hgrows := hc.grows e
  rwa [h] at hgrows

theorem idOf?_of_staticType {ty : StaticType} {id : TypeId}
    (h : exec (staticType ty) e = (.ok id, e₁)) : e₁.types.idOf? ty = some id := by
  cases h
  exact e.types.idOf?_resolve ty

theorem answer?_of_holdsPointer {id : TypeId} {answer : Bool}
    (h : exec (holdsPointer id) e = (.ok answer, e₁)) : e₁.memo.answer? id = some answer := by
  cases h
  exact e.memo.answer?_ask e.types id

theorem grows_of_holdsPointer {id : TypeId} {answer : Bool}
    (h : exec (holdsPointer id) e = (.ok answer, e₁)) : e.Grows e₁ :=
  (advances_holdsPointer (P := fun _ => True) id).grows_of_exec h

/-- An answer that was given is the answer of every later state. -/
theorem holds_eq_of_answer {ty : StaticType} {id : TypeId} {answer : Bool}
    (hid : e.types.idOf? ty = some id) (hanswer : e.memo.answer? id = some answer)
    (hgrows : e.Grows e₁) : e₁.holds ty = answer := by
  have hlast : e₁.answer? ty = some answer :=
    hgrows.answer? (Option.bind_eq_some_iff.2 ⟨id, hid, hanswer⟩)
  rw [Emission.holds, hlast]
  rfl

theorem rowsIn_of_typed {v : Value} {ty : StaticType}
    (h : exec ((Step.typed v ty).run t) e = (.ok (), e₁)) (hgrows : e₁.Grows e₂) :
    ∃ new, e₁.entries.toList = e.entries.toList ++ new ∧
      List.Forall₂ (Row.Gives t) ((Step.typed v ty).rowsIn e₂) new := by
  obtain ⟨id, a, hid, h⟩ := exec_bind_eq_ok.1 h
  obtain ⟨_, b, hrow, h⟩ := exec_bind_eq_ok.1 h
  obtain ⟨answer, c, hanswer, h⟩ := exec_bind_eq_ok.1 h
  have hc : c.Grows e₂ := by
    cases answer with
    | true => exact ((advances_row t _).grows_of_exec h).trans hgrows
    | false =>
      cases h
      exact hgrows
  have hidc : c.types.idOf? ty = some id :=
    (((advances_row t _).grows_of_exec hrow).trans
      (grows_of_holdsPointer hanswer)).types.idOf? (idOf?_of_staticType hid)
  have hholds : e₂.holds ty = answer :=
    holds_eq_of_answer hidc (answer?_of_holdsPointer hanswer) hc
  obtain ⟨_, hnone, rfl⟩ := (yields_staticType ty).ok hid
  obtain ⟨_, hvalue, entry, rfl, hentry⟩ := (yields_row t _).ok hrow
  obtain ⟨_, hnone', rfl⟩ := (yields_holdsPointer id).ok hanswer
  rw [List.append_nil] at hnone hnone'
  rw [Step.rowsIn, hc.types.idOf? hidc, Option.getD_some, hholds]
  cases answer with
  | false =>
    cases h
    exact ⟨[entry], by rw [hnone', hvalue, hnone], .cons hentry .nil⟩
  | true =>
    obtain ⟨_, hpointer, entry', rfl, hentry'⟩ := (yields_row t _).ok h
    refine ⟨[entry, entry'], ?_, .cons hentry (.cons hentry' .nil)⟩
    rw [hpointer, hnone', hvalue, hnone, List.append_assoc]
    rfl

theorem rowsIn_of_ifPointer {ty : StaticType} {rs : List Row}
    (h : exec ((Step.ifPointer ty rs).run t) e = (.ok (), e₁)) (hgrows : e₁.Grows e₂) :
    ∃ new, e₁.entries.toList = e.entries.toList ++ new ∧
      List.Forall₂ (Row.Gives t) ((Step.ifPointer ty rs).rowsIn e₂) new := by
  obtain ⟨id, a, hid, h⟩ := exec_bind_eq_ok.1 h
  obtain ⟨answer, b, hanswer, h⟩ := exec_bind_eq_ok.1 h
  have hb : b.Grows e₂ := by
    cases answer with
    | true => exact ((advances_rows t _).grows_of_exec h).trans hgrows
    | false =>
      cases h
      exact hgrows
  have hidb : b.types.idOf? ty = some id :=
    (grows_of_holdsPointer hanswer).types.idOf? (idOf?_of_staticType hid)
  have hholds : e₂.holds ty = answer :=
    holds_eq_of_answer hidb (answer?_of_holdsPointer hanswer) hb
  obtain ⟨_, hnone, rfl⟩ := (yields_staticType ty).ok hid
  obtain ⟨_, hnone', rfl⟩ := (yields_holdsPointer id).ok hanswer
  rw [List.append_nil] at hnone hnone'
  rw [Step.rowsIn, hholds]
  cases answer with
  | false =>
    cases h
    exact ⟨[], by rw [hnone', hnone, List.append_nil], .nil⟩
  | true =>
    obtain ⟨new, hnew, hrows⟩ := (yields_rows t rs).ok h
    exact ⟨new, by rw [hnew, hnone', hnone], hrows⟩

/-- A step that succeeds appends its rows by the answers of any later state. -/
theorem rowsIn_of_run {st : Step} (hst : st.isKnown = true)
    (h : exec (st.run t) e = (.ok (), e₁)) (hgrows : e₁.Grows e₂) :
    ∃ new, e₁.entries.toList = e.entries.toList ++ new ∧
      List.Forall₂ (Row.Gives t) (st.rowsIn e₂) new := by
  cases st with
  | row r =>
    obtain ⟨_, hnew, entry, rfl, hentry⟩ := (yields_row t r).ok h
    exact ⟨[entry], hnew, .cons hentry .nil⟩
  | typed v ty => exact rowsIn_of_typed h hgrows
  | intern ty =>
    obtain ⟨new, hnew, rfl⟩ := ((yields_staticType ty).after_silent fun _ => yields_pure ()).ok h
    exact ⟨[], hnew, .nil⟩
  | ifPointer ty rs => exact rowsIn_of_ifPointer h hgrows
  | need o =>
    obtain ⟨_, _, hlift, h⟩ := exec_bind_eq_ok.1 h
    obtain ⟨new, hnew, rfl, -⟩ := (yields_lift _).ok hlift
    cases h
    exact ⟨[], hnew, .nil⟩
  | remark r =>
    obtain ⟨new, hnew, rfl⟩ := (yields_note _).ok h
    exact ⟨[], hnew, .nil⟩
  | visited c =>
    cases h
    exact ⟨[], (List.append_nil _).symm, .nil⟩
  | acts choose => cases hst

theorem rowsIn_of_steps {steps : List Step} (hsteps : ∀ st ∈ steps, st.isKnown = true)
    (h : exec (Emit.steps t steps) e = (.ok (), e₁)) (hgrows : e₁.Grows e₂) :
    ∃ new, e₁.entries.toList = e.entries.toList ++ new ∧
      List.Forall₂ (Row.Gives t) (steps.flatMap (Step.rowsIn e₂)) new := by
  induction steps generalizing e with
  | nil =>
    cases h
    exact ⟨[], (List.append_nil _).symm, .nil⟩
  | cons st rest ih =>
    obtain ⟨_, a, hst, hrest⟩ := exec_bind_eq_ok.1 h
    have ha : a.Grows e₂ := ((advances_steps t rest).grows_of_exec hrest).trans hgrows
    rw [List.forall_mem_cons] at hsteps
    obtain ⟨new, hnew, hrows⟩ := rowsIn_of_run hsteps.1 hst ha
    obtain ⟨new', hnew', hrows'⟩ := ih hsteps.2 hrest
    refine ⟨new ++ new', by rw [hnew', hnew, List.append_assoc], ?_⟩
    rw [List.flatMap_cons]
    exact List.rel_append hrows hrows'

end Emit

/-! ## Runs -/

namespace Extractor

variable {x : Extractor} {types : TypeTable} {store : FactStore}

/-- What a run appends, whether it succeeds or not, comes from rows of its plan. -/
theorem exists_row_of_entry {entry : Entry} (h : entry ∈ (x.run types store).entries.toList) :
    ∃ st ∈ x.setup.plan x.matched, ∃ r, st.May r ∧ r.Gives ⟨x.objects, store⟩ entry := by
  obtain ⟨log, hexec⟩ := x.exec_steps types store
  obtain ⟨new, hnew, hrows⟩ := (Emit.advances_steps ⟨x.objects, store⟩
    (x.setup.plan x.matched)).entries ⟨types, x.memo, [], #[], #[]⟩
  rw [hexec] at hnew
  rw [show (x.run types store).entries.toList = new from hnew] at h
  exact hrows entry h

/-- The entries of a run that succeeds are those of the rows of its plan by the answers that
were given. -/
theorem forall₂_rowsIn (hsteps : ∀ st ∈ x.setup.plan x.matched, st.isKnown = true)
    (h : (x.run types store).outcome = .ok ()) :
    List.Forall₂ (Row.Gives ⟨x.objects, store⟩)
      ((x.setup.plan x.matched).flatMap (Step.rowsIn (x.run types store).state))
      (x.run types store).entries.toList := by
  obtain ⟨log, hexec⟩ := x.exec_steps types store
  have hgrows : Emission.Grows { (x.run types store).state with log } (x.run types store).state :=
    ⟨.refl _, .refl _, id⟩
  rw [h] at hexec
  obtain ⟨new, hnew, hrows⟩ := Emit.rowsIn_of_steps hsteps hexec hgrows
  exact hnew ▸ hrows

/-- Types are only added to the table. -/
theorem extends_state (x : Extractor) (types : TypeTable) (store : FactStore) :
    (x.run types store).state.types.Extends types := by
  obtain ⟨log, hexec⟩ := x.exec_steps types store
  exact ((Emit.advances_steps _ _).grows_of_exec hexec).types

/-- A bit is never said to hold a pointer. -/
theorem holds_bit (hmemo : x.memo.Truthful types) (store : FactStore) :
    (x.run types store).state.holds .bit = false := by
  obtain ⟨log, hexec⟩ := x.exec_steps types store
  have htruthful := ((Emit.advances_steps _ _).grows_of_exec hexec).truthful hmemo
  by_contra hholds
  rw [Bool.not_eq_false, Emission.holds, Option.getD_eq_iff] at hholds
  rcases hholds with hanswer | ⟨-, hfalse⟩
  · obtain ⟨id, hid, hanswer⟩ := Option.bind_eq_some_iff.1 hanswer
    have hbit :=
      (TypeTable.holds_iff_of_get? (TypeTable.find?_eq_some_iff.1 hid)).1 (htruthful id hanswer)
    simp [Ty.isPointer, Ty.children] at hbit
  · cases hfalse

end Extractor

end PointsTo
