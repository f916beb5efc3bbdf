import Mathlib
import PointsTo.Proofs.Correspondence
import PointsTo.Proofs.TypeTables

/-!
# Descriptions that agree

Two descriptions agree up to a map on object ids if their rows mention, place by place,
objects whose ids correspond, or objects that have no id in either. They then append facts
that correspond, and fail together. Steps have to come in the same order, but for types that
enter the table ahead of the blocks of a function: pointers are in the table by then, so
their order makes no difference.
-/

namespace PointsTo

/-- A map over two lists fails for both, or gives lists of results that go together. -/
theorem Both.mapM {ε ε' α β γ δ : Type} {Q : γ → δ → Prop} {f : α → Except ε γ}
    {g : β → Except ε' δ} {l : List α} {l' : List β}
    (h : List.Forall₂ (fun a b => Both Q (fun _ _ => True) (f a) (g b)) l l') :
    Both (List.Forall₂ Q) (fun _ _ => True) (l.mapM f) (l'.mapM g) := by
  induction h with
  | nil => exact .ok .nil
  | @cons a b l l' hab _ ih =>
    rw [List.mapM_cons, List.mapM_cons]
    generalize f a = x, g b = y at hab
    cases hab with
    | error _ => exact .error trivial
    | ok hcd =>
      generalize l.mapM f = xs, l'.mapM g = ys at ih
      cases ih with
      | error _ => exact .error trivial
      | ok hrest => exact .ok (.cons hcd hrest)

/-! ## Facts up to a map on ids -/

def Term.mapId (φ : ObjectId → ObjectId) : Term → Term
  | .object id => .object (φ id)
  | .int n => .int n
  | .str s => .str s

def Entry.mapId (φ : ObjectId → ObjectId) (e : Entry) : Entry :=
  ⟨e.relation, e.fact.map (Term.mapId φ)⟩

@[simp] theorem Term.mapId_id : Term.mapId id = id := by
  funext t
  cases t <;> rfl

@[simp] theorem Entry.mapId_id : Entry.mapId id = id := by
  funext e
  simp [Entry.mapId]

@[simp] theorem Term.column_mapId (φ : ObjectId → ObjectId) (t : Term) :
    (t.mapId φ).column = t.column := by
  cases t <;> rfl

theorem Schema.check_mapId (φ : ObjectId → ObjectId) (s : Schema) (r : Relation) (fact : Fact) :
    s.check r (fact.map (Term.mapId φ)) = s.check r fact := by
  have hmismatch : r.mismatch? (fact.map (Term.mapId φ)) = r.mismatch? fact := by
    simp [Relation.mismatch?, List.zip_map_left, List.zipIdx_map, List.findSome?_map,
      Function.comp_def]
  rw [check, check, hmismatch, List.length_map]

/-! ## Rows that agree -/

variable {φ : ObjectId → ObjectId} {x x' : ObjectTable Value}

/-- The ids of the objects correspond, or neither has one. -/
def ObjectRef.Agree (φ : ObjectId → ObjectId) (x x' : ObjectTable Value) (o o' : ObjectRef) :
    Prop :=
  Both (fun id id' => id' = φ id) (fun _ _ => True) (o.resolve x) (o'.resolve x')

inductive Cell.Agree (φ : ObjectId → ObjectId) (x x' : ObjectTable Value) : Cell → Cell → Prop
  | object {o o' : ObjectRef} : o.Agree φ x x' o' → Agree φ x x' (.object o) (.object o')
  | int (n : Int) : Agree φ x x' (.int n) (.int n)
  | str (s : String) : Agree φ x x' (.str s) (.str s)
  | typeText (t : TypeId) : Agree φ x x' (.typeText t) (.typeText t)

structure Row.Agree (φ : ObjectId → ObjectId) (x x' : ObjectTable Value) (r r' : Row) :
    Prop where
  relation : r'.relation = r.relation
  cells : List.Forall₂ (Cell.Agree φ x x') r.cells r'.cells

theorem Cell.Agree.resolve {c c' : Cell} (h : c.Agree φ x x' c') (types : TypeTable) :
    Both (fun term term' => term' = term.mapId φ) (fun _ _ => True) (c.resolve x types)
      (c'.resolve x' types) := by
  cases h with
  | @object o o' h =>
    unfold ObjectRef.Agree at h
    rw [Cell.resolve, Cell.resolve]
    generalize o.resolve x = y, o'.resolve x' = y' at h
    cases h with
    | ok hid => exact .ok (congrArg Term.object hid)
    | error _ => exact .error trivial
  | int n => exact .ok rfl
  | str s => exact .ok rfl
  | typeText t => exact .ok rfl

/-- Rows that agree become facts that correspond, or both are refused. -/
theorem Row.Agree.accept {r r' : Row} (h : r.Agree φ x x' r') (store : FactStore)
    (types : TypeTable) :
    Both (fun fact fact' => fact' = fact.map (Term.mapId φ)) (fun _ _ => True)
      (r.accept ⟨x, store⟩ types) (r'.accept ⟨x', store⟩ types) := by
  have hresolve : Both (List.Forall₂ fun term term' => term' = Term.mapId φ term)
      (fun _ _ => True) (r.resolve x types) (r'.resolve x' types) :=
    Both.mapM (h.cells.imp fun _ _ hc => hc.resolve types)
  rw [Row.accept, Row.accept, h.relation]
  generalize r.resolve x types = y, r'.resolve x' types = y' at hresolve
  cases hresolve with
  | error _ => exact .error trivial
  | @ok fact fact' hterms =>
    have hfact : fact' = fact.map (Term.mapId φ) := by
      have hmap := List.forall₂_map_left_iff.2 (hterms.imp fun _ _ ht => ht.symm)
      exact (List.forall₂_eq_eq_eq ▸ hmap : fact.map (Term.mapId φ) = fact').symm
    subst hfact
    simp only [Schema.check_mapId]
    cases store.schema.check r.relation fact with
    | error e => exact .error trivial
    | ok u => exact .ok rfl

/-! ## Steps that agree -/

inductive Step.Agree (φ : ObjectId → ObjectId) (x x' : ObjectTable Value) : Step → Step → Prop
  | row {r r' : Row} : r.Agree φ x x' r' → Agree φ x x' (.row r) (.row r')
  | typed {v v' : Value} (ty : StaticType) :
      ObjectRef.Agree φ x x' (.value v) (.value v') → Agree φ x x' (.typed v ty) (.typed v' ty)
  | intern (ty : StaticType) : Agree φ x x' (.intern ty) (.intern ty)
  | ifPointer (ty : StaticType) {rows rows' : List Row} :
      List.Forall₂ (Row.Agree φ x x') rows rows' →
      Agree φ x x' (.ifPointer ty rows) (.ifPointer ty rows')
  | need {o o' : ObjectRef} : o.Agree φ x x' o' → Agree φ x x' (.need o) (.need o')
  | remark (r r' : Remark) : Agree φ x x' (.remark r) (.remark r')
  | visited (c c' : ConstId) : Agree φ x x' (.visited c) (.visited c')

/-- The emissions have the same types and answers, and facts that correspond; and the types
are as `K` says. -/
structure Emission.Mapped (φ : ObjectId → ObjectId) (K : TypeTable → Prop) (e e' : Emission) :
    Prop where
  types : e'.types = e.types
  memo : e'.memo = e.memo
  entries : e'.entries.toList = e.entries.toList.map (Entry.mapId φ)
  known : K e.types

namespace Emit

open Emission

variable {K K' : TypeTable → Prop} {store : FactStore}

/-- From emissions that correspond, with types as `K` says, the computations succeed
together, with results as `Q` says and types as `K'` says, or fail together; the emissions
still correspond. -/
def Agrees {α β : Type} (φ : ObjectId → ObjectId) (K K' : TypeTable → Prop) (Q : α → β → Prop)
    (c : Emit α) (c' : Emit β) : Prop :=
  Together (Mapped φ K) c c' (fun a e b e' => Q a b ∧ e.Mapped φ K' e')
    fun _ e _ e' => True ∧ e.Mapped φ (fun _ => True) e'

theorem agrees_row {r r' : Row} (h : r.Agree φ x x' r') :
    Agrees φ K K (fun _ _ => True) (row ⟨x, store⟩ r) (row ⟨x', store⟩ r') := by
  intro e e' he
  have haccept := h.accept store e.types
  rw [exec_row, exec_row, he.types]
  generalize r.accept ⟨x, store⟩ e.types = y, r'.accept ⟨x', store⟩ e.types = y' at haccept
  cases haccept with
  | error _ => exact ⟨trivial, he.types, he.memo, he.entries, trivial⟩
  | ok hfact =>
    subst hfact
    refine ⟨trivial, he.types, he.memo, ?_, he.known⟩
    simp [append, he.entries, Entry.mapId, h.relation]

theorem agrees_rows {rows rows' : List Row} (h : List.Forall₂ (Row.Agree φ x x') rows rows') :
    Agrees φ K K (fun _ _ => True) (Emit.rows ⟨x, store⟩ rows) (Emit.rows ⟨x', store⟩ rows') := by
  induction h with
  | nil => exact together_pure fun _ _ he => ⟨trivial, he⟩
  | cons hr _ ih =>
    exact (agrees_row hr).bind fun _ _ => ih.mono (fun _ _ he => he.2) fun _ _ _ _ he => he

theorem agrees_staticType {ty : StaticType} (hK : ∀ types, K types → K' (types.resolve ty).2) :
    Agrees φ K K' Eq (staticType ty) (staticType ty) := by
  rintro ⟨types, memo, visited, entries, log⟩ ⟨_, _, visited', entries', log'⟩
    ⟨rfl, rfl, hentries, hknown⟩
  exact ⟨rfl, rfl, rfl, hentries, hK _ hknown⟩

theorem agrees_holdsPointer (id : TypeId) :
    Agrees φ K K Eq (holdsPointer id) (holdsPointer id) := by
  rintro ⟨types, memo, visited, entries, log⟩ ⟨_, _, visited', entries', log'⟩
    ⟨rfl, rfl, hentries, hknown⟩
  exact ⟨rfl, rfl, rfl, hentries, hknown⟩

/-- Rows that are appended if a type holds a pointer. -/
theorem agrees_guarded (id : TypeId) {c c' : Emit Unit}
    (h : Agrees φ K K (fun _ _ => True) c c') :
    Agrees φ K K (fun _ _ => True) (do if ← holdsPointer id then c)
      (do if ← holdsPointer id then c') := by
  refine (agrees_holdsPointer id).bind fun pointer pointer' => ?_
  rintro e e' ⟨rfl, he⟩
  cases pointer with
  | false => exact ⟨trivial, he⟩
  | true => exact h e e' he

theorem agrees_typed {v v' : Value} {ty : StaticType}
    (hK : ∀ types, K types → K' (types.resolve ty).2)
    (hv : ObjectRef.Agree φ x x' (.value v) (.value v')) :
    Agrees φ K K' (fun _ _ => True) ((Step.typed v ty).run ⟨x, store⟩)
      ((Step.typed v' ty).run ⟨x', store⟩) := by
  refine (agrees_staticType hK).bind fun id id' => ?_
  rintro e e' ⟨rfl, he⟩
  have hrow : Agrees φ K' K' (fun _ _ => True)
      (row ⟨x, store⟩ ⟨.valueType, [v, .typeText id]⟩)
      (row ⟨x', store⟩ ⟨.valueType, [v', .typeText id]⟩) :=
    agrees_row ⟨rfl, .cons (.object hv) (.cons (.typeText id) .nil)⟩
  refine hrow.bind (fun _ _ => ?_) e e' he
  refine (agrees_guarded id (agrees_row ?_)).mono (fun _ _ he => he.2) fun _ _ _ _ he => he
  exact ⟨rfl, .cons (.object hv) .nil⟩

theorem agrees_run (hK : ∀ types ty, K types → K (types.resolve ty).2) {st st' : Step}
    (h : st.Agree φ x x' st') :
    Agrees φ K K (fun _ _ => True) (st.run ⟨x, store⟩) (st'.run ⟨x', store⟩) := by
  cases h with
  | row hr => exact agrees_row hr
  | typed ty hv => exact agrees_typed (fun types => hK types ty) hv
  | intern ty =>
    exact (agrees_staticType fun types => hK types ty).bind fun _ _ =>
      together_pure fun _ _ he => ⟨trivial, he.2⟩
  | ifPointer ty hrows =>
    refine (agrees_staticType fun types => hK types ty).bind fun id id' => ?_
    rintro e e' ⟨rfl, he⟩
    exact agrees_guarded id (agrees_rows hrows) e e' he
  | @need o o' ho =>
    refine Together.bind (Q := fun _ e _ e' => e.Mapped φ K e') ?_ fun _ _ =>
      together_pure fun _ _ he => ⟨trivial, he⟩
    intro e e' he
    unfold ObjectRef.Agree at ho
    rw [exec_lift, exec_lift]
    generalize o.resolve x = y, o'.resolve x' = y' at ho
    cases ho with
    | ok _ => exact he
    | error _ => exact ⟨trivial, he.types, he.memo, he.entries, trivial⟩
  | remark r r' =>
    intro e e' he
    exact ⟨trivial, he.types, he.memo, he.entries, he.known⟩
  | visited c c' =>
    intro e e' he
    exact ⟨trivial, he.types, he.memo, he.entries, he.known⟩

/-- Two lists of steps, carried out, agree. -/
def StepsAgree (φ : ObjectId → ObjectId) (x x' : ObjectTable Value) (store : FactStore)
    (K K' : TypeTable → Prop) (steps steps' : List Step) : Prop :=
  Agrees φ K K' (fun _ _ => True) (Emit.steps ⟨x, store⟩ steps) (Emit.steps ⟨x', store⟩ steps')

theorem StepsAgree.append {K'' : TypeTable → Prop} {steps steps' rest rest' : List Step}
    (h : StepsAgree φ x x' store K K' steps steps')
    (hrest : StepsAgree φ x x' store K' K'' rest rest') :
    StepsAgree φ x x' store K K'' (steps ++ rest) (steps' ++ rest') :=
  Together.append h (hrest.mono (fun _ _ he => he.2) fun _ _ _ _ he => he)

theorem StepsAgree.weaken {steps steps' : List Step}
    (h : StepsAgree φ x x' store K K' steps steps') :
    StepsAgree φ x x' store K (fun _ => True) steps steps' :=
  h.mono (fun _ _ he => he) fun _ _ _ _ he =>
    ⟨trivial, he.2.types, he.2.memo, he.2.entries, trivial⟩

theorem stepsAgree_of_forall₂ (store : FactStore)
    (hK : ∀ types ty, K types → K (types.resolve ty).2)
    {steps steps' : List Step} (h : List.Forall₂ (Step.Agree φ x x') steps steps') :
    StepsAgree φ x x' store K K steps steps' := by
  induction h with
  | nil => exact fun e e' he => ⟨trivial, he⟩
  | cons hst _ ih =>
    exact (agrees_run hK hst).bind fun _ _ => ih.mono (fun _ _ he => he.2) fun _ _ _ _ he => he

end Emit

/-- If the plans of two extractors agree, a run of one appends what a run of the other does,
up to the map on ids, and succeeds in the same cases. -/
theorem Extractor.run_of_stepsAgree {x y : Extractor} (hmemo : y.memo = x.memo)
    {store : FactStore} (h : Emit.StepsAgree φ x.objects y.objects store (fun _ => True)
      (fun _ => True) (x.setup.plan x.matched) (y.setup.plan y.matched)) (types : TypeTable) :
    (y.run types store).entries.toList =
        (x.run types store).entries.toList.map (Entry.mapId φ) ∧
      ((y.run types store).outcome = .ok () ↔ (x.run types store).outcome = .ok ()) := by
  have hstart : (⟨types, x.memo, [], #[], #[]⟩ : Emission).Mapped φ (fun _ => True)
      ⟨types, y.memo, [], #[], #[]⟩ := ⟨rfl, hmemo, rfl, trivial⟩
  obtain ⟨houtcomes, log, log', hmapped⟩ := outcomes_of_together
    (h.mono (fun _ _ he => he) fun _ _ _ _ he => he.2) hstart
  refine ⟨hmapped.entries, ?_⟩
  generalize (x.run types store).outcome = out, (y.run types store).outcome = out' at houtcomes
  cases houtcomes with
  | ok _ => exact iff_of_true rfl rfl
  | error _ => exact iff_of_false (by simp) (by simp)

/-- If the plans agree and ids stay as they are, the same facts are appended. -/
theorem Extractor.generate_of_stepsAgree {x y : Extractor} (hmemo : y.memo = x.memo)
    {store : FactStore} (h : Emit.StepsAgree id x.objects y.objects store (fun _ => True)
      (fun _ => True) (x.setup.plan x.matched) (y.setup.plan y.matched)) (types : TypeTable) :
    (y.generate types store).store = (x.generate types store).store ∧
      ((y.generate types store).outcome = .ok () ↔ (x.generate types store).outcome = .ok ()) := by
  obtain ⟨hmapped, houtcome⟩ := run_of_stepsAgree hmemo h types
  have hentries : (y.run types store).entries = (x.run types store).entries := by
    rwa [Entry.mapId_id, List.map_id, Array.toList_inj] at hmapped
  refine ⟨?_, houtcome⟩
  rw [store_generate, store_generate, appends, appends, hentries]

namespace Emit

open Emission

variable {K K' : TypeTable → Prop} {store : FactStore}

/-! ## Types that enter ahead -/

/-- The table has the type of pointers. -/
def HasPointer (types : TypeTable) : Prop := .ptr ∈ types.types

theorem hasPointer_resolve (types : TypeTable) (ty : StaticType) (h : HasPointer types) :
    HasPointer (types.resolve ty).2 :=
  (types.extends_resolve ty).subset h

/-- A function is said to be a pointer before anything else about it that has a type. -/
theorem stepsAgree_typed_pointer {v v' : Value}
    (hv : ObjectRef.Agree φ x x' (.value v) (.value v')) :
    StepsAgree φ x x' store K HasPointer [.typed v .pointer] [.typed v' .pointer] := by
  have htyped : Agrees φ K HasPointer (fun _ _ => True)
      ((Step.typed v .pointer).run ⟨x, store⟩) ((Step.typed v' .pointer).run ⟨x', store⟩) :=
    agrees_typed (fun types _ => List.mem_of_getElem? (types.get?_intern .ptr)) hv
  exact htyped.bind fun _ _ => together_pure fun _ _ he => he

theorem intern_of_mem {types : TypeTable} {ty : Ty} (h : ty ∈ types.types) :
    (types.intern ty).2 = types := by
  obtain ⟨id, hid⟩ := Option.ne_none_iff_exists'.1 fun hnone =>
    TypeTable.find?_eq_none_iff.1 hnone h
  rw [TypeTable.intern_of_find? hid]

/-- Of the types that enter, only bits can be new. -/
theorem exec_interns (t : Emission.Target) (l : List StaticType) {e : Emission}
    (h : HasPointer e.types) :
    ∃ log, exec (Emit.steps t (l.map .intern)) e =
      (.ok (), { e with
        types := if .bit ∈ l then (e.types.resolve .bit).2 else e.types
        log }) := by
  induction l generalizing e with
  | nil => exact ⟨e.log, rfl⟩
  | cons ty rest ih =>
    obtain ⟨log, hrest⟩ := ih (e := { e with
      types := (e.types.resolve ty).2
      log := e.log ++ e.types.resolveNotices ty }) (hasPointer_resolve _ ty h)
    have hcons : exec (Emit.steps t ((ty :: rest).map .intern)) e =
        exec (Emit.steps t (rest.map .intern)) { e with
          types := (e.types.resolve ty).2
          log := e.log ++ e.types.resolveNotices ty } := rfl
    refine ⟨log, ?_⟩
    rw [hcons, hrest]
    cases ty with
    | named id => simp [TypeTable.resolve]
    | pointer => simp [TypeTable.resolve, intern_of_mem h]
    | bit =>
      have hbit := intern_of_mem (List.mem_of_getElem? (e.types.get?_intern (.int .i1)))
      simp [TypeTable.resolve, hbit]

/-- Types may enter in another order once pointers are there. -/
theorem stepsAgree_interns {l l' : List StaticType} (h : .bit ∈ l ↔ .bit ∈ l') :
    StepsAgree φ x x' store HasPointer HasPointer (l.map .intern) (l'.map .intern) := by
  intro e e' he
  have hknown : HasPointer e'.types := he.types ▸ he.known
  obtain ⟨log, hl⟩ := exec_interns ⟨x, store⟩ l he.known
  obtain ⟨log', hl'⟩ := exec_interns ⟨x', store⟩ l' hknown
  rw [hl, hl']
  refine ⟨trivial, ?_, he.memo, he.entries, ?_⟩
  · simp only [h, he.types]
  · simp only
    split
    · exact hasPointer_resolve _ .bit he.known
    · exact he.known

end Emit

/-! ## Walks that agree -/

namespace Tour

variable {A B C : List Step → List Step → Prop} {t t' u u' : Tour (List Step)}
  {μ : List Mark → List Mark}

/-- The second computation walks to the constants that `μ` gives for those of the first, and
the steps are as `A` says. -/
def Along (μ : List Mark → List Mark) (A : List Step → List Step → Prop)
    (t t' : Tour (List Step)) : Prop :=
  ∀ marks, (t'.run (μ marks)).2 = μ (t.run marks).2 ∧ A (t.run marks).1 (t'.run (μ marks)).1

theorem along_pure {l l' : List Step} (h : A l l') : Along μ A (pure l) (pure l') :=
  fun _ => ⟨rfl, h⟩

theorem Along.map {g g' : List Step → List Step} (hB : ∀ l l', A l l' → B (g l) (g' l'))
    (h : Along μ A t t') : Along μ B (do let a ← t; return g a) (do let a ← t'; return g' a) :=
  fun marks => ⟨(h marks).1, hB _ _ (h marks).2⟩

theorem Along.map₂ {g g' : List Step → List Step → List Step}
    (hC : ∀ l l' k k', A l l' → B k k' → C (g l k) (g' l' k')) (h : Along μ A t t')
    (h' : Along μ B u u') :
    Along μ C (do let a ← t; let b ← u; return g a b)
      (do let a ← t'; let b ← u'; return g' a b) := by
  intro marks
  have hrun (t u : Tour (List Step)) (g : List Step → List Step → List Step)
      (marks : List Mark) :
      (do let a ← t; let b ← u; return g a b : Tour (List Step)).run marks =
        (g (t.run marks).1 (u.run (t.run marks).2).1, (u.run (t.run marks).2).2) := rfl
  obtain ⟨hmarks, hsteps⟩ := h marks
  obtain ⟨hmarks', hsteps'⟩ := h' (t.run marks).2
  rw [hrun, hrun, hmarks]
  exact ⟨hmarks', hC _ _ _ _ hsteps hsteps'⟩

theorem Along.collect {α β : Type} (hnil : A [] [])
    (hA : ∀ l l' k k', A l l' → A k k' → A (l ++ k) (l' ++ k')) {l : List α} {l' : List β}
    {t : α → Tour (List Step)} {t' : β → Tour (List Step)}
    (h : List.Forall₂ (fun a b => Along μ A (t a) (t' b)) l l') :
    Along μ A (collect l t) (collect l' t') := by
  induction h with
  | nil => exact along_pure hnil
  | @cons a b l l' hab _ ih =>
    have hcons {γ : Type} (c : γ) (l : List γ) (t : γ → Tour (List Step)) :
        Tour.collect (c :: l) t = (do let x ← t c; let y ← Tour.collect l t; return x ++ y) := by
      simp [Tour.collect]
    rw [hcons, hcons]
    exact hab.map₂ hA ih

/-- Both computations walk to the same constants, and give steps as `A` says. -/
def Agree (A : List Step → List Step → Prop) (t t' : Tour (List Step)) : Prop :=
  ∀ marks, (t'.run marks).2 = (t.run marks).2 ∧ A (t.run marks).1 (t'.run marks).1

theorem agree_pure {l l' : List Step} (h : A l l') : Agree A (pure l) (pure l') :=
  along_pure (μ := id) h

theorem Agree.map {g g' : List Step → List Step} (hB : ∀ l l', A l l' → B (g l) (g' l'))
    (h : Agree A t t') : Agree B (do let a ← t; return g a) (do let a ← t'; return g' a) :=
  Along.map (μ := id) hB h

theorem Agree.map₂ {g g' : List Step → List Step → List Step}
    (hC : ∀ l l' k k', A l l' → B k k' → C (g l k) (g' l' k')) (h : Agree A t t')
    (h' : Agree B u u') :
    Agree C (do let a ← t; let b ← u; return g a b)
      (do let a ← t'; let b ← u'; return g' a b) :=
  Along.map₂ (μ := id) hC h h'

theorem Agree.collect {α β : Type} (hnil : A [] [])
    (hA : ∀ l l' k k', A l l' → A k k' → A (l ++ k) (l' ++ k')) {l : List α} {l' : List β}
    {t : α → Tour (List Step)} {t' : β → Tour (List Step)}
    (h : List.Forall₂ (fun a b => Agree A (t a) (t' b)) l l') :
    Agree A (collect l t) (collect l' t') :=
  Along.collect (μ := id) hnil hA h

end Tour

end PointsTo
