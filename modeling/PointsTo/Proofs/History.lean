import Mathlib
import PointsTo.Proofs.Correspondence
import PointsTo.Proofs.KnownTypes
import PointsTo.Proofs.Schemas
import PointsTo.Proofs.TypeTables

/-!
# Descriptions do not depend on history

Describing a module changes the extractor, which remembers answers about pointers, and the
type table, which gets the types that results imply. Neither shows in a later description.
The table grows at its end only, the answers stay right, and the types that the module
names keep their texts; where a pointer or a bit has entered the table makes no difference.
-/

namespace PointsTo

/-- A row depends on a table only by what its cells become. -/
theorem Row.accept_congr {t : Emission.Target} {types types' : TypeTable} {r r' : Row}
    (hrelation : r.relation = r'.relation)
    (hcells : r.cells.map (Cell.resolve t.objects types) =
      r'.cells.map (Cell.resolve t.objects types')) :
    r.accept t types = r'.accept t types' := by
  have hresolve : r.resolve t.objects types = r'.resolve t.objects types' := by
    have h := congrArg (List.mapM (m := Except ExtractError) id) hcells
    rwa [List.mapM_map, List.mapM_map] at h
  rw [accept, accept, hresolve, hrelation]

/-- Two types, each of a table of its own, that a description cannot tell apart. -/
structure TypeTable.SameType (t : TypeTable) (id : TypeId) (t' : TypeTable) (id' : TypeId) :
    Prop where
  left : id.index < t.size
  right : id'.index < t'.size
  text : t.text id = t'.text id'
  holds : t.Holds id ↔ t'.Holds id'

theorem TypeTable.sameType_of_get? {t t' : TypeTable} {id id' : TypeId} {ty : Ty}
    (h : t.get? id = some ty) (h' : t'.get? id' = some ty) (hty : ty.children = []) :
    t.SameType id t' id' where
  left := lt_size_of_get? h
  right := lt_size_of_get? h'
  text := by rw [text_of_get? h hty unknownText, text_of_get? h' hty unknownText]
  holds := by simp [holds_iff_of_get? h, holds_iff_of_get? h', hty]

namespace Emission

variable {base : TypeTable} {ids : List TypeId} {e e' : Emission}

/-- The emission goes on from a table: types were added at its end, and what is remembered
of them is right. -/
structure Over (base : TypeTable) (e : Emission) : Prop where
  grounded : e.types.Grounded
  extends_base : e.types.Extends base
  sound : e.memo.Sound e.types

theorem Over.resolve (h : e.Over base) (ty : StaticType) (log : Array Notice) :
    ({ e with types := (e.types.resolve ty).2, log } : Emission).Over base where
  grounded := h.grounded.resolve ty
  extends_base := (e.types.extends_resolve ty).trans h.extends_base
  sound := h.sound.of_extends h.grounded (e.types.extends_resolve ty)

/-- Wherever emissions have come to, what they resolve a static type to is the same. -/
theorem Over.sameType (h : e.Over base) (h' : e'.Over base) (hbase : base.Grounded)
    (hids : ∀ id ∈ ids, id.index < base.size) {ty : StaticType} (hty : ty.Among ids) :
    (e.types.resolve ty).2.SameType (e.types.resolve ty).1
      (e'.types.resolve ty).2 (e'.types.resolve ty).1 := by
  cases ty with
  | named id =>
    have hid := hids id hty
    have hsize := h.extends_base.size_le
    have hsize' := h'.extends_base.size_le
    exact
      { left := Nat.lt_of_lt_of_le hid hsize
        right := Nat.lt_of_lt_of_le hid hsize'
        text := (hbase.text_eq h.extends_base hid).trans (hbase.text_eq h'.extends_base hid).symm
        holds :=
          (hbase.holds_iff h.extends_base hid).trans (hbase.holds_iff h'.extends_base hid).symm }
  | pointer =>
    exact TypeTable.sameType_of_get? (e.types.get?_intern _) (e'.types.get?_intern _) rfl
  | bit => exact TypeTable.sameType_of_get? (e.types.get?_intern _) (e'.types.get?_intern _) rfl

/-- Two emissions that go on from one table and have appended the same facts. -/
structure Alike (base : TypeTable) (e e' : Emission) : Prop where
  entries : e.entries = e'.entries
  left : e.Over base
  right : e'.Over base

/-- The emissions fail for the same reason. -/
def FailAlike (base : TypeTable) (err : ExtractError) (e : Emission) (err' : ExtractError)
    (e' : Emission) : Prop := err = err' ∧ e.Alike base e'

end Emission

namespace Emit

open Emission

variable {base : TypeTable} {ids : List TypeId} {t : Emission.Target}

theorem together_staticType (hbase : base.Grounded) (hids : ∀ id ∈ ids, id.index < base.size)
    {ty : StaticType} (hty : ty.Among ids) :
    Together (Alike base) (staticType ty) (staticType ty)
      (fun id e id' e' => e.Alike base e' ∧ e.types.SameType id e'.types id')
      (FailAlike base) := by
  intro e e' h
  exact ⟨⟨h.entries, h.left.resolve ty _, h.right.resolve ty _⟩,
    h.left.sameType h.right hbase hids hty⟩

theorem together_holdsPointer (id id' : TypeId) :
    Together (fun e e' => e.Alike base e' ∧ e.types.SameType id e'.types id')
      (holdsPointer id) (holdsPointer id') (fun a e b e' => a = b ∧ e.Alike base e')
      (FailAlike base) := by
  intro e e' h
  obtain ⟨halike, hsame⟩ := h
  obtain ⟨hanswer, hsound⟩ := halike.left.sound.ask halike.left.grounded hsame.left
  obtain ⟨hanswer', hsound'⟩ := halike.right.sound.ask halike.right.grounded hsame.right
  have heq : (e.memo.ask e.types id).1 = (e'.memo.ask e'.types id').1 := by
    rw [Bool.eq_iff_iff, hanswer, hanswer', hsame.holds]
  exact ⟨heq, halike.entries, ⟨halike.left.grounded, halike.left.extends_base, hsound⟩,
    ⟨halike.right.grounded, halike.right.extends_base, hsound'⟩⟩

/-- Rows that become the same facts go together, and leave the types as they are. -/
theorem together_row {K : TypeTable → TypeTable → Prop} {r q : Row}
    (hrelation : r.relation = q.relation)
    (haccept : ∀ e e' : Emission, e.Alike base e' → K e.types e'.types →
      r.accept t e.types = q.accept t e'.types) :
    Together (fun e e' => e.Alike base e' ∧ K e.types e'.types) (row t r) (row t q)
      (fun _ e _ e' => e.Alike base e' ∧ K e.types e'.types) (FailAlike base) := by
  intro e e' h
  obtain ⟨halike, hK⟩ := h
  rw [exec_row, exec_row, ← haccept e e' halike hK]
  cases r.accept t e.types with
  | error err => exact ⟨rfl, halike⟩
  | ok fact =>
    have hentries : (e.append ⟨r.relation, fact⟩).entries =
        (e'.append ⟨q.relation, fact⟩).entries := by
      rw [append, append, halike.entries, hrelation]
    exact ⟨⟨hentries, ⟨halike.left.grounded, halike.left.extends_base, halike.left.sound⟩,
      ⟨halike.right.grounded, halike.right.extends_base, halike.right.sound⟩⟩, hK⟩

/-- A row that names types of the base becomes the same fact. -/
theorem together_row_among (hbase : base.Grounded) (hids : ∀ id ∈ ids, id.index < base.size)
    {r : Row} (hr : r.Among ids) :
    Together (Alike base) (row t r) (row t r) (fun _ e _ e' => e.Alike base e')
      (FailAlike base) := by
  have haccept (e e' : Emission) (h : e.Alike base e') :
      r.accept t e.types = r.accept t e'.types := by
    apply Row.accept_congr rfl
    apply List.map_congr_left
    intro cell hcell
    cases cell with
    | typeText id =>
      have hid := hids id (hr id hcell)
      rw [Cell.resolve, Cell.resolve, hbase.text_eq h.left.extends_base hid,
        hbase.text_eq h.right.extends_base hid]
    | _ => rfl
  have hrow : Together (fun e e' => e.Alike base e' ∧ True) (row t r) (row t r)
      (fun _ e _ e' => e.Alike base e' ∧ True) (FailAlike base) :=
    together_row (K := fun _ _ => True) rfl fun e e' h _ => haccept e e' h
  exact hrow.mono (fun _ _ h => ⟨h, trivial⟩) fun _ _ _ _ h => h.1

theorem together_rows_among (hbase : base.Grounded) (hids : ∀ id ∈ ids, id.index < base.size)
    {rs : List Row} (h : ∀ r ∈ rs, r.Among ids) :
    Together (Alike base) (rows t rs) (rows t rs) (fun _ e _ e' => e.Alike base e')
      (FailAlike base) := by
  induction rs with
  | nil => exact together_pure fun _ _ h => h
  | cons r rest ih =>
    rw [List.forall_mem_cons] at h
    exact (together_row_among hbase hids h.1).bind fun _ _ => ih h.2

end Emit

open Emission in
/-- A step does the same to emissions that are alike. -/
theorem Step.together_run {base : TypeTable} {ids : List TypeId} {t : Emission.Target}
    (hbase : base.Grounded) (hids : ∀ id ∈ ids, id.index < base.size) {st : Step}
    (h : st.Among ids) :
    Emit.Together (Alike base) (st.run t) (st.run t) (fun _ e _ e' => e.Alike base e')
      (FailAlike base) := by
  cases st with
  | row r => exact Emit.together_row_among hbase hids h
  | typed v ty =>
    refine (Emit.together_staticType hbase hids h).bind fun id id' => ?_
    refine (Emit.together_row (K := fun types types' => types.SameType id types' id')
      (r := ⟨.valueType, [v, .typeText id]⟩) (q := ⟨.valueType, [v, .typeText id']⟩) rfl
      ?_).bind fun _ _ => ?_
    · intro e e' _ hsame
      refine Row.accept_congr ?_ ?_
      · rfl
      · simp [Cell.resolve, hsame.text]
    · refine (Emit.together_holdsPointer id id').bind fun pointer pointer' => ?_
      intro e e' hpointer
      obtain ⟨rfl, halike⟩ := hpointer
      cases pointer with
      | false => exact halike
      | true =>
        exact Emit.together_row_among hbase hids (r := ⟨.pointerValue, [v]⟩) (by simp [Row.Among])
          e e' halike
  | intern ty =>
    exact (Emit.together_staticType hbase hids h).bind fun _ _ =>
      Emit.together_pure fun _ _ h => h.1
  | ifPointer ty rs =>
    refine (Emit.together_staticType hbase hids h.1).bind fun id id' => ?_
    refine (Emit.together_holdsPointer id id').bind fun pointer pointer' => ?_
    intro e e' hpointer
    obtain ⟨rfl, halike⟩ := hpointer
    cases pointer with
    | false => exact halike
    | true => exact Emit.together_rows_among hbase hids h.2 e e' halike
  | need o =>
    refine Emit.Together.bind (Q := fun _ e _ e' => e.Alike base e') ?_ fun _ _ =>
      Emit.together_pure fun _ _ h => h
    intro e e' halike
    rw [Emit.exec_lift, Emit.exec_lift]
    cases o.resolve t.objects with
    | error err => exact ⟨rfl, halike⟩
    | ok id => exact halike
  | remark r =>
    intro e e' h
    exact ⟨h.entries, ⟨h.left.grounded, h.left.extends_base, h.left.sound⟩,
      ⟨h.right.grounded, h.right.extends_base, h.right.sound⟩⟩
  | visited c =>
    intro e e' h
    exact ⟨h.entries, ⟨h.left.grounded, h.left.extends_base, h.left.sound⟩,
      ⟨h.right.grounded, h.right.extends_base, h.right.sound⟩⟩
  | acts choose => exact h.elim

open Emission in
theorem Emit.together_steps {base : TypeTable} {ids : List TypeId} {t : Emission.Target}
    (hbase : base.Grounded) (hids : ∀ id ∈ ids, id.index < base.size) {steps : List Step}
    (h : ∀ st ∈ steps, st.Among ids) :
    Emit.Together (Alike base) (Emit.steps t steps) (Emit.steps t steps)
      (fun _ e _ e' => e.Alike base e') (FailAlike base) := by
  induction steps with
  | nil => exact Emit.together_pure fun _ _ h => h
  | cons st rest ih =>
    rw [List.forall_mem_cons] at h
    exact (Step.together_run hbase hids h.1).bind fun _ _ => ih h.2

namespace Extractor

variable {x : Extractor} {types types' types'' : TypeTable} {s : Setup}

/-- Descriptions have the same outcome and append the same facts, whatever the extractor
remembers and however the table has grown; and what they leave behind is of that kind too. -/
theorem run_eq_of_over {memo memo' : PointerMemo} (visited visited' : List ConstId)
    (hb : x.setup.models.Bundled) (hbase : types.Grounded)
    (hids : ∀ id ∈ x.setup.unit.typeIds, id.index < types.size)
    (h : (⟨types', memo, [], #[], #[]⟩ : Emission).Over types)
    (h' : (⟨types'', memo', [], #[], #[]⟩ : Emission).Over types) (store : FactStore) :
    ({ x with memo, visited }.run types' store).outcome =
        ({ x with memo := memo', visited := visited' }.run types'' store).outcome ∧
      ({ x with memo, visited }.run types' store).entries =
        ({ x with memo := memo', visited := visited' }.run types'' store).entries ∧
      (⟨({ x with memo, visited }.run types' store).types,
        ({ x with memo, visited }.run types' store).memo, [], #[], #[]⟩ : Emission).Over types := by
  have hplan : ∀ st ∈ x.setup.plan x.matched, st.Among x.setup.unit.typeIds :=
    Setup.among_plan hb
  have hsteps := Emit.together_steps (t := ⟨x.objects, store⟩) hbase hids hplan
  obtain ⟨houtcomes, log, log', halike⟩ := outcomes_of_together (x := { x with memo, visited })
    (y := { x with memo := memo', visited := visited' }) (E := Eq) hsteps ⟨rfl, h, h'⟩
  refine ⟨?_, halike.entries, halike.left.grounded, halike.left.extends_base, halike.left.sound⟩
  generalize ({ x with memo, visited }.run types' store).outcome = out,
    ({ x with memo := memo', visited := visited' }.run types'' store).outcome = out' at houtcomes
  cases houtcomes with
  | ok _ => rfl
  | error herr => rw [herr]

/-- The extractor and the table after descriptions into some stores, one after the other. -/
def replay (x : Extractor) (types : TypeTable) (history : List FactStore) :
    Extractor × TypeTable :=
  history.foldl
    (fun p store => ((p.1.generate p.2 store).extractor, (p.1.generate p.2 store).types))
    (x, types)

/-- After any descriptions the table has grown and the answers are right. -/
theorem exists_replay_eq (hb : x.setup.models.Bundled) (hbase : types.Grounded)
    (hids : ∀ id ∈ x.setup.unit.typeIds, id.index < types.size)
    (hx : x.memo.Sound types) (history : List FactStore) :
    ∃ memo visited types', x.replay types history = ({ x with memo, visited }, types') ∧
      (⟨types', memo, [], #[], #[]⟩ : Emission).Over types := by
  induction history using List.reverseRecOn with
  | nil => exact ⟨x.memo, x.visited, types, rfl, hbase, .refl types, hx⟩
  | append_singleton history store ih =>
    obtain ⟨memo, visited, types', hreplay, hover⟩ := ih
    obtain ⟨-, -, hnext⟩ := run_eq_of_over visited visited hb hbase hids hover hover store
    refine ⟨_, ({ x with memo, visited }.run types' store).visited, _, ?_, hnext⟩
    have happend : x.replay types (history ++ [store]) =
        (((x.replay types history).1.generate (x.replay types history).2 store).extractor,
          ((x.replay types history).1.generate (x.replay types history).2 store).types) := by
      rw [replay, List.foldl_append]
      rfl
    rw [happend, hreplay]
    rfl

/-- What a description says does not depend on the descriptions before it, whatever stores
they went to and whether they failed. After them the outcome is the same as at first, and
so is the store, both for the extractor that made them and for one that made none and finds
the table that they left. -/
theorem generate_replay (hb : s.models.Bundled) (hnew : (Extractor.new s).1 = .ok x)
    (hbase : types.Grounded) (hids : ∀ id ∈ s.unit.typeIds, id.index < types.size)
    (history : List FactStore) (store : FactStore) :
    (((x.replay types history).1.generate (x.replay types history).2 store).outcome =
        (x.generate types store).outcome ∧
      ((x.replay types history).1.generate (x.replay types history).2 store).store =
        (x.generate types store).store) ∧
      (x.generate (x.replay types history).2 store).outcome = (x.generate types store).outcome ∧
      (x.generate (x.replay types history).2 store).store = (x.generate types store).store := by
  obtain ⟨-, r, -, rfl⟩ := exists_settle_of_new hnew
  have hfresh (types' : TypeTable) : PointerMemo.empty.Sound types' :=
    PointerMemo.sound_empty types'
  have hstart : (⟨types, .empty, [], #[], #[]⟩ : Emission).Over types :=
    ⟨hbase, .refl types, hfresh types⟩
  obtain ⟨memo, visited, types', hreplay, hover⟩ := exists_replay_eq
    (x := ⟨s, r.objects, r.matched, .empty, []⟩) hb hbase hids (hfresh types) history
  rw [hreplay]
  have hlater := run_eq_of_over (x := ⟨s, r.objects, r.matched, .empty, []⟩) visited [] hb hbase
    hids hover hstart store
  have hunasked : (⟨types', .empty, [], #[], #[]⟩ : Emission).Over types :=
    ⟨hover.grounded, hover.extends_base, hfresh types'⟩
  have hother := run_eq_of_over (x := ⟨s, r.objects, r.matched, .empty, []⟩) [] [] hb hbase hids
    hunasked hstart store
  refine ⟨⟨hlater.1, ?_⟩, hother.1, ?_⟩
  · rw [store_generate, store_generate, appends, appends, hlater.2.1]
  · rw [store_generate, store_generate, appends, appends, hother.2.1]

/-- The types of `allocating`, a structure with a vector of pointers among them. Pointers
and bits enter the table when they are needed. -/
def layout : TypeTable := .ofList [.vector .ptr 4, .int .i32, .struct [⟨1⟩, ⟨0⟩, ⟨1⟩]]

theorem grounded_layout : layout.Grounded := by
  intro id ty h
  have hid : id.index < 3 := TypeTable.lt_size_of_get? h
  obtain ⟨index⟩ := id
  interval_cases index <;> cases h <;> simp [Ty.children]

/-- One description fails half way, and one succeeds, before the one in question. -/
theorem layout_replay :
    allocating.models.Bundled ∧ layout.Grounded ∧
      (∀ id ∈ allocating.unit.typeIds, id.index < layout.size) ∧
      ∃ x, (Extractor.new allocating).1 = .ok x ∧
        ((x.replay layout [narrow, .new .standard]).1.generate
          (x.replay layout [narrow, .new .standard]).2 narrow).outcome =
            (x.generate layout narrow).outcome ∧
        ((x.replay layout [narrow, .new .standard]).1.generate
          (x.replay layout [narrow, .new .standard]).2 narrow).store =
            (x.generate layout narrow).store := by
  have hnew : ∃ x, (Extractor.new allocating).1 = .ok x := ⟨_, rfl⟩
  obtain ⟨x, hx⟩ := hnew
  have hids : ∀ id ∈ allocating.unit.typeIds, id.index < layout.size := by decide
  obtain ⟨⟨houtcome, hstore⟩, -⟩ := generate_replay bundled_allocating hx grounded_layout hids
    [narrow, .new .standard] narrow
  exact ⟨bundled_allocating, grounded_layout, hids, x, hx, houtcome, hstore⟩

end Extractor

end PointsTo
