import Mathlib
import PointsTo.Proofs.GuardedRows
import PointsTo.Proofs.KnownTypes

/-!
# Types along a run

A run gives values the texts of their types and asks whether the types hold pointers. If the
table knows the types that a module names, then at every point of a run the table only has more
types, and all that is remembered of pointers is right. So each value gets the text that its
type had from the beginning, and is a pointer if its type held one from the beginning.
-/

namespace PointsTo

/-! ## Static types in a table -/

namespace TypeTable

/-- The text of a static type. -/
def textOf (t : TypeTable) : StaticType → String
  | .named id => t.text id
  | .pointer => "ptr"
  | .bit => "i1"

/-- The static type holds a pointer. -/
def HoldsOf (t : TypeTable) : StaticType → Prop
  | .named id => t.Holds id
  | .pointer => True
  | .bit => False

/-- The id names in one table what the static type is in another. -/
structure Means (t : TypeTable) (id : TypeId) (base : TypeTable) (ty : StaticType) : Prop where
  known : t.Known id
  text : t.text id = base.textOf ty
  holds : t.Holds id ↔ base.HoldsOf ty

variable {t base : TypeTable} {ids : List TypeId} {ty : StaticType}

theorem means_of_get? {id : TypeId} {flat : Ty} (h : t.get? id = some flat)
    (hflat : flat.children = []) (htext : flat.text unknownText = base.textOf ty)
    (hholds : flat.isPointer = true ↔ base.HoldsOf ty) : t.Means id base ty where
  known := .intro h (by simp [hflat])
  text := (text_of_get? h hflat unknownText).trans htext
  holds := by
    rw [holds_iff_of_get? h]
    simpa [hflat] using hholds

/-- A static type that is known keeps its meaning when it is resolved in a larger table. -/
theorem means_resolve (hext : t.Extends base) (hids : ∀ id ∈ ids, base.Known id)
    (hty : ty.Among ids) : (t.resolve ty).2.Means (t.resolve ty).1 base ty := by
  cases ty with
  | named id =>
    have hid := hids id hty
    exact ⟨hid.of_extends hext, hid.text_eq hext, hid.holds_iff hext⟩
  | pointer => exact means_of_get? (t.get?_intern .ptr) rfl rfl (by simp [Ty.isPointer, HoldsOf])
  | bit =>
    exact means_of_get? (t.get?_intern (.int .i1)) rfl rfl (by simp [Ty.isPointer, HoldsOf])

end TypeTable

/-! ## Typings -/

/-- A value with its type. -/
structure Typing where
  value : Value
  ty : StaticType

/-- The values that a step gives types. -/
def Step.typings : Step → List Typing
  | .typed v ty => [⟨v, ty⟩]
  | _ => []

/-- The fact says that the value has a type with the text from a table. -/
def Typing.Becomes (objects : ObjectTable Value) (base : TypeTable) (q : Typing) (fact : Fact) :
    Prop :=
  ∃ id, objects.idOf q.value = .ok id ∧ fact = [.object id, .str (base.textOf q.ty)]

/-! ## Emissions over a table -/

/-- The emission goes on from a table: types were added at its end, and what is remembered
is about known types and right. -/
structure Emission.Upon (base : TypeTable) (e : Emission) : Prop where
  extends_base : e.types.Extends base
  settled : e.memo.Settled e.types

namespace Emit

variable {base : TypeTable} {ids : List TypeId} {t : Emission.Target} {e e₁ : Emission}

theorem upon_staticType {ty : StaticType} {id : TypeId}
    (h : exec (staticType ty) e = (.ok id, e₁)) (he : e.Upon base) : e₁.Upon base := by
  cases h
  exact ⟨(e.types.extends_resolve ty).trans he.extends_base,
    he.settled.of_extends (e.types.extends_resolve ty)⟩

theorem means_staticType {ty : StaticType} {id : TypeId}
    (h : exec (staticType ty) e = (.ok id, e₁)) (he : e.Upon base)
    (hids : ∀ id ∈ ids, base.Known id) (hty : ty.Among ids) : e₁.types.Means id base ty := by
  cases h
  exact TypeTable.means_resolve he.extends_base hids hty

theorem upon_holdsPointer {id : TypeId} {answer : Bool}
    (h : exec (holdsPointer id) e = (.ok answer, e₁)) (he : e.Upon base)
    (hid : e.types.Known id) : e₁.Upon base ∧ (answer = true ↔ e.types.Holds id) := by
  cases h
  obtain ⟨hanswer, hsettled⟩ := he.settled.ask hid
  exact ⟨⟨he.extends_base, hsettled⟩, hanswer⟩

theorem exec_holdsPointer (id : TypeId) (e : Emission) : exec (holdsPointer id) e =
    (.ok (e.memo.ask e.types id).1, { e with memo := (e.memo.ask e.types id).2 }) := rfl

/-- A row that is appended leaves types and answers as they are. -/
theorem append_of_row {r : Row} (h : exec (row t r) e = (.ok (), e₁)) :
    ∃ fact, r.accept t e.types = .ok fact ∧ e₁ = e.append ⟨r.relation, fact⟩ := by
  rw [exec_row] at h
  split at h
  next fact hfact =>
    cases h
    exact ⟨fact, hfact, rfl⟩
  next => cases h

theorem upon_row {r : Row} (h : exec (row t r) e = (.ok (), e₁)) (he : e.Upon base) :
    e₁.Upon base := by
  obtain ⟨fact, -, rfl⟩ := append_of_row h
  exact ⟨he.extends_base, he.settled⟩

theorem upon_rows {rs : List Row} (h : exec (rows t rs) e = (.ok (), e₁)) (he : e.Upon base) :
    e₁.Upon base := by
  induction rs generalizing e with
  | nil =>
    cases h
    exact he
  | cons r rest ih =>
    obtain ⟨_, a, hrow, hrest⟩ := exec_bind_eq_ok.1 h
    exact ih hrest (upon_row hrow he)

/-- What a step gives a type says of the value: its type had the text and held a pointer from
the beginning. -/
theorem typed_of_exec {v : Value} {ty : StaticType}
    (h : exec ((Step.typed v ty).run t) e = (.ok (), e₁)) (he : e.Upon base)
    (hids : ∀ id ∈ ids, base.Known id) (hty : ty.Among ids) :
    e₁.Upon base ∧ (∃ answer, e₁.answer? ty = some answer ∧ (answer = true ↔ base.HoldsOf ty)) ∧
      ∃ id new, t.objects.idOf v = .ok id ∧ e₁.entries.toList = e.entries.toList ++ new ∧
        new.filterMap (Entry.fact? "value_type") = [[.object id, .str (base.textOf ty)]] := by
  obtain ⟨tid, a, hresolve, h⟩ := exec_bind_eq_ok.1 h
  obtain ⟨_, b, hrow, h⟩ := exec_bind_eq_ok.1 h
  obtain ⟨answer, c, hask, h⟩ := exec_bind_eq_ok.1 h
  have ha := upon_staticType hresolve he
  have hmeans := means_staticType hresolve he hids hty
  have hb := upon_row hrow ha
  obtain ⟨fact, hfact, rfl⟩ := append_of_row hrow
  obtain ⟨id, hid, rfl⟩ := Row.eq_of_accept_typeText hfact
  obtain ⟨hc, hanswer⟩ := upon_holdsPointer hask hb hmeans.known
  obtain ⟨htypes, hsilent⟩ : c.types = a.types ∧ c.entries = (a.append _).entries := by
    rw [exec_holdsPointer] at hask
    cases hask
    exact ⟨rfl, rfl⟩
  have hlast : c.answer? ty = some answer := by
    rw [Emission.answer?, htypes, idOf?_of_staticType hresolve]
    exact answer?_of_holdsPointer hask
  have hentries : c.entries.toList =
      e.entries.toList ++ [⟨.valueType, [.object id, .str (base.textOf ty)]⟩] := by
    cases hresolve
    rw [hsilent, ← hmeans.text]
    simp [Emission.append]
  have hid := ObjectRef.resolve_value_eq_ok_iff.1 hid
  have hanswer : answer = true ↔ base.HoldsOf ty := hanswer.trans hmeans.holds
  cases answer with
  | false =>
    cases h
    exact ⟨hc, ⟨false, hlast, hanswer⟩, id, _, hid, hentries,
      by simp [Entry.fact?, Relation.valueType]⟩
  | true =>
    obtain ⟨fact, -, rfl⟩ := append_of_row h
    refine ⟨upon_row h hc, ⟨true, hlast, hanswer⟩, id,
      [⟨.valueType, [.object id, .str (base.textOf ty)]⟩, ⟨.pointerValue, fact⟩], hid, ?_, ?_⟩
    · simp [Emission.append, hentries]
    · simp [Entry.fact?, Relation.valueType, Relation.pointerValue]

theorem upon_of_ifPointer {ty : StaticType} {rs : List Row}
    (h : exec ((Step.ifPointer ty rs).run t) e = (.ok (), e₁)) (he : e.Upon base)
    (hids : ∀ id ∈ ids, base.Known id) (hty : ty.Among ids) : e₁.Upon base := by
  obtain ⟨id, a, hresolve, h⟩ := exec_bind_eq_ok.1 h
  obtain ⟨answer, b, hask, h⟩ := exec_bind_eq_ok.1 h
  obtain ⟨hb, -⟩ := upon_holdsPointer hask (upon_staticType hresolve he)
    (means_staticType hresolve he hids hty).known
  cases answer with
  | true => exact upon_rows h hb
  | false =>
    cases h
    exact hb

/-- A step leaves the emission over its table. -/
theorem upon_of_run {st : Step} (h : exec (st.run t) e = (.ok (), e₁)) (he : e.Upon base)
    (hids : ∀ id ∈ ids, base.Known id) (hst : st.Among ids) : e₁.Upon base := by
  cases st with
  | row r => exact upon_row h he
  | typed v ty => exact (typed_of_exec h he hids hst).1
  | intern ty =>
    obtain ⟨id, a, hresolve, h⟩ := exec_bind_eq_ok.1 h
    cases h
    exact upon_staticType hresolve he
  | ifPointer ty rs => exact upon_of_ifPointer h he hids hst.1
  | need o =>
    obtain ⟨id, a, hlift, h⟩ := exec_bind_eq_ok.1 h
    cases h
    rw [exec_lift] at hlift
    obtain rfl : e = e₁ := (Prod.mk.inj hlift).2
    exact he
  | remark r =>
    cases h
    exact ⟨he.extends_base, he.settled⟩
  | visited c =>
    cases h
    exact ⟨he.extends_base, he.settled⟩
  | acts choose => exact hst.elim

/-- What a step says of types is what it gives types. -/
theorem typings_of_run {st : Step} (h : exec (st.run t) e = (.ok (), e₁)) (he : e.Upon base)
    (hids : ∀ id ∈ ids, base.Known id) (hst : st.Among ids) (hregular : st.Regular) :
    (∀ q ∈ st.typings, ∃ answer, e₁.answer? q.ty = some answer ∧
        (answer = true ↔ base.HoldsOf q.ty)) ∧
      ∃ new, e₁.entries.toList = e.entries.toList ++ new ∧
        List.Forall₂ (Typing.Becomes t.objects base) st.typings
          (new.filterMap (Entry.fact? "value_type")) := by
  by_cases htyped : ∃ v ty, st = .typed v ty
  · obtain ⟨v, ty, rfl⟩ := htyped
    obtain ⟨-, hanswer, id, new, hid, hnew, hfacts⟩ := typed_of_exec h he hids hst
    refine ⟨List.forall_mem_singleton.2 hanswer, new, hnew, ?_⟩
    rw [hfacts]
    exact .cons ⟨id, hid, rfl⟩ .nil
  · have hnone : st.typings = [] := by
      cases st with
      | typed v ty => exact absurd ⟨v, ty, rfl⟩ htyped
      | _ => rfl
    obtain ⟨new, hnew, hentries⟩ := (advances_run t st).entries e
    rw [h] at hnew
    have hfacts : new.filterMap (Entry.fact? "value_type") = [] := by
      rw [List.filterMap_eq_nil_iff]
      intro entry hentry
      obtain ⟨r, hmay, hrelation, -⟩ := hentries entry hentry
      refine if_neg fun hname => htyped (hregular.exists_typed hmay ?_)
      rw [← hrelation, hname]
      decide
    rw [hnone]
    exact ⟨by simp, new, hnew, by rw [hfacts]; exact .nil⟩

/-- What a run says of types is what its steps give types, one after the other. By the answers
of the last state the types that hold a pointer are those that held one from the beginning. -/
theorem typings_of_steps {steps : List Step} (h : exec (Emit.steps t steps) e = (.ok (), e₁))
    (he : e.Upon base) (hids : ∀ id ∈ ids, base.Known id) (hsteps : ∀ st ∈ steps, st.Among ids)
    (hregular : ∀ st ∈ steps, st.Regular) :
    (∀ q ∈ steps.flatMap Step.typings, e₁.holds q.ty = true ↔ base.HoldsOf q.ty) ∧
      ∃ new, e₁.entries.toList = e.entries.toList ++ new ∧
        List.Forall₂ (Typing.Becomes t.objects base) (steps.flatMap Step.typings)
          (new.filterMap (Entry.fact? "value_type")) := by
  induction steps generalizing e with
  | nil =>
    cases h
    exact ⟨by simp, [], (List.append_nil _).symm, .nil⟩
  | cons st rest ih =>
    rw [List.forall_mem_cons] at hsteps hregular
    obtain ⟨_, a, hst, hrest⟩ := exec_bind_eq_ok.1 h
    obtain ⟨hanswers, new, hnew, hfacts⟩ := typings_of_run hst he hids hsteps.1 hregular.1
    obtain ⟨hholds, new', hnew', hfacts'⟩ :=
      ih hrest (upon_of_run hst he hids hsteps.1) hsteps.2 hregular.2
    have hgrows : a.Grows e₁ := (advances_steps t rest).grows_of_exec hrest
    rw [List.flatMap_cons]
    refine ⟨?_, new ++ new', by rw [hnew', hnew, List.append_assoc], ?_⟩
    · intro q hq
      rcases List.mem_append.1 hq with hq | hq
      · obtain ⟨answer, hanswer, hiff⟩ := hanswers q hq
        rw [Emission.holds, hgrows.answer? hanswer]
        exact hiff
      · exact hholds q hq
    · rw [List.filterMap_append]
      exact List.rel_append hfacts hfacts'

end Emit

namespace Extractor

variable {x : Extractor} {types : TypeTable}

/-- What a description says of types is what its plan gives types, as the table had them before
the description. -/
theorem forall₂_typings (hb : x.setup.models.Bundled) (hmemo : x.memo.Settled types)
    (hknown : ∀ id ∈ x.setup.unit.typeIds, types.Known id)
    (hok : (x.generate types (.new .standard)).outcome = .ok ()) :
    (∀ q ∈ (x.setup.plan x.matched).flatMap Step.typings,
        (x.run types (.new .standard)).state.holds q.ty = true ↔ types.HoldsOf q.ty) ∧
      List.Forall₂ (Typing.Becomes x.objects types)
        ((x.setup.plan x.matched).flatMap Step.typings)
        ((x.generate types (.new .standard)).store.relation "value_type") := by
  have hrun : (x.run types (.new .standard)).outcome = .ok () := hok
  obtain ⟨log, hexec⟩ := x.exec_steps types (.new .standard)
  rw [hrun] at hexec
  obtain ⟨hholds, new, hnew, hfacts⟩ := Emit.typings_of_steps hexec
    ⟨.refl types, hmemo⟩ hknown (Setup.among_plan hb) fun st hst => Setup.regular_of_bundled hb hst
  refine ⟨hholds, ?_⟩
  have hentries : (x.run types (.new .standard)).entries.toList = new := hnew
  rw [relation_generate, hentries]
  exact hfacts

end Extractor

end PointsTo
