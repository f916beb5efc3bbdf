import Mathlib
import PointsTo.Proofs.Answers
import PointsTo.Proofs.PlainRows

/-!
# Rows behind guards

Some rows are meant only for pointers, and a plan keeps them behind a guard. By the answers of a
state each step has some rows of a relation, and none if it avoids the relation. The facts of the
relation are those of these rows, in the order of the plan.
-/

namespace PointsTo

theorem flatMap_ite_singleton {α β : Type} (l : List α) (p : α → Bool) (f : α → β) :
    (l.flatMap fun a => if p a then [f a] else []) = (l.filter p).map f := by
  induction l with
  | nil => rfl
  | cons a l ih =>
    rw [List.flatMap_cons, List.filter_cons, ih]
    split <;> rfl

/-! ## The rows of a step -/

namespace Step

variable {e : Emission} {name : String} {st : Step} {steps : List Step} {r : Row}

@[simp] theorem avoids_row : (row r).Avoids name ↔ r.relation.name ≠ name := by
  simp [Avoids]

@[simp] theorem avoids_ifPointer {ty : StaticType} {rows : List Row} :
    (ifPointer ty rows).Avoids name ↔ ∀ r ∈ rows, r.relation.name ≠ name := by
  simp [Avoids]

@[simp] theorem avoids_typed {v : Value} {ty : StaticType} : (typed v ty).Avoids name ↔
    Relation.valueType.name ≠ name ∧ Relation.pointerValue.name ≠ name := by
  constructor
  · exact fun h => ⟨h _ (.valueType v ty ⟨0⟩), h _ (.pointerValue v ty)⟩
  · rintro ⟨hvalue, hpointer⟩ r hr
    rcases may_typed_iff.1 hr with ⟨id, rfl⟩ | rfl
    · exact hvalue
    · exact hpointer

@[simp] theorem avoids_intern {ty : StaticType} : (intern ty).Avoids name := nofun
@[simp] theorem avoids_remark {n : Remark} : (remark n).Avoids name := nofun

/-- The rows of a relation that a step has, by the answers of a state. -/
def said (e : Emission) (name : String) (st : Step) : List Row :=
  (st.rowsIn e).filter (·.relation.name = name)

theorem may_of_mem_rowsIn (h : r ∈ st.rowsIn e) : st.May r := by
  cases st with
  | row r' =>
    obtain rfl := List.mem_singleton.1 h
    exact .row r
  | typed v ty =>
    rcases List.mem_cons.1 h with rfl | h
    · exact .valueType v ty _
    · split at h
      · obtain rfl := List.mem_singleton.1 h
        exact .pointerValue v ty
      · cases h
  | ifPointer ty rows =>
    simp only [rowsIn] at h
    split at h
    · exact .guarded ty h
    · cases h
  | _ => cases h

theorem may_of_mem_said (h : r ∈ st.said e name) : st.May r :=
  may_of_mem_rowsIn (List.mem_filter.1 h).1

theorem relation_of_mem_said (h : r ∈ st.said e name) : r.relation.name = name :=
  of_decide_eq_true (List.mem_filter.1 h).2

theorem Avoids.said_eq_nil (h : st.Avoids name) : st.said e name = [] := by
  rw [List.eq_nil_iff_forall_not_mem]
  exact fun r hr => h r (may_of_mem_said hr) (relation_of_mem_said hr)

theorem flatMap_said_eq_nil (h : ∀ st ∈ steps, st.Avoids name) : steps.flatMap (said e name) = [] :=
  List.flatMap_eq_nil_iff.2 fun st hst => (h st hst).said_eq_nil

/-- Rows of a relation come from steps that do not avoid it. -/
theorem not_avoids_of_mem_said (hr : r ∈ steps.flatMap (said e name)) :
    ¬ ∀ st ∈ steps, st.Avoids name := by
  intro h
  rw [flatMap_said_eq_nil h] at hr
  cases hr

end Step

/-! ## Facts -/

namespace Row

variable {t : Emission.Target} {fact : Fact} {rel : Relation}

theorem Becomes.eq_object {a : ObjectRef} (h : Row.Becomes t ⟨rel, [a]⟩ fact) :
    ∃ id, a.resolve t.objects = .ok id ∧ fact = [.object id] := by
  obtain ⟨types, haccept⟩ := h
  have hcells := forall₂_of_accept haccept
  rcases hcells with _ | ⟨ha, _ | _⟩
  obtain ⟨id, hid, rfl⟩ := Cell.resolve_object_eq_ok ha
  exact ⟨id, hid, rfl⟩

theorem eq_of_accept_typeText {types : TypeTable} {a : ObjectRef} {ty : TypeId}
    (h : Row.accept t types ⟨rel, [a, .typeText ty]⟩ = .ok fact) :
    ∃ id, a.resolve t.objects = .ok id ∧ fact = [.object id, .str (types.text ty)] := by
  have hcells := forall₂_of_accept h
  rcases hcells with _ | ⟨ha, _ | ⟨htext, _ | _⟩⟩
  obtain ⟨id, hid, rfl⟩ := Cell.resolve_object_eq_ok ha
  cases htext
  exact ⟨id, hid, rfl⟩

theorem Becomes.eq_triple {a b c : ObjectRef} (h : Row.Becomes t ⟨rel, [a, b, c]⟩ fact) :
    ∃ p q o, a.resolve t.objects = .ok p ∧ b.resolve t.objects = .ok q ∧
      c.resolve t.objects = .ok o ∧ fact = [.object p, .object q, .object o] := by
  obtain ⟨types, haccept⟩ := h
  have hcells := forall₂_of_accept haccept
  rcases hcells with _ | ⟨ha, _ | ⟨hb, _ | ⟨hc, _ | _⟩⟩⟩
  obtain ⟨p, hp, rfl⟩ := Cell.resolve_object_eq_ok ha
  obtain ⟨q, hq, rfl⟩ := Cell.resolve_object_eq_ok hb
  obtain ⟨o, ho, rfl⟩ := Cell.resolve_object_eq_ok hc
  exact ⟨p, q, o, hp, hq, ho, rfl⟩

theorem forall₂_becomes_of_gives {rows : List Row} {entries : List Entry}
    (h : List.Forall₂ (Row.Gives t) rows entries) (name : String) :
    List.Forall₂ (Row.Becomes t) (rows.filter (·.relation.name = name))
      (entries.filterMap (Entry.fact? name)) := by
  induction h with
  | nil => exact .nil
  | @cons r entry rows entries hr _ ih =>
    rw [List.filter_cons, List.filterMap_cons, Entry.fact?, hr.1]
    by_cases hname : r.relation.name = name
    · simpa [hname] using List.Forall₂.cons hr.2 ih
    · simpa [hname] using ih

end Row

namespace Extractor

variable {x : Extractor} {types : TypeTable} {id : ObjectId}

/-- The facts of a relation are those of its rows by the answers that were given. -/
theorem forall₂_said (hb : x.setup.models.Bundled)
    (hok : (x.generate types (.new .standard)).outcome = .ok ()) (name : String) :
    List.Forall₂ (Row.Becomes ⟨x.objects, .new .standard⟩)
      ((x.setup.plan x.matched).flatMap (Step.said (x.run types (.new .standard)).state name))
      ((x.generate types (.new .standard)).store.relation name) := by
  have hknown : ∀ st ∈ x.setup.plan x.matched, st.isKnown = true :=
    fun st hst => (Setup.regular_of_bundled hb hst).isKnown
  have hrows := Row.forall₂_becomes_of_gives (forall₂_rowsIn hknown hok) name
  rw [List.filter_flatMap] at hrows
  rw [relation_generate]
  exact hrows

end Extractor

end PointsTo
