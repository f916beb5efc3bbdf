import Mathlib
import PointsTo.PointerMemo

/-!
# Type tables that grow

A type is known if it is in the table together with all that it is built from, so that it does
not contain itself. The bound on unfolding is then never met: what the type says, and whether it
holds a pointer, depends only on types that are there. So neither changes when types enter the
table, and answers about pointers that were given before stay right. In a table whose types are
built from types before them every type is known.
-/

namespace PointsTo

/-- The text of a type depends on the texts of the types it is built from. -/
theorem Ty.text_congr {f g : TypeId → String} {ty : Ty} (h : ∀ c ∈ ty.children, f c = g c) :
    ty.text f = ty.text g := by
  cases ty with
  | array element length => simp [Ty.text, h element (by simp [Ty.children])]
  | struct fields =>
    have hfields : fields.map f = fields.map g := List.map_congr_left h
    rw [Ty.text, Ty.text, hfields]
  | _ => rfl

namespace TypeTable

variable {t t' : TypeTable} {id id' : TypeId} {ty : Ty}

/-- Types are built from types before them. -/
def Grounded (t : TypeTable) : Prop :=
  ∀ (id : TypeId) (ty : Ty), t.get? id = some ty → ∀ c ∈ ty.children, c.index < id.index

/-- The second table is the beginning of the first. -/
def Extends (t' t : TypeTable) : Prop := t.types <+: t'.types

theorem Extends.refl (t : TypeTable) : t.Extends t := List.prefix_rfl

theorem Extends.trans {t'' : TypeTable} (h : t''.Extends t') (h' : t'.Extends t) : t''.Extends t :=
  List.IsPrefix.trans h' h

theorem Extends.size_le (h : t'.Extends t) : t.size ≤ t'.size := h.length_le

theorem Extends.get?_of_lt (h : t'.Extends t) (hid : id.index < t.size) :
    t'.get? id = t.get? id := by
  obtain ⟨more, hmore⟩ := h
  rw [get?, ← hmore, List.getElem?_append_left hid]
  rfl

theorem lt_size_of_get? (h : t.get? id = some ty) : id.index < t.size :=
  (List.getElem?_eq_some_iff.1 h).1

theorem exists_get?_of_lt (h : id.index < t.size) : ∃ ty, t.get? id = some ty :=
  ⟨_, List.getElem?_eq_getElem h⟩

theorem extends_intern (t : TypeTable) (ty : Ty) : (t.intern ty).2.Extends t := by
  cases h : t.find? ty with
  | some id =>
    rw [intern_of_find? h]
    exact .refl t
  | none =>
    rw [intern_of_find?_none h]
    exact List.prefix_append t.types [ty]

theorem find?_eq_none_iff : t.find? ty = none ↔ ty ∉ t.types := by
  constructor
  · intro h hmem
    obtain ⟨i, hi⟩ := List.mem_iff_getElem?.1 hmem
    have hfind : t.find? ty = some ⟨i⟩ := find?_eq_some_iff.2 hi
    cases h.symm.trans hfind
  · intro h
    cases hfind : t.find? ty with
    | none => rfl
    | some id => exact absurd (List.mem_of_getElem? (find?_eq_some_iff.1 hfind)) h

theorem mem_types_intern {ty' : Ty} :
    ty' ∈ (t.intern ty).2.types ↔ ty' ∈ t.types ∨ ty' = ty := by
  cases h : t.find? ty with
  | some id =>
    have hmem : ty ∈ t.types := List.mem_of_getElem? (find?_eq_some_iff.1 h)
    rw [intern_of_find? h]
    exact (or_iff_left_of_imp fun heq => heq ▸ hmem).symm
  | none =>
    rw [intern_of_find?_none h]
    simp [push]

theorem eq_of_get? (hid : t.get? id = some ty) (hid' : t.get? id' = some ty) : id = id' :=
  Option.some.inj ((find?_eq_some_iff.2 hid).symm.trans (find?_eq_some_iff.2 hid'))

/-- The table that has the types of a list, in order. -/
def ofList (types : List Ty) : TypeTable := types.foldl (fun t ty => (t.intern ty).2) .empty

/-- No type is in a table twice. -/
theorem nodup (t : TypeTable) : t.types.Nodup := by
  rw [List.nodup_iff_getElem?_ne_getElem?]
  intro i j hij hj heq
  have hget : t.get? ⟨j⟩ = some t.types[j] := List.getElem?_eq_getElem hj
  have hget' : t.get? ⟨i⟩ = some t.types[j] := heq.trans hget
  exact hij.ne (congrArg TypeId.index (eq_of_get? hget' hget))

theorem Grounded.intern (h : t.Grounded) (hty : ∀ c ∈ ty.children, c.index < t.size) :
    (t.intern ty).2.Grounded := by
  intro id ty' hget c hc
  by_cases hid : id.index < t.size
  · rw [(t.extends_intern ty).get?_of_lt hid] at hget
    exact h id ty' hget c hc
  · cases hfind : t.find? ty with
    | some id' =>
      rw [intern_of_find? hfind] at hget
      exact absurd (lt_size_of_get? hget) hid
    | none =>
      rw [intern_of_find?_none hfind] at hget
      have hlt := lt_size_of_get? hget
      have hsize : id.index = t.types.length := by
        simp only [size, push, List.length_append, List.length_singleton] at hlt hid
        omega
      rw [get?, push, hsize, List.getElem?_concat_length, Option.some.injEq] at hget
      subst hget
      rw [hsize]
      exact hty c hc

theorem extends_resolve (t : TypeTable) (ty : StaticType) : (t.resolve ty).2.Extends t := by
  cases ty with
  | named id => exact .refl t
  | pointer => exact t.extends_intern .ptr
  | bit => exact t.extends_intern (.int .i1)

theorem Grounded.resolve (h : t.Grounded) (ty : StaticType) : (t.resolve ty).2.Grounded := by
  cases ty with
  | named id => exact h
  | pointer => exact h.intern (by simp [Ty.children])
  | bit => exact h.intern (by simp [Ty.children])

/-! ## Known types -/

/-- The type is in the table, and so are the types that it is built from, down to the last. -/
inductive Known (t : TypeTable) : TypeId → Prop
  | intro {id : TypeId} {ty : Ty} :
      t.get? id = some ty → (∀ c ∈ ty.children, t.Known c) → t.Known id

theorem Known.lt_size (h : t.Known id) : id.index < t.size := by
  cases h with
  | intro hget _ => exact lt_size_of_get? hget

theorem Known.of_extends (h : t.Known id) (hext : t'.Extends t) : t'.Known id := by
  induction h with
  | intro hget _ ih => exact .intro ((hext.get?_of_lt (lt_size_of_get? hget)).trans hget) ih

theorem Grounded.known (h : t.Grounded) (hid : id.index < t.size) : t.Known id := by
  induction hn : id.index using Nat.strong_induction_on generalizing id with
  | _ n ih =>
    obtain ⟨ty, hty⟩ := exists_get?_of_lt hid
    refine .intro hty fun c hc => ?_
    have hlt := h id ty hty c hc
    exact ih c.index (by omega) (by omega) rfl

/-- The first type is built from the second, in one step or in many. -/
def Contains (t : TypeTable) : TypeId → TypeId → Prop :=
  Relation.TransGen fun id c => ∃ ty, t.get? id = some ty ∧ c ∈ ty.children

theorem Known.not_contains_self (h : t.Known id) : ¬ t.Contains id id := by
  induction h with
  | @intro id ty hget _ ih =>
    intro hcycle
    obtain ⟨c, ⟨ty', hty', hc⟩, hback⟩ := Relation.TransGen.head'_iff.1 hcycle
    cases hget.symm.trans hty'
    exact ih c hc (.tail' hback ⟨ty, hget, hc⟩)

/-- The type can be unfolded down to the last with so many levels. -/
def UnfoldsWithin (t : TypeTable) : Nat → TypeId → Prop
  | 0, _ => False
  | depth + 1, id => ∃ ty, t.get? id = some ty ∧ ∀ c ∈ ty.children, t.UnfoldsWithin depth c

theorem UnfoldsWithin.known {depth : Nat} (h : t.UnfoldsWithin depth id) : t.Known id := by
  induction depth generalizing id with
  | zero => cases h
  | succ depth ih =>
    obtain ⟨ty, hget, hparts⟩ := h
    exact .intro hget fun c hc => ih (hparts c hc)

theorem length_le_size {ids : List TypeId} (hnodup : ids.Nodup)
    (h : ∀ id ∈ ids, id.index < t.size) : ids.length ≤ t.size := by
  have hindices : (ids.map TypeId.index).Nodup := by
    refine hnodup.map fun id id' heq => ?_
    cases id
    exact congrArg TypeId.mk heq
  have hsub : ids.map TypeId.index ⊆ List.range t.size := by
    intro i hi
    obtain ⟨id, hid, rfl⟩ := List.mem_map.1 hi
    exact List.mem_range.2 (h id hid)
  simpa using (hindices.subperm hsub).length_le

/-- On the way down to a type no other comes twice, so there are as many levels left as there
are types that were not met. -/
theorem Known.unfoldsWithin_sub (h : t.Known id) (above : List TypeId) (hnodup : above.Nodup)
    (habove : ∀ a ∈ above, a.index < t.size ∧ t.Contains a id) :
    t.UnfoldsWithin (t.size - above.length) id := by
  induction h generalizing above with
  | @intro id ty hget hchildren ih =>
    have hself : id ∉ above := fun hmem =>
      (Known.intro hget hchildren).not_contains_self (habove id hmem).2
    have hall : (id :: above).Nodup := List.nodup_cons.2 ⟨hself, hnodup⟩
    have hlength : (id :: above).length ≤ t.size :=
      length_le_size hall (List.forall_mem_cons.2
        ⟨lt_size_of_get? hget, fun a ha => (habove a ha).1⟩)
    rw [List.length_cons] at hlength
    have hdepth : t.size - above.length = t.size - (id :: above).length + 1 := by
      rw [List.length_cons]
      omega
    rw [hdepth]
    refine ⟨ty, hget, fun c hc => ih c hc (id :: above) hall (List.forall_mem_cons.2 ⟨?_, ?_⟩)⟩
    · exact ⟨lt_size_of_get? hget, .single ⟨ty, hget, hc⟩⟩
    · exact fun a ha => ⟨(habove a ha).1, (habove a ha).2.tail ⟨ty, hget, hc⟩⟩

theorem Known.unfoldsWithin (h : t.Known id) : t.UnfoldsWithin t.size id :=
  h.unfoldsWithin_sub [] .nil (by simp)

/-! ## Texts -/

/-- The depth of unfolding does not matter if it is enough, and types that come later do not
matter at all. -/
theorem UnfoldsWithin.textWithin_eq {levels : Nat} (h : t.UnfoldsWithin levels id)
    (hext : t'.Extends t) {depth depth' : Nat} (hdepth : levels ≤ depth)
    (hdepth' : levels ≤ depth') : t'.textWithin depth' id = t.textWithin depth id := by
  induction levels generalizing depth depth' id with
  | zero => cases h
  | succ levels ih =>
    obtain ⟨ty, hty, hparts⟩ := h
    have hty' : t'.get? id = some ty := (hext.get?_of_lt (lt_size_of_get? hty)).trans hty
    cases depth with
    | zero => omega
    | succ depth =>
      cases depth' with
      | zero => omega
      | succ depth' =>
        rw [textWithin, textWithin, hty, hty']
        exact Ty.text_congr fun c hc => ih (hparts c hc) (by omega) (by omega)

/-- The text of a type stays the same while the table grows. -/
theorem Known.text_eq (h : t.Known id) (hext : t'.Extends t) : t'.text id = t.text id := by
  have hsize := hext.size_le
  exact h.unfoldsWithin.textWithin_eq hext (by omega) (by omega)

theorem Grounded.text_eq (h : t.Grounded) (hext : t'.Extends t) (hid : id.index < t.size) :
    t'.text id = t.text id :=
  (h.known hid).text_eq hext

/-- The text of a type that is not built from others. -/
theorem text_of_get? (h : t.get? id = some ty) (hty : ty.children = []) (f : TypeId → String) :
    t.text id = ty.text f := by
  rw [text, textWithin, h]
  apply Ty.text_congr
  simp [hty]

/-! ## Types that hold pointers -/

/-- A pointer or a vector of pointers can be reached from the type, through the elements of
arrays and the fields of structures. -/
inductive Holds (t : TypeTable) : TypeId → Prop
  | pointer {id : TypeId} {ty : Ty} : t.get? id = some ty → ty.isPointer = true → t.Holds id
  | part {id c : TypeId} {ty : Ty} : t.get? id = some ty → c ∈ ty.children → t.Holds c → t.Holds id

theorem holds_iff_of_get? (h : t.get? id = some ty) :
    t.Holds id ↔ ty.isPointer = true ∨ ∃ c ∈ ty.children, t.Holds c := by
  constructor
  · intro hholds
    cases hholds with
    | pointer hget hty =>
      cases h.symm.trans hget
      exact .inl hty
    | part hget hc hholds =>
      cases h.symm.trans hget
      exact .inr ⟨_, hc, hholds⟩
  · rintro (hty | ⟨c, hc, hholds⟩)
    · exact .pointer h hty
    · exact .part h hc hholds

theorem Holds.of_extends (h : t.Holds id) (hext : t'.Extends t) : t'.Holds id := by
  induction h with
  | pointer hget hty =>
    exact .pointer ((hext.get?_of_lt (lt_size_of_get? hget)).trans hget) hty
  | part hget hc _ ih =>
    exact .part ((hext.get?_of_lt (lt_size_of_get? hget)).trans hget) hc ih

/-- Whether a type holds a pointer stays the same while the table grows. -/
theorem Known.holds_iff (h : t.Known id) (hext : t'.Extends t) : t'.Holds id ↔ t.Holds id := by
  induction h with
  | @intro id ty hty _ ih =>
    have hty' : t'.get? id = some ty := (hext.get?_of_lt (lt_size_of_get? hty)).trans hty
    rw [holds_iff_of_get? hty, holds_iff_of_get? hty']
    apply or_congr_right
    apply exists_congr
    intro c
    apply and_congr_right
    exact ih c

theorem Grounded.holds_iff (h : t.Grounded) (hext : t'.Extends t) (hid : id.index < t.size) :
    t'.Holds id ↔ t.Holds id :=
  (h.known hid).holds_iff hext

end TypeTable

namespace PointerMemo

variable {t t' : TypeTable} {m : PointerMemo} {id : TypeId}

theorem answer?_remember {id' : TypeId} {answer : Bool} :
    (m.remember id answer).answer? id' = if id' = id then some answer else m.answer? id' := by
  rw [answer?, remember, List.lookup_cons]
  by_cases heq : id' = id
  · rw [if_pos heq, beq_iff_eq.2 heq]
  · rw [if_neg heq, beq_eq_false_iff_ne.2 heq]
    rfl

/-- A question that was asked before is answered from memory. -/
theorem ask_of_answer? {answer : Bool} (h : m.answer? id = some answer) :
    m.ask t id = (answer, m) := by
  rw [ask, askWithin, h]

/-! ## Answers that say yes -/

/-- What is said to hold a pointer holds one. -/
def Truthful (m : PointerMemo) (t : TypeTable) : Prop :=
  ∀ id, m.answer? id = some true → t.Holds id

theorem truthful_empty (t : TypeTable) : empty.Truthful t := by
  intro id h
  cases h

theorem Truthful.of_extends (h : m.Truthful t) (hext : t'.Extends t) : m.Truthful t' :=
  fun id hid => (h id hid).of_extends hext

theorem Truthful.remember (h : m.Truthful t) {answer : Bool}
    (hanswer : answer = true → t.Holds id) : (m.remember id answer).Truthful t := by
  intro id' hid'
  rw [answer?_remember] at hid'
  split at hid'
  next heq => exact heq ▸ hanswer (Option.some.inj hid')
  next => exact h id' hid'

theorem truthful_foldl {ask : PointerMemo → TypeId → Bool × PointerMemo}
    (hask : ∀ c (m : PointerMemo), m.Truthful t →
      ((ask m c).1 = true → t.Holds c) ∧ (ask m c).2.Truthful t)
    (parts : List TypeId) (found : Bool) (h : m.Truthful t) :
    ((parts.foldl (fun p c => if p.1 then (p.1, p.2) else ask p.2 c) (found, m)).1 = true →
        found = true ∨ ∃ c ∈ parts, t.Holds c) ∧
      (parts.foldl (fun p c => if p.1 then (p.1, p.2) else ask p.2 c) (found, m)).2.Truthful t := by
  induction parts generalizing found m with
  | nil => exact ⟨.inl, h⟩
  | cons c rest ih =>
    rw [List.foldl_cons]
    cases found with
    | true => exact ⟨fun _ => .inl rfl, (ih true h).2⟩
    | false =>
      obtain ⟨hc, hmemo⟩ := hask c m h
      obtain ⟨hrest, hlast⟩ := ih (ask m c).1 hmemo
      refine ⟨fun hfound => .inr ?_, hlast⟩
      rcases hrest hfound with hself | ⟨c', hc', hholds⟩
      · exact ⟨c, List.mem_cons_self, hc hself⟩
      · exact ⟨c', List.mem_cons_of_mem c hc', hholds⟩

/-- A type that is found to hold a pointer holds one, in any table and at any depth. -/
theorem Truthful.askWithin (h : m.Truthful t) (depth : Nat) (id : TypeId) :
    ((askWithin t depth m id).1 = true → t.Holds id) ∧ (askWithin t depth m id).2.Truthful t := by
  induction depth generalizing m id with
  | zero => exact ⟨by simp [PointerMemo.askWithin], h⟩
  | succ depth ih =>
    rw [PointerMemo.askWithin]
    cases hanswer : m.answer? id with
    | some answer => exact ⟨fun htrue => h id (hanswer.trans (congrArg some htrue)), h⟩
    | none =>
      cases hty : t.get? id with
      | none => exact ⟨by simp, h.remember (by simp)⟩
      | some ty =>
        obtain ⟨hfound, hmemo⟩ := truthful_foldl (fun c m' hm' => ih hm' c)
          ty.children ty.isPointer h
        rw [← TypeTable.holds_iff_of_get? hty] at hfound
        exact ⟨hfound, hmemo.remember hfound⟩

theorem Truthful.ask (h : m.Truthful t) (id : TypeId) : (m.ask t id).2.Truthful t :=
  (h.askWithin (t.size + 1) id).2

/-! ## Answers that are right -/

/-- The answers are about known types, and they are right. -/
def Settled (m : PointerMemo) (t : TypeTable) : Prop :=
  ∀ id answer, m.answer? id = some answer → t.Known id ∧ (answer = true ↔ t.Holds id)

theorem settled_empty (t : TypeTable) : empty.Settled t := by
  intro id answer h
  cases h

theorem Settled.remember (h : m.Settled t) (hid : t.Known id) {answer : Bool}
    (hanswer : answer = true ↔ t.Holds id) : (m.remember id answer).Settled t := by
  intro id' answer' hlookup
  rw [answer?_remember] at hlookup
  split at hlookup
  next heq =>
    subst heq
    cases hlookup
    exact ⟨hid, hanswer⟩
  next => exact h id' answer' hlookup

/-- Right answers stay right while the table grows. -/
theorem Settled.of_extends (h : m.Settled t) (hext : t'.Extends t) : m.Settled t' := by
  intro id answer hlookup
  obtain ⟨hid, hanswer⟩ := h id answer hlookup
  exact ⟨hid.of_extends hext, hanswer.trans (hid.holds_iff hext).symm⟩

/-- Asking for the parts of a type in order, up to the first that holds a pointer. -/
theorem settled_foldl {ask : PointerMemo → TypeId → Bool × PointerMemo} {parts : List TypeId}
    (hask : ∀ c ∈ parts, ∀ m : PointerMemo, m.Settled t →
      ((ask m c).1 = true ↔ t.Holds c) ∧ (ask m c).2.Settled t)
    (found : Bool) (h : m.Settled t) :
    ((parts.foldl (fun p c => if p.1 then (p.1, p.2) else ask p.2 c) (found, m)).1 = true ↔
        found = true ∨ ∃ c ∈ parts, t.Holds c) ∧
      (parts.foldl (fun p c => if p.1 then (p.1, p.2) else ask p.2 c) (found, m)).2.Settled t := by
  induction parts generalizing found m with
  | nil => simpa using h
  | cons c rest ih =>
    rw [List.forall_mem_cons] at hask
    rw [List.foldl_cons]
    cases found with
    | true =>
      have hrest := ih hask.2 true h
      simpa using hrest
    | false =>
      obtain ⟨hc, hsettled⟩ := hask.1 m h
      have hrest := ih hask.2 (ask m c).1 hsettled
      simp only [Bool.false_eq_true, if_false, Prod.mk.eta, false_or, List.exists_mem_cons_iff]
      rw [hc] at hrest
      exact hrest

/-- An answer says whether the type holds a pointer, whatever was asked before. -/
theorem Settled.askWithin (h : m.Settled t) {levels depth : Nat} (hid : t.UnfoldsWithin levels id)
    (hdepth : levels ≤ depth) :
    ((askWithin t depth m id).1 = true ↔ t.Holds id) ∧ (askWithin t depth m id).2.Settled t := by
  induction depth generalizing m id levels with
  | zero =>
    obtain rfl := Nat.le_zero.1 hdepth
    cases hid
  | succ depth ih =>
    rw [PointerMemo.askWithin]
    cases hanswer : m.answer? id with
    | some answer => exact ⟨(h id answer hanswer).2, h⟩
    | none =>
      cases levels with
      | zero => cases hid
      | succ levels =>
        have hknown := hid.known
        obtain ⟨ty, hty, hparts⟩ := hid
        have hask : ∀ c ∈ ty.children, ∀ m' : PointerMemo, m'.Settled t →
            ((PointerMemo.askWithin t depth m' c).1 = true ↔ t.Holds c) ∧
              (PointerMemo.askWithin t depth m' c).2.Settled t :=
          fun c hc m' hm' => ih hm' (hparts c hc) (by omega)
        have hfold := settled_foldl hask ty.isPointer h
        rw [← TypeTable.holds_iff_of_get? hty] at hfold
        simp only [hty]
        exact ⟨hfold.1, hfold.2.remember hknown hfold.1⟩

theorem Settled.ask (h : m.Settled t) (hid : t.Known id) :
    ((m.ask t id).1 = true ↔ t.Holds id) ∧ (m.ask t id).2.Settled t :=
  h.askWithin hid.unfoldsWithin (by omega)

/-- The answers are about types of the table, and they are right. -/
def Sound (m : PointerMemo) (t : TypeTable) : Prop :=
  ∀ id answer, m.answer? id = some answer → id.index < t.size ∧ (answer = true ↔ t.Holds id)

theorem sound_empty (t : TypeTable) : empty.Sound t := by
  intro id answer h
  cases h

theorem Settled.sound (h : m.Settled t) : m.Sound t :=
  fun id answer hanswer => ⟨(h id answer hanswer).1.lt_size, (h id answer hanswer).2⟩

theorem Sound.settled (h : m.Sound t) (ht : t.Grounded) : m.Settled t :=
  fun id answer hanswer => ⟨ht.known (h id answer hanswer).1, (h id answer hanswer).2⟩

theorem Sound.of_extends (h : m.Sound t) (ht : t.Grounded) (hext : t'.Extends t) : m.Sound t' :=
  ((h.settled ht).of_extends hext).sound

theorem Sound.ask (h : m.Sound t) (ht : t.Grounded) (hid : id.index < t.size) :
    ((m.ask t id).1 = true ↔ t.Holds id) ∧ (m.ask t id).2.Sound t := by
  obtain ⟨hanswer, hsettled⟩ := (h.settled ht).ask (ht.known hid)
  exact ⟨hanswer, hsettled.sound⟩

end PointerMemo

end PointsTo
