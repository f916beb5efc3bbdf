import Mathlib
import PointsTo.Proofs.TypeTables

/-!
# Tables that are built in order

A table is built in order if each type was interned when the types that it is built from were in
the table. Nothing in such a table contains itself, so the question whether a type holds a pointer
can be asked without a bound on the depth.

Answers are remembered while the table goes on growing. In a session, types are interned and
questions are asked in turns; each answer is right when it is given and stays right.

## Main definitions

* `TypeTable.Built t`: the table is built in order.
* `TypeTable.ReachesPointer t id`: some element or field inside of the type is a pointer or a
  vector of pointers.
* `Session.Along P s turns`: the turns, taken one after the other, are as `P` says.
-/

namespace PointsTo

namespace TypeTable

variable {t t' : TypeTable} {id c : TypeId} {ty : Ty}

/-- Each type was interned when the types that it is built from were in the table. -/
inductive Built : TypeTable → Prop
  | empty : Built .empty
  | intern {t : TypeTable} {ty : Ty} : t.Built → (∀ c ∈ ty.children, c.index < t.size) →
      Built (t.intern ty).2

theorem Built.grounded (h : t.Built) : t.Grounded := by
  induction h with
  | empty =>
    intro id ty hget
    cases hget
  | intern _ hty ih => exact ih.intern hty

theorem Built.known (h : t.Built) (hid : id.index < t.size) : t.Known id :=
  h.grounded.known hid

/-! ## Elements and fields -/

/-- The first type is the element of the second, or one of its fields. -/
def Part (t : TypeTable) (c id : TypeId) : Prop :=
  (∃ n, t.get? id = some (.array c n)) ∨ ∃ fields, t.get? id = some (.struct fields) ∧ c ∈ fields

theorem part_iff : t.Part c id ↔ ∃ ty, t.get? id = some ty ∧ c ∈ ty.children := by
  constructor
  · rintro (⟨n, hget⟩ | ⟨fields, hget, hc⟩)
    · exact ⟨_, hget, List.mem_singleton_self c⟩
    · exact ⟨_, hget, hc⟩
  · rintro ⟨ty, hget, hc⟩
    cases ty with
    | array element n =>
      obtain rfl := List.mem_singleton.1 hc
      exact .inl ⟨n, hget⟩
    | struct fields => exact .inr ⟨fields, hget, hc⟩
    | _ => cases hc

theorem Known.of_part (h : t.Known id) (hc : t.Part c id) : t.Known c := by
  obtain ⟨ty, hget, hmem⟩ := part_iff.1 hc
  cases h with
  | intro hget' hchildren =>
    cases hget.symm.trans hget'
    exact hchildren c hmem

theorem Known.of_inside (h : t.Known id) (hc : Relation.ReflTransGen t.Part c id) :
    t.Known c := by
  induction hc using Relation.ReflTransGen.head_induction_on with
  | refl => exact h
  | head hpart _ ih => exact ih.of_part hpart

/-- There is an end to taking parts of parts. -/
theorem Known.acc (h : t.Known id) : Acc t.Part id := by
  induction h with
  | @intro id ty hget _ ih =>
    refine .intro id fun c hc => ?_
    obtain ⟨ty', hget', hmem⟩ := part_iff.1 hc
    cases hget.symm.trans hget'
    exact ih c hmem

/-! ## Pointers inside -/

/-- The type is that of pointers, or of vectors of pointers. -/
def IsPointer (t : TypeTable) (id : TypeId) : Prop :=
  t.get? id = some .ptr ∨ ∃ n, t.get? id = some (.vector .ptr n)

theorem isPointer_iff : t.IsPointer id ↔ ∃ ty, t.get? id = some ty ∧ ty.isPointer = true := by
  constructor
  · rintro (hget | ⟨n, hget⟩)
    · exact ⟨_, hget, rfl⟩
    · exact ⟨_, hget, rfl⟩
  · rintro ⟨ty, hget, hty⟩
    unfold Ty.isPointer at hty
    split at hty
    · exact .inl hget
    · exact .inr ⟨_, hget⟩
    · cases hty

/-- A pointer or a vector of pointers is reached from the type through elements and fields. -/
def ReachesPointer (t : TypeTable) (id : TypeId) : Prop :=
  ∃ p, Relation.ReflTransGen t.Part p id ∧ t.IsPointer p

theorem holds_iff_reachesPointer : t.Holds id ↔ t.ReachesPointer id := by
  constructor
  · intro h
    induction h with
    | @pointer id ty hget hty => exact ⟨id, .refl, isPointer_iff.2 ⟨ty, hget, hty⟩⟩
    | part hget hc _ ih =>
      obtain ⟨p, hinside, hp⟩ := ih
      exact ⟨p, hinside.tail (part_iff.2 ⟨_, hget, hc⟩), hp⟩
  · rintro ⟨p, hinside, hp⟩
    induction hinside with
    | refl =>
      obtain ⟨ty, hget, hty⟩ := isPointer_iff.1 hp
      exact .pointer hget hty
    | tail _ hpart ih =>
      obtain ⟨ty, hget, hc⟩ := part_iff.1 hpart
      exact .part hget hc ih

end TypeTable

/-! ## Questions without a bound -/

namespace PointerMemo

variable {t : TypeTable} {m : PointerMemo} {id : TypeId} {ty : Ty}

/-- Ask for types in order, up to the first that holds a pointer. -/
def scan (t : TypeTable) (m : PointerMemo) (found : Bool) (parts : List TypeId) :
    Bool × PointerMemo :=
  parts.foldl (fun p c => if p.1 then (p.1, p.2) else p.2.ask t c) (found, m)

/-- The depth of a question does not matter if it is enough. -/
theorem askWithin_eq {levels depth depth' : Nat} (h : t.UnfoldsWithin levels id)
    (hdepth : levels ≤ depth) (hdepth' : levels ≤ depth') :
    askWithin t depth m id = askWithin t depth' m id := by
  induction levels generalizing depth depth' id m with
  | zero => cases h
  | succ levels ih =>
    obtain ⟨ty, hty, hparts⟩ := h
    cases depth with
    | zero => omega
    | succ depth =>
      cases depth' with
      | zero => omega
      | succ depth' =>
        have hfold : ty.children.foldl
            (fun p c => if p.1 then (p.1, p.2) else askWithin t depth p.2 c) (ty.isPointer, m) =
            ty.children.foldl
              (fun p c => if p.1 then (p.1, p.2) else askWithin t depth' p.2 c)
              (ty.isPointer, m) := by
          apply List.foldl_ext
          intro p c hc
          have hpart : askWithin t depth p.2 c = askWithin t depth' p.2 c :=
            ih (hparts c hc) (by omega) (by omega)
          rw [hpart]
        rw [askWithin, askWithin, hty]
        cases m.answer? id with
        | some answer => rfl
        | none => exact congrArg (fun p => (p.1, p.2.remember id p.1)) hfold

/-- A question that was not asked before goes to the parts of the type, with no bound. -/
theorem ask_of_known (h : m.answer? id = none) (hid : t.Known id) (hty : t.get? id = some ty) :
    m.ask t id = ((scan t m ty.isPointer ty.children).1,
      (scan t m ty.isPointer ty.children).2.remember id
        (scan t m ty.isPointer ty.children).1) := by
  have hscan : ty.children.foldl
      (fun p c => if p.1 then (p.1, p.2) else askWithin t t.size p.2 c) (ty.isPointer, m) =
      scan t m ty.isPointer ty.children := by
    apply List.foldl_ext
    intro p c hc
    have hknown := hid.of_part (TypeTable.part_iff.2 ⟨ty, hty, hc⟩)
    rw [ask, askWithin_eq hknown.unfoldsWithin le_rfl (Nat.le_succ _)]
  rw [ask, askWithin, h, hty]
  exact congrArg (fun p => (p.1, p.2.remember id p.1)) hscan

/-- Questions about the type come to an end: there is an end to going inside of it, and at each
type inside the question is answered from memory or by asking for the parts. -/
structure Ends (t : TypeTable) (id : TypeId) : Prop where
  acc : Acc t.Part id
  remembered : ∀ c, Relation.ReflTransGen t.Part c id → ∀ (m : PointerMemo) answer,
    m.answer? c = some answer → m.ask t c = (answer, m)
  asked : ∀ c, Relation.ReflTransGen t.Part c id → ∀ m : PointerMemo, m.answer? c = none →
    ∃ ty, t.get? c = some ty ∧ m.ask t c = ((scan t m ty.isPointer ty.children).1,
      (scan t m ty.isPointer ty.children).2.remember c (scan t m ty.isPointer ty.children).1)

theorem ends_of_known (h : t.Known id) : Ends t id where
  acc := h.acc
  remembered c _ m answer hanswer := ask_of_answer? hanswer
  asked c hc m hanswer := by
    have hknown := h.of_inside hc
    obtain ⟨ty, hty⟩ := TypeTable.exists_get?_of_lt hknown.lt_size
    exact ⟨ty, hty, ask_of_known hanswer hknown hty⟩

end PointerMemo

/-! ## Sessions -/

/-- What is done in a turn: a type is interned, or it is asked whether a type holds a pointer. -/
inductive Turn
  | intern (ty : Ty)
  | ask (id : TypeId)

/-- A table that grows, and the answers that were given on the way. -/
structure Session where
  types : TypeTable
  memo : PointerMemo

namespace Session

variable {s : Session} {t : TypeTable} {turns : List Turn}

def start (t : TypeTable) : Session := ⟨t, .empty⟩

def turn (s : Session) : Turn → Session
  | .intern ty => ⟨(s.types.intern ty).2, s.memo⟩
  | .ask id => ⟨s.types, (s.memo.ask s.types id).2⟩

/-- Each turn is as said at the time when it is taken. -/
def Along (P : Session → Turn → Prop) (s : Session) : List Turn → Prop
  | [] => True
  | x :: rest => P s x ∧ (s.turn x).Along P rest

/-- What is interned is built from types of the table, and questions are about types of the
table. -/
def InOrder (s : Session) : Turn → Prop
  | .intern ty => ∀ c ∈ ty.children, c.index < s.types.size
  | .ask id => id.index < s.types.size

/-- Anything is interned, and questions are about types of a given table. -/
def Within (t : TypeTable) (_ : Session) : Turn → Prop
  | .intern _ => True
  | .ask id => id.index < t.size

/-- Anything is interned, and questions are about known types. -/
def AsksKnown (s : Session) : Turn → Prop
  | .intern _ => True
  | .ask id => s.types.Known id

/-- A question comes to an end. The answer says whether the type reaches a pointer, in the table
as it is and in all tables that it grows to. -/
def Exact (s : Session) : Turn → Prop
  | .intern _ => True
  | .ask id => PointerMemo.Ends s.types id ∧ ∀ t' : TypeTable, t'.Extends s.types →
      ((s.memo.ask s.types id).1 = true ↔ t'.ReachesPointer id)

theorem turn_extends (s : Session) (x : Turn) : (s.turn x).types.Extends s.types := by
  cases x with
  | intern ty => exact s.types.extends_intern ty
  | ask id => exact .refl s.types

theorem turn_built (h : s.types.Built) {x : Turn} (hx : s.InOrder x) :
    (s.turn x).types.Built := by
  cases x with
  | intern ty => exact .intern h hx
  | ask id => exact h

/-- Answers about known types are right, and no turn makes a remembered answer wrong. -/
theorem exact_and_settled_of_asksKnown (h : s.memo.Settled s.types) {x : Turn}
    (hx : s.AsksKnown x) : s.Exact x ∧ (s.turn x).memo.Settled (s.turn x).types := by
  cases x with
  | intern ty => exact ⟨trivial, h.of_extends (s.types.extends_intern ty)⟩
  | ask id =>
    have hknown : s.types.Known id := hx
    obtain ⟨hanswer, hsettled⟩ := h.ask hknown
    refine ⟨⟨PointerMemo.ends_of_known hknown, fun t' hext => ?_⟩, hsettled⟩
    rw [hanswer, ← hknown.holds_iff hext, TypeTable.holds_iff_reachesPointer]

theorem Along.exact (h : s.Along AsksKnown turns) (hs : s.memo.Settled s.types) :
    s.Along Exact turns := by
  induction turns generalizing s with
  | nil => trivial
  | cons x rest ih =>
    obtain ⟨hexact, hsettled⟩ := exact_and_settled_of_asksKnown hs h.1
    exact ⟨hexact, ih h.2 hsettled⟩

theorem Along.asksKnown_of_inOrder (h : s.Along InOrder turns) (hs : s.types.Built) :
    s.Along AsksKnown turns := by
  induction turns generalizing s with
  | nil => trivial
  | cons x rest ih =>
    refine ⟨?_, ih h.2 (turn_built hs h.1)⟩
    cases x with
    | intern ty => trivial
    | ask id => exact hs.known h.1

theorem Along.asksKnown_of_within (h : s.Along (Within t) turns) (ht : t.Built)
    (hs : s.types.Extends t) : s.Along AsksKnown turns := by
  induction turns generalizing s with
  | nil => trivial
  | cons x rest ih =>
    refine ⟨?_, ih h.2 ((s.turn_extends x).trans hs)⟩
    cases x with
    | intern ty => trivial
    | ask id => exact (ht.known h.1).of_extends hs

/-- Every answer in a session that starts with a table that is built in order is right, if the
table goes on being built in order; and answers about the types that it started with are right
whatever is interned. -/
theorem along_exact (ht : t.Built) (turns : List Turn) :
    ((start t).Along InOrder turns → (start t).Along Exact turns) ∧
      ((start t).Along (Within t) turns → (start t).Along Exact turns) := by
  have hsettled : (start t).memo.Settled (start t).types := PointerMemo.settled_empty t
  refine ⟨fun h => ?_, fun h => ?_⟩
  · exact (h.asksKnown_of_inOrder ht).exact hsettled
  · exact (h.asksKnown_of_within ht (.refl t)).exact hsettled

/-- Arrays and structures around integers and pointers. -/
def nested : TypeTable :=
  .ofList [.int .i64, .array ⟨0⟩ 4, .vector .ptr 2, .struct [⟨1⟩, ⟨0⟩], .array ⟨2⟩ 0]

theorem built_nested : nested.Built := by
  have hint := @TypeTable.Built.intern .empty (.int .i64) .empty (by decide)
  have harray := @TypeTable.Built.intern _ (.array ⟨0⟩ 4) hint (by decide)
  have hvector := @TypeTable.Built.intern _ (.vector .ptr 2) harray (by decide)
  have hstruct := @TypeTable.Built.intern _ (.struct [⟨1⟩, ⟨0⟩]) hvector (by decide)
  exact @TypeTable.Built.intern _ (.array ⟨2⟩ 0) hstruct (by decide)

/-- Structures are asked for before and after others are built from them. -/
def growing : List Turn :=
  [.ask ⟨3⟩, .intern (.struct [⟨3⟩, ⟨4⟩]), .ask ⟨5⟩, .ask ⟨3⟩, .intern (.array ⟨5⟩ 1), .ask ⟨6⟩]

/-- A type that is not in the table and then a cycle are interned between the questions. -/
def careless : List Turn :=
  [.ask ⟨4⟩, .intern (.array ⟨9⟩ 1), .ask ⟨3⟩, .intern (.struct [⟨6⟩, ⟨3⟩]), .ask ⟨4⟩]

theorem along_exact_nested :
    nested.Built ∧ (start nested).Along InOrder growing ∧ (start nested).Along Exact growing ∧
      (start nested).Along (Within nested) careless ∧ (start nested).Along Exact careless := by
  have hgrowing : (start nested).Along InOrder growing := by
    unfold growing
    simp only [Along, InOrder]
    decide
  have hcareless : (start nested).Along (Within nested) careless := by
    unfold careless
    simp only [Along, Within]
    decide
  exact ⟨built_nested, hgrowing, (along_exact built_nested growing).1 hgrowing, hcareless,
    (along_exact built_nested careless).2 hcareless⟩

end Session

end PointsTo
