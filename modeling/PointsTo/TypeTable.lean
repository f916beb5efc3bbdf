import PointsTo.Notice
import PointsTo.Ty

/-!
# Type tables

A table keeps each requested type once and names it by its position, so equal ids
mean equal types. An id need not be in the table: such a type is unknown. Types are
read off the list of types; ids are looked up in a map of their own, which leads from
each type back to its position.

The text of a type unfolds the types it is built from. Unfolding is bounded by the
size of the table, which is enough whenever no type contains itself.
-/

namespace PointsTo

/-- The types of a program, each once, in the order they were first asked for. -/
structure TypeTable where
  types : List Ty
  /-- The id of each type. -/
  ids : List (Ty × TypeId)
  /-- The list and the map are inverse to each other. -/
  lookup_iff : ∀ (ty : Ty) (id : TypeId), ids.lookup ty = some id ↔ types[id.index]? = some ty
  deriving DecidableEq

namespace TypeTable

def empty : TypeTable := ⟨[], [], by simp⟩

def size (t : TypeTable) : Nat := t.types.length

def get? (t : TypeTable) (id : TypeId) : Option Ty := t.types[id.index]?

def find? (t : TypeTable) (ty : Ty) : Option TypeId := t.ids.lookup ty

/-- Looking up a type and looking up an id are inverse to each other. -/
theorem find?_eq_some_iff {t : TypeTable} {ty : Ty} {id : TypeId} :
    t.find? ty = some id ↔ t.get? id = some ty := t.lookup_iff ty id

/-- Add a type that is not there, in the list and in the map. -/
def push (t : TypeTable) (ty : Ty) (h : t.find? ty = none) : TypeTable where
  types := t.types ++ [ty]
  ids := (ty, ⟨t.size⟩) :: t.ids
  lookup_iff ty' id := by
    obtain ⟨i⟩ := id
    have hlookup := t.lookup_iff ty' ⟨i⟩
    rw [List.lookup_cons]
    rcases Nat.lt_trichotomy i t.types.length with hlt | rfl | hgt
    · -- A position of the table has its type still, which is not the new one.
      rw [List.getElem?_append_left hlt, ← hlookup]
      split
      next hsame =>
        obtain rfl := eq_of_beq hsame
        simp only [Option.some.injEq, TypeId.mk.injEq, show t.ids.lookup ty' = none from h,
          reduceCtorEq, iff_false]
        exact fun heq => Nat.lt_irrefl _ (heq ▸ hlt)
      next => rfl
    · rw [List.getElem?_concat_length]
      split
      next hsame => simp [eq_of_beq hsame, size]
      next hother =>
        have hnone : t.types[t.types.length]? = none := List.getElem?_eq_none (Nat.le_refl _)
        simp only [hlookup, hnone, reduceCtorEq, Option.some.injEq, false_iff]
        rintro rfl
        simp at hother
    · have hnone : t.types[i]? = none := List.getElem?_eq_none (Nat.le_of_lt hgt)
      have hnone' : (t.types ++ [ty])[i]? = none := by
        rw [List.getElem?_eq_none_iff, List.length_append]
        exact hgt
      rw [hnone']
      split
      · simpa [size] using fun heq => Nat.lt_irrefl _ (heq ▸ hgt)
      · rw [hlookup, hnone]

/-- The id of a type, which is added at the end if it is new. -/
def intern (t : TypeTable) (ty : Ty) : TypeId × TypeTable :=
  match h : t.find? ty with
  | some id => (id, t)
  | none => (⟨t.size⟩, t.push ty h)

theorem intern_of_find? {t : TypeTable} {ty : Ty} {id : TypeId} (h : t.find? ty = some id) :
    t.intern ty = (id, t) := by
  unfold intern
  split
  next id' h' => rw [Option.some.inj (h'.symm.trans h)]
  next h' => cases h'.symm.trans h

theorem intern_of_find?_none {t : TypeTable} {ty : Ty} (h : t.find? ty = none) :
    t.intern ty = (⟨t.size⟩, t.push ty h) := by
  unfold intern
  split
  next id h' => cases h'.symm.trans h
  next => rfl

/-- The id that a type gets is the id of that type. -/
@[simp] theorem get?_intern (t : TypeTable) (ty : Ty) :
    (t.intern ty).2.get? (t.intern ty).1 = some ty := by
  cases h : t.find? ty with
  | some id =>
    rw [intern_of_find? h]
    exact find?_eq_some_iff.1 h
  | none =>
    rw [intern_of_find?_none h]
    simp [get?, push, size]

def unknownText (id : TypeId) : String := s!"<unknown type {id.index}>"

/-- The text of a type, unfolded at most `depth` levels. -/
def textWithin (t : TypeTable) : Nat → TypeId → String
  | 0, id => unknownText id
  | depth + 1, id =>
    match t.get? id with
    | some ty => ty.text (t.textWithin depth)
    | none => unknownText id

/-- The text of a type. -/
def text (t : TypeTable) (id : TypeId) : String := t.textWithin (t.size + 1) id

/-- The notice that a new type enters the table, in the words of the table before. -/
def internNotices (t : TypeTable) (ty : Ty) : List Notice :=
  match t.find? ty with
  | some _ => []
  | none =>
    let shown := ty.text (t.textWithin (t.size + 1))
    [⟨.debug, s!"New type encountered {shown}. Registered as #{t.size}."⟩]

end TypeTable

/-- The type of a result: one the program names, or one that the operation implies
and that enters the table when it is first needed. -/
inductive StaticType
  | named (id : TypeId)
  | pointer
  | bit
  deriving DecidableEq

/-- The id of a static type, in a table that then has what the type implies. -/
def TypeTable.resolve (t : TypeTable) : StaticType → TypeId × TypeTable
  | .named id => (id, t)
  | .pointer => t.intern .ptr
  | .bit => t.intern (.int .i1)

/-- The notices of `resolve`. -/
def TypeTable.resolveNotices (t : TypeTable) : StaticType → List Notice
  | .named _ => []
  | .pointer => t.internNotices .ptr
  | .bit => t.internNotices (.int .i1)

end PointsTo
