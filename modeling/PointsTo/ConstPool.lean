import PointsTo.Const
import PointsTo.Ir.Fault
import PointsTo.TypeTable

/-!
# Constant pools

A pool keeps each constant of a module once, with its type, and names it by its
position. A constant enters only after the constants it is built from, so children
come before parents. The first spelling of a number is the one that is kept.

Constants are read off the entries; ids are looked up in a map of their own, which only
`push` writes.
-/

namespace PointsTo

/-- A constant in a pool, with its type. -/
structure TypedConst where
  value : Const
  ty : TypeId
  deriving DecidableEq

/-- The constants of a module, in the order they were first asked for. Each is built
from constants before it. -/
structure ConstPool where
  entries : List TypedConst
  /-- The id of each constant, under its first spelling. -/
  ids : List (Const × ConstId)
  grounded : ∀ (i : Nat) (e : TypedConst), entries[i]? = some e →
    ∀ c ∈ e.value.children, c.index < i
  deriving DecidableEq

namespace ConstPool

def empty : ConstPool := ⟨[], [], by simp⟩

def size (p : ConstPool) : Nat := p.entries.length

def get? (p : ConstPool) (id : ConstId) : Option TypedConst := p.entries[id.index]?

/-- The id of a constant, also under another spelling. -/
def find? (p : ConstPool) (c : Const) : Option ConstId :=
  (p.ids.find? fun e => e.1.same c).map Prod.snd

/-- The first constant that `c` is built from and that the pool does not have. -/
def missingChild? (p : ConstPool) (c : Const) : Option ConstId :=
  c.children.find? fun child => p.size ≤ child.index

theorem index_lt_of_missingChild? {p : ConstPool} {c : Const} (h : p.missingChild? c = none) :
    ∀ child ∈ c.children, child.index < p.size := by
  simpa [missingChild?] using h

/-- Add a constant whose children are there. -/
def push (p : ConstPool) (e : TypedConst)
    (h : ∀ child ∈ e.value.children, child.index < p.size) : ConstPool where
  entries := p.entries ++ [e]
  ids := (e.value, ⟨p.size⟩) :: p.ids
  grounded i e' hi := by
    rcases Nat.lt_or_ge i p.entries.length with hlt | hge
    · exact p.grounded i e' (by rwa [List.getElem?_append_left hlt] at hi)
    · rw [List.getElem?_append_right hge, List.getElem?_singleton] at hi
      split at hi
      next hzero =>
        cases hi
        exact fun child hchild => Nat.lt_of_lt_of_le (h child hchild) hge
      next => cases hi

/-- What interning gives: the id, if the constant is accepted, and the pool and type table
after it. -/
structure Interned where
  outcome : Except Fault ConstId
  pool : ConstPool
  types : TypeTable

/-- The type of a constant, in a table that has it afterwards. -/
def typeOf (types : TypeTable) (c : Const) : TypeId × TypeTable :=
  match c.typeSource with
  | .given id => (id, types)
  | .implied ty => types.intern ty

/-- The id of a constant, which is added at the end if it is new. It is refused if it
is built from a constant that the pool does not have. -/
def intern (p : ConstPool) (types : TypeTable) (c : Const) : Interned :=
  match p.find? c with
  | some id => ⟨.ok id, p, types⟩
  | none =>
    match h : p.missingChild? c with
    | some child => ⟨.error (.undefinedConstant child), p, types⟩
    | none =>
      let (ty, types) := typeOf types c
      ⟨.ok ⟨p.size⟩, p.push ⟨c, ty⟩ (index_lt_of_missingChild? h), types⟩

/-- The notices of `intern`: a new type first, then the new constant. -/
def internNotices (p : ConstPool) (types : TypeTable) (c : Const) : List Notice :=
  match p.find? c, p.missingChild? c with
  | none, none =>
    let typeNotices := match c.typeSource with
      | .given _ => []
      | .implied ty => types.internNotices ty
    typeNotices ++ [⟨.trace, s!"Interned constant {c.account} as {(ConstId.mk p.size).text}"⟩]
  | _, _ => []

/-- The constants with their ids, in order. -/
def toList (p : ConstPool) : List (ConstId × TypedConst) :=
  p.entries.zipIdx.map fun (e, i) => (⟨i⟩, e)

end ConstPool

end PointsTo
