import PointsTo.TypeTable

/-!
# Which types hold pointers

A type holds a pointer if it is one, or a vector of them, or an aggregate with such
a type anywhere inside. Answers are remembered. An answer that was given while a
type was unknown stays, also when the type enters the table later.
-/

namespace PointsTo

/-- The answers given so far. -/
structure PointerMemo where
  answers : List (TypeId × Bool)

namespace PointerMemo

def empty : PointerMemo := ⟨[]⟩

def answer? (m : PointerMemo) (id : TypeId) : Option Bool := m.answers.lookup id

def remember (m : PointerMemo) (id : TypeId) (answer : Bool) : PointerMemo :=
  ⟨(id, answer) :: m.answers⟩

/-- Answer for `id`, looking at most `depth` levels into aggregates. The parts of an
aggregate are asked in order up to the first that holds a pointer. -/
def askWithin (t : TypeTable) : Nat → PointerMemo → TypeId → Bool × PointerMemo
  | 0, m, _ => (false, m)
  | depth + 1, m, id =>
    match m.answer? id with
    | some answer => (answer, m)
    | none =>
      match t.get? id with
      | none => (false, m.remember id false)
      | some ty =>
        let (answer, m) := ty.children.foldl
          (fun (found, m) child => if found then (found, m) else askWithin t depth m child)
          (ty.isPointer, m)
        (answer, m.remember id answer)

/-- Whether the type holds a pointer, and the memory with that answer. -/
def ask (m : PointerMemo) (t : TypeTable) (id : TypeId) : Bool × PointerMemo :=
  askWithin t (t.size + 1) m id

end PointerMemo

end PointsTo
