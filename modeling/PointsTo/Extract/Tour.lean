import PointsTo.Ir.Value

/-!
# Walks over constants

Describing a module meets the constants it refers to; each is met once, after the
constants it is built from. `Tour` keeps the record of that walk.
-/

namespace PointsTo

/-- A moment of a walk over constants: the start of a constant, or its end, when all
that it is built from has ended. -/
inductive Mark
  | enter (c : ConstId)
  | leave (c : ConstId)
  deriving DecidableEq

/-- The constant that ends, if one does. -/
def Mark.left? : Mark → Option ConstId
  | .enter _ => none
  | .leave c => some c

/-- A value that is a constant and not a symbol. -/
def Value.isConstant : Value → Bool
  | .constant _ => true
  | _ => false

namespace Module

/-- Continue a walk to a constant. Addresses of symbols and constants that have ended
are passed over. -/
def visit (m : Module) : Nat → List Mark → ConstId → List Mark
  | 0, marks, _ => marks
  | depth + 1, marks, c =>
    if !(m.constantValue c).isConstant || marks.contains (.leave c) then marks
    else (m.constantChildren c).foldl (m.visit depth) (marks ++ [.enter c]) ++ [.leave c]

end Module

/-- A computation along a walk over constants. -/
abbrev Tour := StateM (List Mark)

/-- Go to a constant, and give what is new on the way. -/
def Tour.visit (m : Module) (c : ConstId) : Tour (List Mark) := do
  let before ← get
  let after := m.visit m.constantDepth before c
  set after
  return after.drop before.length

/-- Put together what is done for each item, in order. -/
def Tour.collect {α β : Type} (l : List α) (f : α → Tour (List β)) : Tour (List β) := do
  let parts ← l.mapM f
  return parts.flatten

end PointsTo
