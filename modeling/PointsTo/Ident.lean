/-!
# Handles

Types, constants, globals, functions and objects live in ordered collections and
are named by their position. Registers and labels are numbers chosen by the
program; the numeric order of labels is the layout order of the blocks.
-/

namespace PointsTo

/-- Position of a type in its type table. -/
structure TypeId where
  index : Nat
  deriving DecidableEq, Ord

/-- Position of a constant in its pool. -/
structure ConstId where
  index : Nat
  deriving DecidableEq, Ord

/-- Position of a global variable in its module. -/
structure GlobalId where
  index : Nat
  deriving DecidableEq, Ord

/-- Position of a function in its module. -/
structure FunctionId where
  index : Nat
  deriving DecidableEq, Ord

/-- Identity of an object: a special object, a value, or an object a value owns. -/
structure ObjectId where
  index : Nat
  deriving DecidableEq, Ord

/-- The name of a parameter or of an instruction's result. -/
structure Register where
  index : Nat
  deriving DecidableEq

/-- The name of a basic block inside its function. -/
structure Label where
  index : Nat
  deriving DecidableEq

instance : Ord Register := ⟨fun a b => compare a.index b.index⟩
instance : Ord Label := ⟨fun a b => compare a.index b.index⟩

instance : Std.TransOrd Register where
  eq_swap {a b} := Std.OrientedOrd.eq_swap (a := a.index) (b := b.index)
  isLE_trans {a b c} := Std.TransOrd.isLE_trans (a := a.index) (b := b.index) (c := c.index)

instance : Std.TransOrd Label where
  eq_swap {a b} := Std.OrientedOrd.eq_swap (a := a.index) (b := b.index)
  isLE_trans {a b c} := Std.TransOrd.isLE_trans (a := a.index) (b := b.index) (c := c.index)

instance : Std.LawfulEqOrd Register where
  eq_of_compare {a b} h := by
    have hi : a.index = b.index := Std.LawfulEqOrd.eq_of_compare (α := Nat) h
    cases a; cases b; simpa using hi

instance : Std.LawfulEqOrd Label where
  eq_of_compare {a b} h := by
    have hi : a.index = b.index := Std.LawfulEqOrd.eq_of_compare (α := Nat) h
    cases a; cases b; simpa using hi

/-- The label of the block where control enters a function. -/
def Label.entry : Label := ⟨0⟩

def Label.text (l : Label) : String := s!"%block_{l.index}"

/-- A label as an operand, marked as such. -/
def Label.operandText (l : Label) : String := s!"label {l.text}"

def Register.text (r : Register) : String := s!"%{r.index}"

def ConstId.text (c : ConstId) : String := s!"@const.{c.index}"

def ObjectId.text (o : ObjectId) : String := s!"#{o.index}"

/-- Ids are kept in 32-bit words, which tell so many of them apart. -/
def idLimit : Nat := 4294967296

/-- What a 32-bit word keeps of an id: ids from the limit on wrap around. -/
def ObjectId.wrap (o : ObjectId) : ObjectId := ⟨o.index % idLimit⟩

end PointsTo
