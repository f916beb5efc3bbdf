/-!
# Repetitions in a list

The first element of a list that already occurs before it, if there is one.
-/

namespace PointsTo

variable {α : Type} [DecidableEq α]

/-- The first element of `l` that is in `seen` or occurs earlier in `l`. -/
def firstRepeatFrom (seen : List α) : List α → Option α
  | [] => none
  | a :: rest => if a ∈ seen then some a else firstRepeatFrom (a :: seen) rest

/-- The first element of `l` that occurs earlier in `l`. -/
def firstRepeat? (l : List α) : Option α := firstRepeatFrom [] l

end PointsTo
