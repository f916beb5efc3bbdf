import PointsTo.Ident
import PointsTo.Notice
import PointsTo.Text.Quoted

/-!
# Object identities

A table gives each registered value an id. Ids below `special` are reserved. A
value may own further objects; their ids follow the value's own id at once, so the
allocated ids fall into consecutive runs, one for each value:

    | special | value | value, +1 | value, +1, +2 | …

A slot of an owned object keeps the id of its base. Ids are read off the slots; values
are looked up in a map of their own, which only `register` writes.

Ids are numbers without a bound here. `registerWrapping` and `affiliatedWrapping` are the same
with ids of 32 bits, which wrap around; up to `idLimit` ids there is no difference.
-/

namespace PointsTo

open Text

/-- What an allocated id stands for. -/
inductive Slot (V : Type)
  /-- A registered value, followed by `affiliated` objects it owns. -/
  | owning (value : V) (affiliated : Nat)
  /-- An object owned by the value at `base`. -/
  | affiliate (base : ObjectId)
  deriving DecidableEq

/-- Why a table has no answer. -/
inductive ObjectError (V : Type)
  | unregistered (value : V)
  /-- The id is reserved or was never allocated. -/
  | outOfRange (id : ObjectId) (first stop : Nat)
  /-- Offset zero is the base itself. -/
  | affiliatedBase (base : ObjectId)
  /-- Owned objects own nothing. -/
  | notABase (id : ObjectId)
  /-- The value owns fewer objects. -/
  | affiliatedOverflow (base : ObjectId) (offset reserved : Nat)
  deriving DecidableEq

def ObjectError.message {V : Type} [Describe V] : ObjectError V → String
  | .unregistered value => s!"No object identity was assigned to `{describe value}`."
  | .outOfRange id first stop =>
    s!"Object id {id.text} is outside of the allocated range [{first}, {stop})."
  | .affiliatedBase base =>
    s!"Affiliated offset 0 of {base.text} designates the base value, not an affiliated object."
  | .notABase id =>
    s!"Object id {id.text} is an affiliated object and cannot own other objects."
  | .affiliatedOverflow base offset reserved =>
    s!"Affiliated offset {offset} of {base.text} exceeds the {reserved} reserved object(s)."

/-- The error with the end of the allocated range in a 32-bit word. -/
def ObjectError.wrap {V : Type} : ObjectError V → ObjectError V
  | .outOfRange id first stop => .outOfRange id first (stop % idLimit)
  | e => e

/-- Values and their ids. -/
structure ObjectTable (V : Type) where
  special : Nat
  slots : List (Slot V)
  /-- The id of each registered value. -/
  ids : List (V × ObjectId)

namespace ObjectTable
variable {V : Type}

/-- A table with the first `special` ids reserved and none allocated. -/
def new (special : Nat) : ObjectTable V := ⟨special, [], []⟩

/-- The number of allocated ids. -/
def size (x : ObjectTable V) : Nat := x.slots.length

/-- The first id that is not allocated. -/
def stop (x : ObjectTable V) : Nat := x.special + x.size

def isValid (x : ObjectTable V) (id : ObjectId) : Bool :=
  x.special ≤ id.index && id.index < x.stop

/-- What an allocated id stands for. -/
def slot (x : ObjectTable V) (id : ObjectId) : Except (ObjectError V) (Slot V) :=
  if x.special ≤ id.index then
    match x.slots[id.index - x.special]? with
    | some s => .ok s
    | none => .error (.outOfRange id x.special x.stop)
  else .error (.outOfRange id x.special x.stop)

/-- The slots with their ids, in id order. -/
def toList (x : ObjectTable V) : List (ObjectId × Slot V) :=
  x.slots.zipIdx.map fun (s, i) => (⟨x.special + i⟩, s)

/-- The value at an id, or nothing for an owned object. -/
def value? (x : ObjectTable V) (id : ObjectId) : Except (ObjectError V) (Option V) :=
  (x.slot id).map fun
    | .owning value _ => some value
    | .affiliate _ => none

/-- The object at `offset` after `base`, counted from one. -/
def affiliated (x : ObjectTable V) (base : ObjectId) (offset : Nat) :
    Except (ObjectError V) ObjectId :=
  if offset = 0 then .error (.affiliatedBase base)
  else
    match x.slot base with
    | .error e => .error e
    | .ok (.affiliate _) => .error (.notABase base)
    | .ok (.owning _ reserved) =>
      if offset ≤ reserved then .ok ⟨base.index + offset⟩
      else .error (.affiliatedOverflow base offset reserved)

/-- The id of the value an id belongs to. -/
def mainId (x : ObjectTable V) (id : ObjectId) : Except (ObjectError V) ObjectId :=
  (x.slot id).map fun
    | .owning .. => id
    | .affiliate base => base

/-- The value an id belongs to. -/
def mainValue (x : ObjectTable V) (id : ObjectId) : Except (ObjectError V) V :=
  match x.mainId id with
  | .error e => .error e
  | .ok main =>
    match x.slot main with
    | .error e => .error e
    | .ok (.owning value _) => .ok value
    | .ok (.affiliate _) => .error (.notABase main)

/-- The memory of an allocation site: the first object it owns, or the site itself if
it owns none. -/
def storage (x : ObjectTable V) (base : ObjectId) : Except (ObjectError V) ObjectId :=
  match x.affiliated base 1 with
  | .error (.affiliatedOverflow _ _ 0) => .ok base
  | answer => answer

variable [DecidableEq V]

/-- The id of a value. -/
def find? (x : ObjectTable V) (v : V) : Option ObjectId := x.ids.lookup v

def contains (x : ObjectTable V) (v : V) : Bool := (x.find? v).isSome

/-- The id of a value, which must be registered. -/
def idOf (x : ObjectTable V) (v : V) : Except (ObjectError V) ObjectId :=
  match x.find? v with
  | some id => .ok id
  | none => .error (.unregistered v)

/-- Put a value under an id at the end, and after it the objects it owns. -/
def allocate (x : ObjectTable V) (v : V) (affiliated : Nat) (base : ObjectId) : ObjectTable V :=
  { x with
    slots := x.slots ++ Slot.owning v affiliated :: List.replicate affiliated (.affiliate base)
    ids := (v, base) :: x.ids }

/-- Allocate the next id for a value and `affiliated` more for what it owns. A value
that is registered already keeps what it has. -/
def register (x : ObjectTable V) (v : V) (affiliated : Nat) : ObjectId × ObjectTable V :=
  match x.find? v with
  | some id => (id, x)
  | none => (⟨x.stop⟩, x.allocate v affiliated ⟨x.stop⟩)

/-! ## Ids of 32 bits -/

/-- The notices of a registration. -/
def registerNotices [Describe V] (x : ObjectTable V) (v : V) (affiliated : Nat) : List Notice :=
  if x.contains v then []
  else
    let base := ObjectId.wrap ⟨x.stop⟩
    [⟨.trace, s!"Registered {describe v} as {base.text} (+{affiliated} affiliated)"⟩]

end ObjectTable

end PointsTo
