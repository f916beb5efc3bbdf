import PointsTo.Ident

/-!
# Types

Scalar types, vectors of scalars, code labels, and the two aggregates. Aggregates
name the types they are built from by their ids in a type table. The order of types
is by kind, then by contents.
-/

namespace PointsTo

/-- The largest width of an integer type. -/
def IntType.maxBits : Nat := 8388607

/-- An integer type; signedness belongs to the operations. -/
structure IntType where
  bits : Nat
  one_le : 1 ≤ bits
  le_max : bits ≤ IntType.maxBits
  deriving DecidableEq

namespace IntType

/-- The integer type of a width, if the width is admissible. -/
def ofBits? (n : Nat) : Option IntType :=
  if h : 1 ≤ n ∧ n ≤ maxBits then some ⟨n, h.1, h.2⟩ else none

/-- The integer type whose width is nearest to `n`. -/
def clamp (n : Nat) : IntType :=
  ⟨min (max n 1) maxBits, Nat.le_min.2 ⟨Nat.le_max_right n 1, by decide⟩, Nat.min_le_right _ _⟩

def i1 : IntType := ⟨1, by decide, by decide⟩
def i8 : IntType := ⟨8, by decide, by decide⟩
def i16 : IntType := ⟨16, by decide, by decide⟩
def i32 : IntType := ⟨32, by decide, by decide⟩
def i64 : IntType := ⟨64, by decide, by decide⟩

def text (t : IntType) : String := s!"i{t.bits}"

instance : Ord IntType := ⟨fun a b => compare a.bits b.bits⟩

end IntType

/-- A floating-point type. -/
inductive FloatType
  | half | bfloat | single | double | quad | x87
  deriving DecidableEq, Ord

def FloatType.text : FloatType → String
  | .half => "half"
  | .bfloat => "bfloat"
  | .single => "float"
  | .double => "double"
  | .quad => "fp128"
  | .x87 => "x86_fp80"

/-- What a vector can hold. -/
inductive Scalar
  | int (t : IntType)
  | float (t : FloatType)
  | ptr
  deriving DecidableEq, Ord

def Scalar.text : Scalar → String
  | .int t => t.text
  | .float t => t.text
  | .ptr => "ptr"

/-- A type. Pointers do not say what they point to. -/
inductive Ty
  | int (t : IntType)
  | float (t : FloatType)
  | ptr
  | vector (element : Scalar) (size : Nat)
  | label
  | array (element : TypeId) (length : Nat)
  | struct (fields : List TypeId)
  deriving DecidableEq, Ord

namespace Ty

/-- The types an aggregate is built from. -/
def children : Ty → List TypeId
  | .array element _ => [element]
  | .struct fields => fields
  | _ => []

/-- Whether a value of the type is a pointer, or a vector of pointers. -/
def isPointer : Ty → Bool
  | .ptr => true
  | .vector .ptr _ => true
  | _ => false

/-- The text of a type, given the texts of the types it is built from. -/
def text (child : TypeId → String) : Ty → String
  | .int t => t.text
  | .float t => t.text
  | .ptr => "ptr"
  | .vector element size => s!"<{size} x {element.text}>"
  | .label => "label"
  | .array element length => s!"[{length} x {child element}]"
  | .struct fields => "\x7b " ++ ", ".intercalate (fields.map child) ++ " \x7d"

end Ty

end PointsTo
