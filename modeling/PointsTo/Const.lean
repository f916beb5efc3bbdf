import PointsTo.Decimal
import PointsTo.Text.Quoted
import PointsTo.Ty

/-!
# Constants

Literals, the null pointer, undefined and all-zero values, addresses of symbols,
aggregates, and addresses inside an object. Aggregates and inner addresses name the
constants they are built from, so the constants of a module form a graph.

Two constants are one if they are built alike; floating-point literals are compared
by value and not by spelling.
-/

namespace PointsTo

/-- A constant. -/
inductive Const
  | int (ty : IntType) (value : Int)
  | float (ty : FloatType) (value : Decimal)
  | null
  | undef (ty : TypeId)
  | zero (ty : TypeId)
  | globalAddr (g : GlobalId)
  | functionAddr (f : FunctionId)
  | aggregate (ty : TypeId) (elements : List ConstId)
  | elementAddr (base : ConstId) (ty : TypeId) (indices : List Nat)
  deriving DecidableEq

namespace Const

/-- Whether two constants are the same one. -/
def same : Const → Const → Bool
  | .float t a, .float t' b => t == t' && a.same b
  | a, b => a == b

/-- The constants a constant is built from. -/
def children : Const → List ConstId
  | .aggregate _ elements => elements
  | .elementAddr base _ _ => [base]
  | _ => []

def kind : Const → String
  | .int .. => "int"
  | .float .. => "float"
  | .null => "null"
  | .undef _ => "undef"
  | .zero _ => "zero"
  | .globalAddr _ => "global_addr"
  | .functionAddr _ => "function_addr"
  | .aggregate .. => "aggregate"
  | .elementAddr .. => "element_addr"

/-- The text of a literal: its type and its value. -/
def literalText? : Const → Option String
  | .int t v => some s!"{t.text} {v}"
  | .float t v => some s!"{t.text} {v.text}"
  | _ => none

/-- The type of a constant, known from the constant alone. -/
inductive TypeSource
  | given (id : TypeId)
  | implied (ty : Ty)

/-- Where the type of a constant comes from. Addresses and the null pointer are
pointers. -/
def typeSource : Const → TypeSource
  | .int t _ => .implied (.int t)
  | .float t _ => .implied (.float t)
  | .undef ty => .given ty
  | .zero ty => .given ty
  | .aggregate ty _ => .given ty
  | .null => .implied .ptr
  | .globalAddr _ => .implied .ptr
  | .functionAddr _ => .implied .ptr
  | .elementAddr .. => .implied .ptr

/-- The order of literals of one kind: by type, then by value. -/
def compareLiterals : Const → Const → Ordering
  | .int t a, .int t' b => (compare t t').then (compare a b)
  | .float t a, .float t' b => (compare t t').then (compare a b)
  | _, _ => .eq

/-- The integer literal of a truth value. -/
def ofBool (b : Bool) : Const := .int .i1 (if b then 1 else 0)

end Const

open Text

private def record (name : String) (fields : List String) : String :=
  name ++ " \x7b " ++ ", ".intercalate fields ++ " \x7d"

def FloatType.name : FloatType → String
  | .half => "Fp16"
  | .bfloat => "Bf16"
  | .single => "Fp32"
  | .double => "Fp64"
  | .quad => "Fp128"
  | .x87 => "X86Fp80"

instance : Describe TypeId := ⟨fun t => s!"Typeref({t.index})"⟩
instance : Describe ConstId := ⟨fun c => s!"ConstId({c.index})"⟩
instance : Describe GlobalId := ⟨fun g => s!"GlobalId({g.index})"⟩
instance : Describe FunctionId := ⟨fun f => s!"FunctionId({f.index})"⟩

instance : Describe Decimal := ⟨fun d =>
  let words := bracketed ((Decimal.words d.coefficient.natAbs).map toString)
  s!"BigDecimal(sign={Decimal.signName d.coefficient}, scale={d.scale}, digits={words})"⟩

instance : Describe IntType := ⟨fun t => record "IType" [s!"num_bits: {t.bits}"]⟩

/-- The full account of a constant: its kind and its parts by name. -/
def Const.account : Const → String
  | .int t v =>
    let body := record "IConst" [s!"ty: {describe t}", s!"value: {v}"]
    s!"Int({body})"
  | .float t v =>
    let body := record "FConst" [s!"ty: {t.name}", s!"value: {describe v}"]
    s!"Float({body})"
  | .null => "Null"
  | .undef ty => s!"Undef({describe ty})"
  | .zero ty => s!"Zero({describe ty})"
  | .globalAddr g => s!"GlobalAddr({describe g})"
  | .functionAddr f => s!"FunctionAddr({describe f})"
  | .aggregate ty elements =>
    let inner := bracketed (elements.map describe)
    let body := record "AggregateConst" [s!"ty: {describe ty}", s!"elements: {inner}"]
    s!"Aggregate({body})"
  | .elementAddr base ty indices =>
    let inner := bracketed (indices.map toString)
    let body := record "ElementAddrConst"
      [s!"base: {describe base}", s!"ty: {describe ty}", s!"indices: {inner}"]
    s!"ElementAddr({body})"

instance : Describe Const := ⟨Const.account⟩

end PointsTo
