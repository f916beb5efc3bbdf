/-!
# Decimal numbers of any size

A decimal is an integer coefficient and a scale: `coefficient * 10 ^ (-scale)`.
Nothing is normalised, so one number has many spellings, and spellings are kept.
Numbers are compared by value. `Decimal.text` writes a spelling, `Decimal.parse?`
reads one, and `Decimal.ofDouble` is the exact value of a double.
-/

namespace PointsTo

/-- The number `coefficient * 10 ^ (-scale)`, in one of its spellings. -/
structure Decimal where
  coefficient : Int
  scale : Int
  deriving DecidableEq

namespace Decimal

/-- The decimal digits of a natural number; zero has one. -/
def digits (n : Nat) : List Char := Nat.toDigits 10 n

/-- The power of ten of the leading digit of a nonzero number. -/
def leading (d : Decimal) : Int := (digits d.coefficient.natAbs).length - 1 - d.scale

/-- Compare absolute values of two nonzero numbers. Only numbers that lead with the
same power of ten are brought to a common scale, so no step is larger than the
coefficients. -/
def compareAbs (a b : Decimal) : Ordering :=
  (compare a.leading b.leading).then
    (compare (a.coefficient.natAbs * Nat.pow 10 (b.scale - a.scale).toNat)
      (b.coefficient.natAbs * Nat.pow 10 (a.scale - b.scale).toNat))

/-- Compare by value. -/
protected def compare (a b : Decimal) : Ordering :=
  (compare a.coefficient.sign b.coefficient.sign).then
    (match a.coefficient.sign with
    | 0 => .eq
    | .ofNat _ => compareAbs a b
    | .negSucc _ => compareAbs b a)

instance : Ord Decimal := ⟨Decimal.compare⟩

/-- Whether two spellings name one number. -/
def same (a b : Decimal) : Bool := Decimal.compare a b == .eq

/-- How numbers are written: how many zeros may stand right after the point, and how
many may be appended to the digits, before an exponent is used. -/
structure Format where
  leadingZeros : Int
  trailingZeros : Int

/-- Up to five zeros after the point and up to fifteen at the end. -/
def format : Format := ⟨5, 15⟩

/-- The digits of a number below one with an exponent: `d.dddE-x`. -/
def scientific (d : Decimal) : String :=
  match digits d.coefficient.natAbs with
  | [] => ""
  | first :: rest =>
    let point := if rest.isEmpty then "" else "."
    first.toString ++ point ++ String.ofList rest ++ s!"E{d.leading}"

/-- The digits with `scale` of them after the point. -/
def fixed (ds : List Char) (scale : Nat) : String :=
  if scale < ds.length then
    String.ofList (ds.take (ds.length - scale)) ++ "." ++
      String.ofList (ds.drop (ds.length - scale))
  else "0." ++ String.ofList (List.replicate (scale - ds.length) '0' ++ ds)

/-- The text of the absolute value of a nonzero number. -/
def absText (d : Decimal) : String :=
  let ds := digits d.coefficient.natAbs
  if d.scale - ds.length > format.leadingZeros then d.scientific
  else if -d.scale > format.trailingZeros then String.ofList ds ++ s!"e+{-d.scale}"
  else if d.scale > 0 then fixed ds d.scale.toNat
  else String.ofList (ds ++ List.replicate (-d.scale).toNat '0')

/-- The text of a number. Every spelling of zero is written `0`. -/
def text (d : Decimal) : String :=
  if d.coefficient = 0 then "0"
  else if d.coefficient < 0 then "-" ++ d.absText
  else d.absText

/-- One more than the largest 64-bit word. -/
def wordBase : Nat := 18446744073709551616

/-- The 64-bit words of a natural number, least significant first, none for zero. -/
def words : Nat → List Nat
  | 0 => []
  | n + 1 => (n + 1) % wordBase :: words ((n + 1) / wordBase)
decreasing_by exact Nat.div_lt_self n.succ_pos (by decide)

/-- The sign of a coefficient, in words. -/
def signName (n : Int) : String :=
  if n = 0 then "NoSign" else if n < 0 then "Minus" else "Plus"

/-- The value of a digit and what may follow it: digits, and underscores that count for
nothing. -/
def readDigits (cs : List Char) : Option Nat :=
  let digits := cs.filter (· != '_')
  if digits.all Char.isDigit && (cs.head?.map Char.isDigit).getD false then
    some (digits.foldl (fun n c => 10 * n + (c.toNat - 48)) 0)
  else none

/-- Read an optional sign and one digit or more. -/
def readInt : List Char → Option Int
  | '-' :: rest => (readDigits rest).map fun n => -(n : Int)
  | '+' :: rest => (readDigits rest).map fun n => (n : Int)
  | cs => (readDigits cs).map fun n => (n : Int)

/-- Split at the first character that satisfies `p`, which is left out. -/
def splitAtFirst (p : Char → Bool) (cs : List Char) : List Char × Option (List Char) :=
  match cs.dropWhile fun c => !p c with
  | [] => (cs, none)
  | _ :: rest => (cs.takeWhile fun c => !p c, some rest)

/-- Read `[+-]digits[.digits][e[+-]digits]`: all digits make the coefficient, and the
scale is the number of digits after the point less the exponent. Either group of digits
around the point may be missing. -/
def parse? (s : String) : Option Decimal := do
  let (mantissa, exponent) := splitAtFirst (fun c => c == 'e' || c == 'E') s.toList
  let exp ← match exponent with
    | none => some 0
    | some cs => if cs.contains '_' then none else readInt cs
  let (whole, fraction) := splitAtFirst (· == '.') mantissa
  let fraction := fraction.getD []
  let n ← readInt (whole ++ fraction)
  some ⟨n, (fraction.filter (· != '_')).length - exp⟩

/-- Take out factors of two, at most `limit` of them, and count them. -/
def halve : Nat → Nat → Nat × Nat
  | 0, n => (n, 0)
  | limit + 1, n =>
    if n % 2 = 0 then
      let (m, k) := halve limit (n / 2)
      (m, k + 1)
    else (n, 0)

/-- The exact value of the double with the given bits. Zeros, infinities and values
that are not numbers are read as zero. -/
def ofDouble (bits : Nat) : Decimal :=
  let negative := bits / Nat.pow 2 63 % 2 = 1
  let exponent := bits / Nat.pow 2 52 % 2048
  let fraction := bits % Nat.pow 2 52
  let signed (n : Nat) : Int := if negative then -(n : Int) else n
  if exponent = 2047 then ⟨0, 0⟩
  else if exponent = 0 then
    if fraction = 0 then ⟨0, 0⟩ else ⟨signed (fraction * Nat.pow 5 1074), 1074⟩
  else
    let significand := Nat.pow 2 52 + fraction
    if 1075 ≤ exponent then ⟨signed (significand * Nat.pow 2 (exponent - 1075)), 0⟩
    else
      let (odd, k) := halve (1075 - exponent) significand
      let places := 1075 - exponent - k
      ⟨signed (odd * Nat.pow 5 places), places⟩

end Decimal

end PointsTo
