import PointsTo.Text.Shown

/-!
# Quoted text

Diagnostics show strings and characters between quotes on one line. The enclosing
quote, the backslash and the usual controls have short escapes; any other character
that is not shown as itself is written by its code point.
-/

namespace PointsTo.Text

/-- The text of a character between quotes of the kind `quote`. -/
def escape (quote c : Char) : String :=
  if c = '\x00' then "\\0"
  else if c = '\t' then "\\t"
  else if c = '\r' then "\\r"
  else if c = '\n' then "\\n"
  else if c = '\x5c' then "\\\\"
  else if c = quote then "\\" ++ quote.toString
  else if isShown c then c.toString
  else "\\u\x7b" ++ String.ofList (Nat.toDigits 16 c.toNat) ++ "\x7d"

/-- A string between double quotes. -/
def quoted (s : String) : String :=
  "\"" ++ String.join (s.toList.map (escape '\x22')) ++ "\""

/-- A character between single quotes. -/
def quotedChar (c : Char) : String :=
  "\x27" ++ escape '\x27' c ++ "\x27"

/-- Items between brackets, separated by commas. -/
def bracketed (items : List String) : String :=
  "[" ++ ", ".intercalate items ++ "]"

/-- Values that diagnostics can show. -/
class Describe (α : Type) where
  describe : α → String

export Describe (describe)

instance : Describe Int := ⟨toString⟩
instance : Describe Char := ⟨quotedChar⟩
instance : Describe String := ⟨quoted⟩

end PointsTo.Text
