import PointsTo.Toml.Text
import PointsTo.Toml.Value

/-!
# TOML scalars

Truth values, integers in four bases, numbers with a fraction or an exponent, dates
and times. A scalar without quotes is a run of characters, read as a whole: its first
characters decide what kind it is.

An integer need not have a value. In a base other than ten the digits may be missing,
and after an underscore a decimal integer may go on with other characters. Such a text
is well formed, but it is of no use where a number is asked for.
-/

namespace PointsTo.Toml

/-- Digits of a base, with single underscores between them. -/
def digitGroups (digit? : Char → Option Nat) (cs : List Char) : Option (List Nat) :=
  let rec go : List Char → Option (List Nat)
    | [] => some []
    | '_' :: c :: rest => do
      let d ← digit? c
      let ds ← go rest
      some (d :: ds)
    | c :: rest => do
      let d ← digit? c
      let ds ← go rest
      some (d :: ds)
  if cs.head? = some '_' then none else go cs

def digitBelow? (base : Nat) (c : Char) : Option Nat :=
  (hexDigit? c).bind fun d => if d < base then some d else none

def ofDigits (base : Nat) (ds : List Nat) : Nat := ds.foldl (fun n d => base * n + d) 0

/-- An integer in a base other than ten, after its mark. -/
def basedInteger (base : Nat) (cs : List Char) : Option Value :=
  (digitGroups (digitBelow? base) cs).map fun ds =>
    .integer (if ds.isEmpty then none else some (ofDigits base ds))

/-- The value of decimal digits and nothing else. -/
def decimalValue? (negative : Bool) (cs : List Char) : Option Int := do
  let ds ← cs.mapM (digitBelow? 10)
  if ds.isEmpty then none
  else some (if negative then -(ofDigits 10 ds : Int) else (ofDigits 10 ds : Int))

/-- Whether every underscore stands between two digits. -/
def underscoresFit (isDigit : Char → Bool) : List Char → Bool
  | [] => true
  | '_' :: _ => false
  | c :: '_' :: d :: rest => isDigit c && isDigit d && underscoresFit isDigit (d :: rest)
  | _ :: rest => underscoresFit isDigit rest

/-- Read digits and underscores; there has to be a digit. -/
def digitRun (cs : List Char) : Option (List Char × List Char) :=
  let p := fun c : Char => c.isDigit || c == '_'
  if (cs.takeWhile p).any Char.isDigit then some (cs.takeWhile p, cs.dropWhile p) else none

/-- A zero that other digits follow. -/
def hasLeadingZero (cs : List Char) : Bool :=
  cs.head? == some '0' && 1 < (cs.filter Char.isDigit).length

def isExponentMark (c : Char) : Bool := c == 'e' || c == 'E'

/-- The text after a fraction, if there is one. -/
def skipFraction : List Char → Option (List Char)
  | '.' :: rest => (digitRun rest).map (·.2)
  | cs => some cs

/-- The text after an exponent, if there is one. -/
def skipExponent : List Char → Option (List Char)
  | c :: rest =>
    if isExponentMark c then
      let digits := match rest with
        | '+' :: digits => digits
        | '-' :: digits => digits
        | _ => rest
      (digitRun digits).map (·.2)
    else some (c :: rest)
  | [] => some []

/-- Whether the text is a number with a fraction or an exponent, apart from the places
of its underscores. -/
def isFloat (cs : List Char) : Bool :=
  match digitRun cs with
  | none => false
  | some (whole, rest) =>
    !hasLeadingZero whole && (skipFraction rest).bind skipExponent == some []

/-! ## Dates and times -/

/-- Read exactly `count` decimal digits. -/
def fixedDigits (count : Nat) (cs : List Char) : Option (Nat × List Char) := do
  let ds ← (cs.take count).mapM (digitBelow? 10)
  if ds.length = count then some (ofDigits 10 ds, cs.drop count) else none

def expect (c : Char) : List Char → Option (List Char)
  | d :: rest => if c = d then some rest else none
  | [] => none

def daysIn (year month : Nat) : Nat :=
  if month = 2 then
    if year % 4 = 0 ∧ (year % 100 ≠ 0 ∨ year % 400 = 0) then 29 else 28
  else if month = 4 ∨ month = 6 ∨ month = 9 ∨ month = 11 then 30 else 31

/-- The text after a calendar date. -/
def date? (cs : List Char) : Option (List Char) := do
  let (year, cs) ← fixedDigits 4 cs
  let cs ← expect '-' cs
  let (month, cs) ← fixedDigits 2 cs
  let cs ← expect '-' cs
  let (day, cs) ← fixedDigits 2 cs
  if 1 ≤ month ∧ month ≤ 12 ∧ 1 ≤ day ∧ day ≤ daysIn year month then some cs else none

/-- The text after hours and minutes. -/
def hourMinute? (cs : List Char) : Option (List Char) := do
  let (hour, cs) ← fixedDigits 2 cs
  let cs ← expect ':' cs
  let (minute, cs) ← fixedDigits 2 cs
  if hour < 24 ∧ minute < 60 then some cs else none

/-- The text after a time of day; seconds may be left out. -/
def time? (cs : List Char) : Option (List Char) := do
  let cs ← hourMinute? cs
  match cs with
  | ':' :: rest => do
    let (second, rest) ← fixedDigits 2 rest
    if 60 < second then none
    else
      match rest with
      | '.' :: fraction =>
        let rest := fraction.dropWhile Char.isDigit
        if rest.length = fraction.length then none else some rest
      | _ => some rest
  | _ => some cs

/-- Whether the text is the difference to universal time, or nothing. -/
def isOffset : List Char → Bool
  | [] => true
  | ['Z'] => true
  | ['z'] => true
  | '+' :: rest => hourMinute? rest == some []
  | '-' :: rest => hourMinute? rest == some []
  | _ => false

def isDateTime (cs : List Char) : Bool :=
  match date? cs with
  | some [] => true
  | some (c :: rest) =>
    if c = 'T' ∨ c = 't' ∨ c = ' ' then
      match time? rest with
      | some rest => isOffset rest
      | none => false
    else false
  | none => time? cs == some []

/-! ## Scalars -/

/-- What stands between values and never inside a scalar. -/
def isDelimiter (c : Char) : Bool :=
  c == '\n' || c == '\r' || c == '=' || c == ',' || c == '#' ||
    c == '[' || c == ']' || c == '\x7b' || c == '\x7d'

/-- Split off a scalar without quotes. Spaces belong to it if it goes on after them;
it does not go on with a quote. -/
def scalarRun (afterSpace : Bool) : List Char → List Char × List Char
  | [] => ([], [])
  | c :: rest =>
    if isSpace c then
      match scalarRun true rest with
      | ([], _) => ([], c :: rest)
      | (run, rest) => (c :: run, rest)
    else if isDelimiter c || (afterSpace && (c == '\x22' || c == '\x27')) then ([], c :: rest)
    else
      let (run, rest) := scalarRun false rest
      (c :: run, rest)

/-- Split off a sign. -/
def signed : List Char → Option Char × List Char
  | '+' :: rest => (some '+', rest)
  | '-' :: rest => (some '-', rest)
  | cs => (none, cs)

/-- A number in decimal, a date or a time, with the sign split off. What follows the
first digits tells them apart. -/
def decimalOrDate (sign : Option Char) (cs : List Char) : Option Value :=
  let rest := cs.dropWhile Char.isDigit
  match rest with
  | '-' :: _ => if sign.isNone && isDateTime cs then some .date else none
  | ':' :: _ => if sign.isNone && isDateTime cs then some .date else none
  | _ =>
    if rest.contains ' ' then none
    else if rest.any fun c => c == '.' || isExponentMark c then
      if isFloat cs && underscoresFit Char.isDigit cs then some .float else none
    else if cs.isEmpty || (cs.head? == some '0' && 1 < cs.length) then none
    else if rest.isEmpty || rest.head? == some '_' then
      if underscoresFit (fun c => (hexDigit? c).isSome) cs then
        some (.integer (decimalValue? (sign == some '-') (cs.filter (· != '_'))))
      else none
    else none

/-- The value of a scalar without quotes. -/
def scalarOf (cs : List Char) : Option Value :=
  if cs = "true".toList then some (.boolean true)
  else if cs = "false".toList then some (.boolean false)
  else
    match signed cs with
    | (none, '0' :: 'x' :: digits) => basedInteger 16 digits
    | (none, '0' :: 'o' :: digits) => basedInteger 8 digits
    | (none, '0' :: 'b' :: digits) => basedInteger 2 digits
    | (sign, word) =>
      if word = "inf".toList ∨ word = "nan".toList then some .float else decimalOrDate sign word

/-- Read a scalar without quotes. -/
def scalar (cs : List Char) : Option (Value × List Char) :=
  let (run, rest) := scalarRun true cs
  (scalarOf run).map fun v => (v, rest)

end PointsTo.Toml
