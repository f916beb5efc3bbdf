/-!
# TOML text: spaces, comments, strings

Readers take the characters at hand and give what they read with the characters
that follow, or nothing if the text is malformed. Readers that repeat carry a bound
on their repetitions, which the length of the input always meets.
-/

namespace PointsTo.Toml

/-- What a reader of `α` does. -/
abbrev Reader (α : Type) := List Char → Option (α × List Char)

def isSpace (c : Char) : Bool := c == ' ' || c == '\t'

def skipSpace (cs : List Char) : List Char := cs.dropWhile isSpace

/-- Characters that may stand in comments and strings: no controls but the tab. -/
def isPlain (c : Char) : Bool := c == '\t' || (0x20 ≤ c.toNat && c.toNat != 0x7f)

/-- The text after a line end, if the text starts with one. -/
def newline? : List Char → Option (List Char)
  | '\n' :: rest => some rest
  | '\r' :: '\n' :: rest => some rest
  | _ => none

/-- The text after a comment, up to the line end. -/
def comment? : List Char → Option (List Char)
  | '#' :: rest => some (rest.dropWhile isPlain)
  | _ => none

/-- Skip spaces, line ends and comments. -/
def skipTrivia : Nat → List Char → List Char
  | 0, cs => cs
  | bound + 1, cs =>
    let cs := skipSpace cs
    match newline? cs with
    | some rest => skipTrivia bound rest
    | none =>
      match comment? cs with
      | some rest => skipTrivia bound rest
      | none => cs

/-- Skip spaces and one comment, and the line end that then has to follow unless the
text is over. -/
def endOfLine (cs : List Char) : Option (List Char) :=
  let cs := skipSpace cs
  let cs := (comment? cs).getD cs
  if cs.isEmpty then some [] else newline? cs

/-! ## Strings -/

def hexDigit? (c : Char) : Option Nat :=
  if '0' ≤ c ∧ c ≤ '9' then some (c.toNat - 48)
  else if 'a' ≤ c ∧ c ≤ 'f' then some (c.toNat - 87)
  else if 'A' ≤ c ∧ c ≤ 'F' then some (c.toNat - 55)
  else none

/-- The character named by `count` hexadecimal digits. -/
def codePoint (count : Nat) (cs : List Char) : Option (Char × List Char) := do
  let digits ← (cs.take count).mapM hexDigit?
  if digits.length = count then
    let n := digits.foldl (fun n d => 16 * n + d) 0
    if n.isValidChar then some (Char.ofNat n, cs.drop count) else none
  else none

/-- The character an escape stands for, after the backslash. -/
def escape : Reader Char
  | 'b' :: rest => some ('\x08', rest)
  | 't' :: rest => some ('\t', rest)
  | 'n' :: rest => some ('\n', rest)
  | 'f' :: rest => some ('\x0c', rest)
  | 'r' :: rest => some ('\r', rest)
  | 'e' :: rest => some ('\x1b', rest)
  | '\x22' :: rest => some ('\x22', rest)
  | '\x5c' :: rest => some ('\x5c', rest)
  | 'x' :: rest => codePoint 2 rest
  | 'u' :: rest => codePoint 4 rest
  | 'U' :: rest => codePoint 8 rest
  | _ => none

/-- The rest of a one-line string with escapes, after the opening quote. -/
def basicBody : Nat → Reader (List Char)
  | 0, _ => none
  | bound + 1, cs =>
    match cs with
    | [] => none
    | '\x22' :: rest => some ([], rest)
    | '\x5c' :: rest => do
      let (c, rest) ← escape rest
      let (body, rest) ← basicBody bound rest
      some (c :: body, rest)
    | c :: rest =>
      if isPlain c then (basicBody bound rest).map fun (body, rest) => (c :: body, rest) else none

/-- The rest of a one-line string without escapes. -/
def literalBody (cs : List Char) : Option (List Char × List Char) :=
  let p := fun c => isPlain c && c != '\x27'
  match cs.dropWhile p with
  | '\x27' :: rest => some (cs.takeWhile p, rest)
  | _ => none

/-- Skip spaces and line ends, after a backslash at the end of a line. -/
def skipFold : List Char → List Char
  | [] => []
  | '\r' :: '\n' :: rest => skipFold rest
  | c :: rest => if isSpace c || c == '\n' then skipFold rest else c :: rest

/-- Whether only spaces stand before the next line end. -/
def foldsLine (cs : List Char) : Bool := (newline? (skipSpace cs)).isSome

/-- Quotes at the end of a string of several lines: the last three close it, and up to
two before them belong to it. Fewer than three close nothing. -/
def closing? (quote : Char) (cs : List Char) : Option (List Char × List Char) :=
  let run := (cs.takeWhile (· == quote)).length
  if run < 3 then none else some (List.replicate (min run 5 - 3) quote, cs.drop (min run 5))

/-- The rest of a string of several lines, with escapes or without. -/
def multilineBody (quote : Char) (escapes : Bool) : Nat → Reader (List Char)
  | 0, _ => none
  | bound + 1, cs =>
    match closing? quote cs with
    | some found => some found
    | none =>
      let keep (c : Char) (rest : List Char) : Option (List Char × List Char) :=
        (multilineBody quote escapes bound rest).map fun (body, rest) => (c :: body, rest)
      match cs with
      | [] => none
      | '\n' :: rest => keep '\n' rest
      | '\r' :: rest => if rest.head? = some '\n' then keep '\r' rest else none
      | c :: rest =>
        if escapes && c == '\x5c' then
          if foldsLine rest then multilineBody quote escapes bound (skipFold rest)
          else (escape rest).bind fun (c, rest) => keep c rest
        else if isPlain c then keep c rest
        else none

/-- A string of several lines after its opening quotes; a line end right there is not
part of it. -/
def multiline (quote : Char) (escapes : Bool) (cs : List Char) : Option (List Char × List Char) :=
  multilineBody quote escapes (cs.length + 1) ((newline? cs).getD cs)

/-- A string on one line. -/
def lineString : Reader String
  | '\x22' :: rest =>
    (basicBody (rest.length + 1) rest).map fun (s, rest) => (String.ofList s, rest)
  | '\x27' :: rest => (literalBody rest).map fun (s, rest) => (String.ofList s, rest)
  | _ => none

/-- A string of any kind. -/
def string : Reader String
  | '\x22' :: '\x22' :: '\x22' :: rest =>
    (multiline '\x22' true rest).map fun (s, rest) => (String.ofList s, rest)
  | '\x27' :: '\x27' :: '\x27' :: rest =>
    (multiline '\x27' false rest).map fun (s, rest) => (String.ofList s, rest)
  | cs => lineString cs

end PointsTo.Toml
