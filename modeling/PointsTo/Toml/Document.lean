import PointsTo.Toml.Scalar

/-!
# TOML documents

Keys, values that hold values, and lines. `Toml.parse?` reads a document into the
entries of its root table.
-/

namespace PointsTo.Toml

def isBare (c : Char) : Bool := c.isAlphanum || c == '_' || c == '-'

/-- One part of a key. -/
def simpleKey (cs : List Char) : Option (String × List Char) :=
  match lineString cs with
  | some found => some found
  | none =>
    let word := cs.takeWhile isBare
    if word.isEmpty then none else some (String.ofList word, cs.dropWhile isBare)

/-- Read at most `count` parts of a key, with dots between them. -/
def keyParts : Nat → Reader (List String)
  | 0, _ => none
  | count + 1, cs => do
    let (part, cs) ← simpleKey (skipSpace cs)
    match skipSpace cs with
    | '.' :: rest => do
      let (parts, rest) ← keyParts count rest
      some (part :: parts, rest)
    | rest => some ([part], rest)

/-- How many parts a key may have. -/
def maxKeyParts : Nat := 80

/-- Read a key. -/
def key : Reader (List String) := keyParts maxKeyParts

/-- How deep lists and tables in braces may be nested. -/
def maxDepth : Nat := 80

mutual

/-- Read a value in which `depth` levels of lists and tables may be nested. -/
def value : Nat → Nat → Reader Value
  | 0, _, _ => none
  | bound + 1, depth, cs =>
    match cs, depth with
    | '[' :: _, 0 => none
    | '[' :: rest, depth + 1 =>
      (items bound depth rest).map fun (vs, rest) => (.array false vs, rest)
    | '\x7b' :: _, 0 => none
    | '\x7b' :: rest, depth + 1 =>
      (members bound depth [] rest).map fun (es, rest) => (.table .inline es, rest)
    | '\x22' :: _, _ => (string cs).map fun (s, rest) => (.string s, rest)
    | '\x27' :: _, _ => (string cs).map fun (s, rest) => (.string s, rest)
    | _, _ => scalar cs

/-- The rest of a list; a comma may follow the last item. -/
def items : Nat → Nat → Reader (List Value)
  | 0, _, _ => none
  | bound + 1, depth, cs =>
    match skipTrivia bound cs with
    | ']' :: rest => some ([], rest)
    | cs => do
      let (v, cs) ← value bound depth cs
      match skipTrivia bound cs with
      | ',' :: rest => do
        let (vs, rest) ← items bound depth rest
        some (v :: vs, rest)
      | ']' :: rest => some ([v], rest)
      | _ => none

/-- The rest of a table in braces, after the entries `es`. Line ends and comments may
stand anywhere but inside a key; a comma may follow the last entry. -/
def members : Nat → Nat → Entries → Reader Entries
  | 0, _, _, _ => none
  | bound + 1, depth, es, cs =>
    match skipTrivia bound cs with
    | '\x7d' :: rest => some (es, rest)
    | cs => do
      let (path, cs) ← key cs
      let cs ← expect '=' (skipTrivia bound cs)
      let (v, cs) ← value bound depth (skipTrivia bound cs)
      let es ← es.addPair v path
      match skipTrivia bound cs with
      | ',' :: rest => members bound depth es rest
      | '\x7d' :: rest => some (es, rest)
      | _ => none

end

/-- The path of a header, after its opening bracket. -/
def headerPath (cs : List Char) : Option (List String × List Char) := do
  let (path, cs) ← key cs
  let cs ← expect ']' cs
  some (path, cs)

/-- A line that is not blank. -/
def statement (bound : Nat) (cs : List Char) : Option (Statement × List Char) :=
  match cs with
  | '[' :: '[' :: rest => do
    let (path, cs) ← headerPath rest
    let cs ← expect ']' cs
    some (.listHeader path, cs)
  | '[' :: rest => (headerPath rest).map fun (path, cs) => (.header path, cs)
  | _ => do
    let (path, cs) ← key cs
    let cs ← expect '=' cs
    let (v, cs) ← value bound maxDepth (skipSpace cs)
    some (.pair path v, cs)

/-- The lines of a document. -/
def statements : Nat → List Char → Option (List Statement)
  | 0, cs => if (skipTrivia (cs.length + 1) cs).isEmpty then some [] else none
  | bound + 1, cs =>
    match skipTrivia (bound + 1) cs with
    | [] => some []
    | cs => do
      let (s, cs) ← statement (cs.length + 1) cs
      let cs ← endOfLine cs
      let rest ← statements bound cs
      some (s :: rest)

/-- A byte order mark at the start is not part of the text. -/
def dropMark : List Char → List Char
  | c :: rest => if c.toNat = 0xfeff then rest else c :: rest
  | [] => []

/-- The entries of the root table of a document. -/
def parse? (source : String) : Option Entries :=
  let cs := dropMark source.toList
  (statements (cs.length + 1) cs).bind (Entries.build [] [])

end PointsTo.Toml
