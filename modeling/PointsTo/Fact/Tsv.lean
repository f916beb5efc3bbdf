import PointsTo.Fact.Store

/-!
# Facts as tab-separated rows

One line for each fact, its terms separated by tabs. Tabs, newlines and backslashes
inside a string are escaped, so that lines and fields can be told apart.
-/

namespace PointsTo

/-- A character of a string, with separators escaped. -/
def Term.tsvChar (c : Char) : String :=
  if c = '\t' then "\\t"
  else if c = '\n' then "\\n"
  else if c = '\x5c' then "\\\\"
  else c.toString

/-- The field of a term. -/
def Term.tsv : Term → String
  | .object id => toString id.index
  | .int n => toString n
  | .str s => String.join (s.toList.map tsvChar)

/-- The row of a fact. -/
def Fact.tsv (fact : Fact) : String := "\t".intercalate (fact.map Term.tsv) ++ "\n"

namespace FactStore

/-- The rows of a relation. -/
def tsv (s : FactStore) (name : String) : String :=
  String.join ((s.relation name).map Fact.tsv)

end FactStore

end PointsTo
