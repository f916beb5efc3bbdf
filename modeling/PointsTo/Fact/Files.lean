import PointsTo.Fact.Tsv

/-!
# Fact files

The facts of a store as files of a directory, one for each declared relation. The
name of a relation may be any text, so the name of its file is a path. Paths that
lead to one file share it, and the relation that is written last fills it. A path
that leads out of the directory adds no file to it.
-/

namespace PointsTo

/-- Drop the steps at the start of a path that stay in the directory: a point, and
nothing at all between two slashes. -/
def dropStays (afterSlash : Bool) : List Char → List Char
  | '.' :: '/' :: rest => dropStays true rest
  | '/' :: rest => if afterSlash then dropStays true rest else '/' :: rest
  | cs => cs

/-- The name of the file that a path leads to, if it is in the directory itself. -/
def fileOfPath? (path : String) : Option String :=
  let name := dropStays false path.toList
  if name.contains '/' then none else some (String.ofList name)

/-- Without a slash there are no steps to drop. -/
theorem dropStays_of_slash_notMem {cs : List Char} (h : '/' ∉ cs) :
    dropStays false cs = cs := by
  fun_cases dropStays false cs <;> simp_all

/-- A path without a slash is the name of a file. -/
theorem fileOfPath?_of_slash_notMem {path : String} (h : '/' ∉ path.toList) :
    fileOfPath? path = some path := by
  simp [fileOfPath?, dropStays_of_slash_notMem h, h]

/-- The path of the file of a relation. -/
def Relation.path (r : Relation) : String := s!"{r.name}.facts"

namespace FactStore

/-- Write the file of a relation, over what it held. -/
def writeFile (s : FactStore) (files : Table String String) (r : Relation) :
    Table String String :=
  match fileOfPath? r.path with
  | some name => files.insert name (s.tsv r.name)
  | none => files

/-- The files of the declared relations, also of those without facts, written in the
order of the relations. -/
def files (s : FactStore) : Table String String :=
  s.schema.toList.foldl s.writeFile .empty

/-- The notice that the files were written to a directory. -/
def filesNotice (s : FactStore) (directory : String) : Notice :=
  ⟨.debug, s!"Wrote {s.size} facts for {s.schema.size} relations into {directory}"⟩

end FactStore

end PointsTo
