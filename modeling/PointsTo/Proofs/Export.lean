import Mathlib
import PointsTo.Fact.Files
import PointsTo.Proofs.Stores

/-!
# Exported facts can be read back

A reader for the text that a relation is exported as, which knows the columns of the relation
and nothing else. The escapes keep tabs and newlines out of the fields, so lines and fields are
found again by splitting, and each field is read as its column says. Hence stores of one schema
that are exported alike hold the same facts.
-/

namespace PointsTo

/-! ## Reading -/

/-- Undo the escapes of a string: a backslash stands ahead of a `t`, of an `n` or of a
backslash. -/
def unescape? : List Char → Option (List Char)
  | [] => some []
  | '\x5c' :: 't' :: rest => (unescape? rest).map ('\t' :: ·)
  | '\x5c' :: 'n' :: rest => (unescape? rest).map ('\n' :: ·)
  | '\x5c' :: '\x5c' :: rest => (unescape? rest).map ('\x5c' :: ·)
  | c :: rest => if c = '\x5c' then none else (unescape? rest).map (c :: ·)

/-- The term that a field of the column stands for. -/
def Column.read? (field : List Char) : Column → Option Term
  | .object => (String.ofList field).toNat?.map fun n => .object ⟨n⟩
  | .int => (String.ofList field).toInt?.map .int
  | .str => (unescape? field).map fun cs => .str (String.ofList cs)

/-- The terms of the fields, one for each column. -/
def readFields? : List Column → List (List Char) → Option Fact
  | [], [] => some []
  | column :: columns, field :: fields =>
    (column.read? field).bind fun term => (readFields? columns fields).map (term :: ·)
  | _, _ => none

namespace Relation

/-- The fields of a line. The empty line has one field or, without columns, none. -/
def fields (r : Relation) (line : List Char) : List (List Char) :=
  if r.arity = 0 ∧ line = [] then [] else line.splitOn '\t'

def readLine? (r : Relation) (line : List Char) : Option Fact :=
  readFields? r.columns (r.fields line)

end Relation

/-- The lines of a text in which each line is ended by a newline. -/
def lines? (text : List Char) : Option (List (List Char)) :=
  if (text.splitOn '\n').getLast? = some [] then some (text.splitOn '\n').dropLast else none

/-- The facts that the lines of a text stand for. -/
def Relation.readTsv? (r : Relation) (text : String) : Option (List Fact) :=
  (lines? text.toList).bind fun lines => lines.mapM r.readLine?

/-! ## Fields -/

namespace Term

theorem toList_tsv_str (s : String) :
    (Term.str s).tsv.toList = s.toList.flatMap fun c => (tsvChar c).toList := by
  rw [tsv, String.toList_join, List.flatMap_map]

theorem tsvChar_cases (c : Char) :
    (c = '\t' ∧ (tsvChar c).toList = ['\x5c', 't']) ∨
      (c = '\n' ∧ (tsvChar c).toList = ['\x5c', 'n']) ∨
      (c = '\x5c' ∧ (tsvChar c).toList = ['\x5c', '\x5c']) ∨
      (c ≠ '\t' ∧ c ≠ '\n' ∧ c ≠ '\x5c' ∧ (tsvChar c).toList = [c]) := by
  unfold tsvChar
  split_ifs with ht hn hb
  · exact .inl ⟨ht, rfl⟩
  · exact .inr (.inl ⟨hn, rfl⟩)
  · exact .inr (.inr (.inl ⟨hb, rfl⟩))
  · exact .inr (.inr (.inr ⟨ht, hn, hb, String.toList_singleton c⟩))

theorem unescape?_cons {c : Char} (h : c ≠ '\x5c') (rest : List Char) :
    unescape? (c :: rest) = (unescape? rest).map (c :: ·) := by
  rw [unescape?] <;> simp [h]

theorem unescape?_flatMap_tsvChar (cs : List Char) :
    unescape? (cs.flatMap fun c => (tsvChar c).toList) = some cs := by
  induction cs with
  | nil => rfl
  | cons c cs ih =>
    rw [List.flatMap_cons]
    rcases tsvChar_cases c with ⟨rfl, hc⟩ | ⟨rfl, hc⟩ | ⟨rfl, hc⟩ | ⟨-, -, hb, hc⟩
    · rw [hc, List.cons_append, List.cons_append, List.nil_append, unescape?, ih]
      rfl
    · rw [hc, List.cons_append, List.cons_append, List.nil_append, unescape?, ih]
      rfl
    · rw [hc, List.cons_append, List.cons_append, List.nil_append, unescape?, ih]
      rfl
    · rw [hc, List.singleton_append, unescape?_cons hb, ih]
      rfl

/-- Each field is read back as its column says. -/
theorem read?_tsv (t : Term) : t.column.read? t.tsv.toList = some t := by
  cases t with
  | object id =>
    have htext : toString id.index = id.index.repr := rfl
    rw [column, Column.read?, tsv, String.ofList_toList, htext, Nat.toNat?_repr]
    rfl
  | int n =>
    rw [column, Column.read?, tsv, String.ofList_toList, show toString n = n.repr from rfl,
      Int.toInt?_repr]
    rfl
  | str s => simp [column, Column.read?, toList_tsv_str, unescape?_flatMap_tsvChar]

/-- The character ends neither a field nor a line. -/
def Inner (c : Char) : Prop := c ≠ '\t' ∧ c ≠ '\n'

theorem inner_of_mem_repr {n : Nat} {c : Char} (h : c ∈ n.repr.toList) : Inner c := by
  rw [Nat.toList_repr] at h
  have hdigit := Nat.isDigit_of_mem_toDigits (by decide) (le_refl 10) h
  constructor <;> rintro rfl <;> exact absurd hdigit (by decide)

/-- Neither a tab nor a newline is left in a field. -/
theorem inner_of_mem_tsv {t : Term} {c : Char} (h : c ∈ t.tsv.toList) : Inner c := by
  cases t with
  | object id => exact inner_of_mem_repr h
  | int n =>
    cases n with
    | ofNat n => exact inner_of_mem_repr h
    | negSucc n =>
      change c ∈ ("-" ++ (n + 1).repr).toList at h
      rw [String.toList_append, List.mem_append] at h
      rcases h with h | h
      · obtain rfl : c = '-' := by simpa using h
        exact ⟨by decide, by decide⟩
      · exact inner_of_mem_repr h
  | str s =>
    rw [toList_tsv_str, List.mem_flatMap] at h
    obtain ⟨a, -, h⟩ := h
    rcases tsvChar_cases a with ⟨-, ha⟩ | ⟨-, ha⟩ | ⟨-, ha⟩ | ⟨ht, hn, -, ha⟩
    · rw [ha] at h
      rcases List.mem_pair.1 h with rfl | rfl <;> exact ⟨by decide, by decide⟩
    · rw [ha] at h
      rcases List.mem_pair.1 h with rfl | rfl <;> exact ⟨by decide, by decide⟩
    · rw [ha] at h
      rcases List.mem_pair.1 h with rfl | rfl <;> exact ⟨by decide, by decide⟩
    · rw [ha, List.mem_singleton] at h
      exact h ▸ ⟨ht, hn⟩

end Term

/-! ## Lines -/

section Intercalate

variable {α : Type} {x a : α}

theorem mem_intercalate_singleton :
    ∀ {parts : List (List α)}, a ∈ [x].intercalate parts → a = x ∨ ∃ p ∈ parts, a ∈ p
  | [], h => by simp at h
  | [p], h => .inr ⟨p, List.mem_singleton_self p, by simpa using h⟩
  | p :: q :: parts, h => by
    rw [List.intercalate_cons_cons, List.mem_append, List.mem_append, List.mem_singleton] at h
    rcases h with (h | h) | h
    · exact .inr ⟨p, List.mem_cons_self, h⟩
    · exact .inl h
    · refine (mem_intercalate_singleton h).imp_right fun hrest => ?_
      obtain ⟨part, hpart, ha⟩ := hrest
      exact ⟨part, List.mem_cons_of_mem _ hpart, ha⟩

theorem count_intercalate_singleton [DecidableEq α] :
    ∀ {parts : List (List α)}, (∀ p ∈ parts, x ∉ p) →
      ([x].intercalate parts).count x = parts.length - 1
  | [], _ => rfl
  | [p], h => by simpa [List.count_eq_zero] using h p
  | p :: q :: parts, h => by
    obtain ⟨hp, hrest⟩ := List.forall_mem_cons.1 h
    rw [List.intercalate_cons_cons, List.count_append, List.count_append,
      count_intercalate_singleton hrest, List.count_eq_zero.2 hp]
    simp
    omega

/-- Pieces that are each ended by a separator are all found again by splitting. -/
theorem splitOn_flatMap_ended [DecidableEq α] {parts : List (List α)} (h : ∀ p ∈ parts, x ∉ p) :
    (parts.flatMap (· ++ [x])).splitOn x = parts ++ [[]] := by
  have heq : parts.flatMap (· ++ [x]) = [x].intercalate (parts ++ [[]]) := by
    induction parts with
    | nil => rfl
    | cons p parts ih =>
      rw [List.flatMap_cons, List.cons_append, List.intercalate_cons_of_ne_nil (by simp),
        ih (List.forall_mem_cons.1 h).2]
  rw [heq]
  refine List.splitOn_intercalate x ?_ (by simp)
  exact List.forall_mem_append.2 ⟨h, by simp⟩

end Intercalate

namespace Fact

/-- The row of a fact without its newline. -/
def line (fact : Fact) : List Char := ['\t'].intercalate (fact.map (·.tsv.toList))

theorem toList_tsv (fact : Fact) : fact.tsv.toList = fact.line ++ ['\n'] := by
  simp [Fact.tsv, line, String.toList_intercalate, List.map_map, Function.comp_def]

theorem newline_notMem_line (fact : Fact) : '\n' ∉ fact.line := by
  intro h
  rcases mem_intercalate_singleton h with h | ⟨field, hfield, h⟩
  · exact absurd h (by decide)
  · obtain ⟨t, -, rfl⟩ := List.mem_map.1 hfield
    exact (Term.inner_of_mem_tsv h).2 rfl

theorem tab_notMem_field (fact : Fact) : ∀ field ∈ fact.map (·.tsv.toList), '\t' ∉ field := by
  intro field hfield h
  obtain ⟨t, -, rfl⟩ := List.mem_map.1 hfield
  exact (Term.inner_of_mem_tsv h).1 rfl

theorem readFields?_tsv (fact : Fact) :
    readFields? (fact.map Term.column) (fact.map (·.tsv.toList)) = some fact := by
  induction fact with
  | nil => rfl
  | cons t fact ih =>
    rw [List.map_cons, List.map_cons, readFields?, Term.read?_tsv, ih]
    rfl

end Fact

namespace Relation

/-- The line stands for the fact: it has no newline, one tab fewer than there are columns, and
fields that are read as the terms of the fact. -/
structure Line (r : Relation) (line : List Char) (fact : Fact) : Prop where
  newline : '\n' ∉ line
  tabs : line.count '\t' = r.arity - 1
  reads : r.readLine? line = some fact

variable {r : Relation} {fact : Fact} {facts : List Fact}

theorem fields_line (h : fact.map Term.column = r.columns) :
    r.fields fact.line = fact.map (·.tsv.toList) := by
  have hlength : fact.length = r.arity := by rw [arity, ← h, List.length_map]
  cases fact with
  | nil =>
    rw [fields, if_pos ⟨hlength.symm, rfl⟩]
    rfl
  | cons t fact =>
    rw [fields, if_neg fun hnone => by simp [← hlength] at hnone]
    exact List.splitOn_intercalate '\t' (Fact.tab_notMem_field _) (by simp)

theorem line_of_columns (h : fact.map Term.column = r.columns) : r.Line fact.line fact where
  newline := fact.newline_notMem_line
  tabs := by
    rw [Fact.line, count_intercalate_singleton fact.tab_notMem_field, List.length_map, arity, ← h,
      List.length_map]
  reads := by rw [readLine?, fields_line h, ← h, Fact.readFields?_tsv]

/-- The text is made of ended lines, one for each fact. -/
def Lists (r : Relation) (text : String) (facts : List Fact) : Prop :=
  ∃ lines, text.toList = lines.flatMap (· ++ ['\n']) ∧ List.Forall₂ r.Line lines facts

theorem lists_of_columns (h : ∀ fact ∈ facts, fact.map Term.column = r.columns) :
    r.Lists (String.join (facts.map Fact.tsv)) facts := by
  refine ⟨facts.map Fact.line, ?_, ?_⟩
  · rw [String.toList_join, List.flatMap_map, List.flatMap_map]
    exact List.flatMap_congr fun fact _ => fact.toList_tsv
  · rw [List.forall₂_map_left_iff, List.forall₂_same]
    exact fun fact hfact => line_of_columns (h fact hfact)

theorem mapM_readLine? {lines : List (List Char)} (h : List.Forall₂ r.Line lines facts) :
    lines.mapM r.readLine? = some facts := by
  induction h with
  | nil => rfl
  | cons hline _ ih =>
    rw [List.mapM_cons, hline.reads, ih]
    rfl

/-- A text is read as the facts it lists. -/
theorem Lists.readTsv? {text : String} (h : r.Lists text facts) :
    r.readTsv? text = some facts := by
  obtain ⟨lines, htext, hlines⟩ := h
  have hnewline : ∀ line ∈ lines, '\n' ∉ line := by
    clear htext
    induction hlines with
    | nil => simp
    | cons hline _ ih => exact List.forall_mem_cons.2 ⟨hline.newline, ih⟩
  have hlines? : lines? text.toList = some lines := by
    rw [lines?, htext, splitOn_flatMap_ended hnewline, if_pos (by simp), List.dropLast_concat]
  rw [Relation.readTsv?, hlines?, Option.bind_some, mapM_readLine? hlines]

end Relation

/-! ## Stores -/

namespace FactStore

variable {schema : Schema} {calls : List Entry} {name : String} {fact : Fact}

theorem exists_declared_of_mem_relation
    (h : fact ∈ ((new schema).appendAll calls).relation name) :
    ∃ r, schema.get? name = some r ∧ r.name = name ∧ fact.map Term.column = r.columns := by
  rw [appendAll_eq_foldl_record] at h
  exact (holds_foldl_record schema fun e he =>
    of_decide_eq_true (List.mem_filter.1 he).2).fits name fact h

theorem relation_eq_nil_of_undeclared (h : ¬ ∃ r, schema.get? name = some r ∧ r.name = name) :
    ((new schema).appendAll calls).relation name = [] := by
  rw [List.eq_nil_iff_forall_not_mem]
  intro fact hfact
  obtain ⟨r, hr, hname, -⟩ := exists_declared_of_mem_relation hfact
  exact h ⟨r, hr, hname⟩

theorem lists_tsv {r : Relation} (hr : schema.get? name = some r) :
    r.Lists (((new schema).appendAll calls).tsv name)
      (((new schema).appendAll calls).relation name) := by
  refine Relation.lists_of_columns fun fact hfact => ?_
  obtain ⟨r', hr', -, hcolumns⟩ := exists_declared_of_mem_relation hfact
  rw [hr] at hr'
  cases hr'
  exact hcolumns

theorem relation_eq_of_tsv_eq {others : List Entry}
    (h : ∀ r ∈ schema.toList, ((new schema).appendAll calls).tsv r.name =
      ((new schema).appendAll others).tsv r.name) (name : String) :
    ((new schema).appendAll calls).relation name =
      ((new schema).appendAll others).relation name := by
  by_cases hdeclared : ∃ r, schema.get? name = some r ∧ r.name = name
  · obtain ⟨r, hr, rfl⟩ := hdeclared
    have hread (calls : List Entry) : r.readTsv? (((new schema).appendAll calls).tsv r.name) =
        some (((new schema).appendAll calls).relation r.name) := (lists_tsv hr).readTsv?
    have hboth := hread calls
    rw [h r (List.mem_map_of_mem (Table.get?_eq_some_iff.1 hr)), hread others] at hboth
    exact (Option.some.inj hboth).symm
  · rw [relation_eq_nil_of_undeclared hdeclared, relation_eq_nil_of_undeclared hdeclared]

/-- A relation whose name has no slash has a file of its own. -/
theorem fileOfPath?_path {r : Relation} (h : '/' ∉ r.name.toList) :
    fileOfPath? r.path = some r.path := by
  refine fileOfPath?_of_slash_notMem ?_
  have hpath : r.path.toList = r.name.toList ++ ".facts".toList := by
    simp [Relation.path, toString]
  rw [hpath, List.mem_append]
  exact not_or_intro h (by decide)

theorem path_inj {r r' : Relation} (h : r.path = r'.path) : r.name = r'.name := by
  simpa [Relation.path, toString] using h

section Files

variable (s : FactStore) {relations : List Relation} {r : Relation}

theorem get?_writeFile (files : Table String String) {r' : Relation}
    (h : '/' ∉ r'.name.toList) :
    (s.writeFile files r').get? r.path =
      if r.name = r'.name then some (s.tsv r.name) else files.get? r.path := by
  rw [writeFile, fileOfPath?_path h]
  split_ifs with hname
  · have hpath : r.path = r'.path := by rw [Relation.path, hname, Relation.path]
    rw [hpath, hname]
    exact Table.get?_insert_self _ _ _
  · exact Table.get?_insert_of_ne _ (fun hpath => hname (path_inj hpath)) _

/-- What is written later over the file of a relation is the same text. -/
theorem get?_foldl_writeFile (h : ∀ r' ∈ relations, '/' ∉ r'.name.toList)
    (files : Table String String) :
    (relations.foldl s.writeFile files).get? r.path =
      if ∃ r' ∈ relations, r'.name = r.name then some (s.tsv r.name) else files.get? r.path := by
  induction relations generalizing files with
  | nil => simp
  | cons r' rest ih =>
    obtain ⟨hr', hrest⟩ := List.forall_mem_cons.1 h
    rw [List.foldl_cons, ih hrest, get?_writeFile s files hr']
    by_cases hname : r'.name = r.name
    · simp [hname]
    · simp [hname, Ne.symm hname]

end Files

/-- The text that a store is exported as gives back its facts. For each declared relation it
has one ended line for each fact, with one tab fewer than columns and with fields that are read
as the terms, so the whole text is read as the facts in order. Stores of one schema with equal
texts for the declared relations hold equal facts, and so do stores that are written to equal
files, as long as no name holds a slash. -/
theorem tsv_determines_facts (schema : Schema) (calls : List Entry) :
    (∀ name r, schema.get? name = some r →
      r.Lists (((new schema).appendAll calls).tsv name)
          (((new schema).appendAll calls).relation name) ∧
        r.readTsv? (((new schema).appendAll calls).tsv name) =
          some (((new schema).appendAll calls).relation name)) ∧
      (∀ others, (∀ r ∈ schema.toList, ((new schema).appendAll calls).tsv r.name =
          ((new schema).appendAll others).tsv r.name) →
        ∀ name, ((new schema).appendAll calls).relation name =
          ((new schema).appendAll others).relation name) ∧
      ∀ others, (∀ r ∈ schema.toList, '/' ∉ r.name.toList) →
        ((new schema).appendAll calls).files = ((new schema).appendAll others).files →
        ∀ name, ((new schema).appendAll calls).relation name =
          ((new schema).appendAll others).relation name := by
  refine ⟨fun name r hr => ⟨lists_tsv hr, (lists_tsv hr).readTsv?⟩,
    fun others => relation_eq_of_tsv_eq,
    fun others hslash hfiles => relation_eq_of_tsv_eq fun r hr => ?_⟩
  have hfile (calls : List Entry) : ((new schema).appendAll calls).files.get? r.path =
      some (((new schema).appendAll calls).tsv r.name) := by
    have hschema : ((new schema).appendAll calls).schema = schema := schema_appendAll _ _
    rw [files, hschema, get?_foldl_writeFile _ hslash, if_pos ⟨r, hr, rfl⟩]
  have hboth := hfile calls
  rw [hfiles, hfile others] at hboth
  exact (Option.some.inj hboth).symm

/-- A relation of a text and a number. -/
def note : Relation := ⟨"note", [.str, .int]⟩

/-- Calls that append two notes and, between them, one that is refused. -/
def noteCalls : List Entry :=
  [⟨note, [.str "a\tb", .int (-3)]⟩, ⟨note, [.str "\\t"]⟩, ⟨note, [.str "\\t\n", .int 0]⟩]

theorem tsv_determines_facts_of_note :
    (Schema.empty.declare note).get? "note" = some note ∧
      note.readTsv? (((new (Schema.empty.declare note)).appendAll noteCalls).tsv "note") =
        some [[.str "a\tb", .int (-3)], [.str "\\t\n", .int 0]] ∧
      ((new (Schema.empty.declare note)).appendAll noteCalls).files =
        ((new (Schema.empty.declare note)).appendAll (noteCalls.eraseIdx 1)).files ∧
      ∀ name, ((new (Schema.empty.declare note)).appendAll noteCalls).relation name =
        ((new (Schema.empty.declare note)).appendAll (noteCalls.eraseIdx 1)).relation name := by
  have hfiles : ((new (Schema.empty.declare note)).appendAll noteCalls).files =
      ((new (Schema.empty.declare note)).appendAll (noteCalls.eraseIdx 1)).files := by
    have hfilter : noteCalls.filter ((new (Schema.empty.declare note)).schema.Admits ·) =
        (noteCalls.eraseIdx 1).filter ((new (Schema.empty.declare note)).schema.Admits ·) := by
      decide +kernel
    rw [appendAll_eq_foldl_record, appendAll_eq_foldl_record, hfilter]
  refine ⟨by decide +kernel, ?_, hfiles, ?_⟩
  · exact ((tsv_determines_facts _ _).1 "note" note (by decide +kernel)).2.trans
      (by decide +kernel)
  · exact (tsv_determines_facts _ _).2.2 _ (by decide +kernel) hfiles

end FactStore

end PointsTo
