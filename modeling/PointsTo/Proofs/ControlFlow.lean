import Mathlib
import PointsTo.Proofs.Coverage
import PointsTo.Proofs.PlainRows

/-!
# Successor facts are the control flow graph

The terminator of a block may name a label any number of times, and functions have blocks with
the same labels. The successor facts of a description have one fact for each pair of blocks of
one function that control may take, and they are sorted by the ids of the two blocks. Ids are
given out in layout order before any fact is written, and labels increase along the layout; so
the targets of one block, which are listed by label, are listed by id too.

## Main definitions

* `Module.edges m`: where control may go in a module, in layout order.
* `Extractor.FlowGraph x facts`: the facts are those of the edges, each once and in order.
-/

namespace PointsTo

/-! ## Labels in order -/

theorem Label.index_lt_of_compare {a b : Label} (h : compare a b = .lt) : a.index < b.index :=
  compare_lt_iff_lt.1 (h : compare a.index b.index = .lt)

theorem Label.ordered_pairwise (labels : List Label) :
    (Label.ordered labels).Pairwise fun a b => a.index < b.index :=
  (Table.keys_pairwise _).imp Label.index_lt_of_compare

/-- Blocks lie in the order of their labels. -/
theorem Function.Labelled.blocks_pairwise {f : Function} (h : f.Labelled) :
    f.blocks.Pairwise fun b c => b.label.index < c.label.index := by
  have hkeys := f.body.keys_pairwise
  rw [← h.map_label, List.pairwise_map] at hkeys
  exact hkeys.imp Label.index_lt_of_compare

/-! ## Edges -/

/-- A way that control may take from one block of a function to another. -/
structure Edge where
  function : FunctionId
  source : Label
  target : Label

/-- The row of an edge. -/
def Edge.row (e : Edge) : Row :=
  ⟨.successor, [Value.block e.function e.source, Value.block e.function e.target]⟩

/-- The ways out of a block, each once, in label order. -/
def Block.edges (f : FunctionId) (b : Block) : List Edge :=
  (Label.ordered b.terminator.successors).map (Edge.mk f b.label)

namespace Module

variable {m : Module}

/-- The blocks of all functions, in layout order. -/
def blockList (m : Module) : List (FunctionId × Block) :=
  m.functionList.flatMap fun e => e.2.blocks.map fun b => (e.1, b)

/-- The ways that control may take, block after block. -/
def edges (m : Module) : List Edge := m.blockList.flatMap fun p => p.2.edges p.1

theorem mem_blockList_iff {p : FunctionId × Block} :
    p ∈ m.blockList ↔ ∃ function, m.HasBlock p.1 function p.2 := by
  simp only [blockList, List.mem_flatMap, List.mem_map]
  constructor
  · rintro ⟨e, he, b, hb, rfl⟩
    exact ⟨e.2, he, hb⟩
  · rintro ⟨function, hf, hb⟩
    exact ⟨(p.1, function), hf, p.2, hb, rfl⟩

/-- Edges lead from each block to the labels that its terminator names. -/
theorem mem_edges_iff (hl : m.Labelled) {e : Edge} :
    e ∈ m.edges ↔
      ∃ b, m.block? e.function e.source = some b ∧ e.target ∈ b.terminator.successors := by
  simp only [edges, Block.edges, List.mem_flatMap, List.mem_map, Label.mem_ordered_iff,
    mem_blockList_iff, block?_eq_some_iff hl]
  constructor
  · rintro ⟨p, ⟨function, hb⟩, l, hmem, rfl⟩
    exact ⟨p.2, ⟨function, hb, rfl⟩, hmem⟩
  · rintro ⟨b, ⟨function, hb, hlabel⟩, hmem⟩
    refine ⟨(e.function, b), ⟨function, hb⟩, e.target, hmem, ?_⟩
    simp only [hlabel]

/-- In a checked module, edges end at blocks. -/
theorem Checked.exists_target (hm : m.Checked) {f : FunctionId} {function : Function} {b : Block}
    (hb : m.HasBlock f function b) (hl : m.Labelled) {l : Label}
    (hmem : l ∈ b.terminator.successors) : ∃ c, m.HasBlock f function c ∧ c.label = l := by
  have hcontains := (hm.ssa_of_block hb).labels b hb.mem_blocks l (List.mem_append_right _ hmem)
  obtain ⟨c, hc, hlabel⟩ :=
    (hl function (mem_functions_of_mem hb.mem_functionList)).contains_iff.1 hcontains
  exact ⟨c, ⟨hb.mem_functionList, hc⟩, hlabel⟩

end Module

/-! ## Successor rows -/

namespace Setup

variable {s : Setup} {matched : MatchedCalls}

theorem successor_rows_terminatorOutline (scope : Scope) (label : Label) (t : Terminator) :
    (s.terminatorOutline scope label t).filterMap (Step.row? "successor") =
      successorRows scope.function (.block scope.function label) t := by
  have hrows : ((successorRows scope.function (.block scope.function label) t).map
      Step.row).filterMap (Step.row? "successor") =
        successorRows scope.function (.block scope.function label) t := by
    simp [successorRows, Step.row?, Relation.successor, Function.comp_def]
  have hoperands : (s.operandOutline scope (.terminator scope.function label)
      t.operands).filterMap (Step.row? "successor") = [] := by
    simp [operandOutline, Step.row?, Relation.operand]
  have hcases : (s.caseOutline (.terminator scope.function label) t.operands.length
      t.caseValues).filterMap (Step.row? "successor") = [] := by
    simp [caseOutline, Step.row?, Relation.operand]
  simp only [terminatorOutline, List.cons_append, List.filterMap_cons, List.filterMap_append,
    hrows, hoperands, hcases, rows_returnSteps, List.append_nil, List.nil_append]
  rfl

/-- The successor rows of a plan are those of the edges. -/
theorem successor_rows_plan (hb : s.models.Bundled) :
    (s.plan matched).filterMap (Step.row? "successor") = s.unit.edges.map Edge.row := by
  have hinstr (scope : Scope) (place : Place) (block : Value) (i : Instr) :
      (s.instrOutline matched scope place block i).filterMap (Step.row? "successor") = [] :=
    rows_instrOutline_eq_nil (by decide) (hb.write_ne (by decide)) scope place block i
  have hblock : ∀ (f : FunctionId) (function : Function) (b : Block),
      (s.blockOutline matched (.new f function) b).filterMap (Step.row? "successor") =
        (b.edges f).map Edge.row := by
    intro f function b
    simp only [blockOutline, List.cons_append, List.filterMap_cons, List.filterMap_append,
      List.filterMap_flatMap, hinstr, successor_rows_terminatorOutline,
      Block.edges, List.map_map]
    simp only [Step.row?, Relation.block, successorRows, Scope.new]
    simp [Edge.row, Function.comp_def]
  rw [rows_plan_blocks (by decide), Module.edges, Module.blockList, List.flatMap_assoc,
    List.map_flatMap]
  refine List.flatMap_congr fun e _ => ?_
  rw [List.flatMap_map, List.map_flatMap]
  exact List.flatMap_congr fun b _ => hblock e.1 e.2 b

/-- Blocks are parts, in layout order. -/
theorem blockList_sublist_parts (s : Setup) :
    (s.unit.blockList.map fun p => Value.block p.1 p.2.label).Sublist (s.parts.map Prod.fst) := by
  have hfunction : ∀ e ∈ s.unit.functionList,
      (e.2.blocks.map fun b => Value.block e.1 b.label).Sublist
        ((s.functionParts e.1 e.2).map Prod.fst) := by
    intro e _
    rw [fst_functionParts, List.map_eq_flatMap]
    refine .trans (List.Sublist.flatMap_right _ fun b _ => ?_) (List.sublist_append_right _ _)
    rw [fst_blockParts, List.append_assoc]
    exact List.sublist_append_left _ _
  rw [fst_parts, bodyParts, List.map_flatMap, Module.blockList, List.map_flatMap]
  simp only [List.map_map]
  refine (List.Sublist.flatMap_right _ hfunction).trans ?_
  exact (List.sublist_append_right _ _).trans (List.sublist_append_right _ _)

end Setup

namespace Extractor

variable {x : Extractor} {s : Setup} {types : TypeTable}

/-! ## Ids of blocks -/

/-- Blocks have ids in layout order. -/
theorem Registered.blockList_pairwise (hx : x.Registered) :
    x.setup.unit.blockList.Pairwise fun p q => ∀ i j,
      x.objects.idOf (.block p.1 p.2.label) = .ok i →
      x.objects.idOf (.block q.1 q.2.label) = .ok j → i.index < j.index := by
  have hparts : (x.setup.parts.map Prod.fst).Sublist (x.objects.owners.map Prod.fst) := by
    rw [← hx.parts]
    exact List.filter_sublist.map _
  have hpairs := hx.blocks.owners_pairwise.sublist
    (x.setup.blockList_sublist_parts.trans hparts)
  exact List.pairwise_map.1 hpairs

/-- Of two blocks of a function, the one with the smaller label has the smaller id. -/
theorem Registered.index_lt_of_label (hx : x.Registered) (hl : x.setup.unit.Labelled)
    {f : FunctionId} {function : Function} {b c : Block}
    (hb : x.setup.unit.HasBlock f function b) (hc : x.setup.unit.HasBlock f function c)
    (hlt : b.label.index < c.label.index) {i j : ObjectId}
    (hi : x.objects.idOf (.block f b.label) = .ok i)
    (hj : x.objects.idOf (.block f c.label) = .ok j) : i.index < j.index := by
  have hids : function.blocks.Pairwise fun b c => ∀ i j,
      x.objects.idOf (.block f b.label) = .ok i →
      x.objects.idOf (.block f c.label) = .ok j → i.index < j.index := by
    have hall := hx.blockList_pairwise
    rw [Module.blockList, List.pairwise_flatMap] at hall
    exact List.pairwise_map.1 (hall.1 _ hb.mem_functionList)
  have hlabels := (hl function
    (Module.mem_functions_of_mem hb.mem_functionList)).blocks_pairwise
  -- Both orders run along the layout, so the two blocks lie in it in the order of their labels.
  obtain ⟨n, hn, rfl⟩ := List.mem_iff_getElem.1 hb.mem_blocks
  obtain ⟨k, hk, rfl⟩ := List.mem_iff_getElem.1 hc.mem_blocks
  have hlayout : n < k := by
    by_contra hle
    rcases Nat.lt_or_eq_of_le (Nat.not_lt.1 hle) with hkn | rfl
    · exact absurd (List.pairwise_iff_getElem.1 hlabels k n hk hn hkn) (by omega)
    · exact absurd hlt (lt_irrefl _)
  exact List.pairwise_iff_getElem.1 hids n k hn hk hlayout i j hi hj

theorem Registered.exists_block_id (hx : x.Registered) (hl : x.setup.unit.Labelled)
    {f : FunctionId} {l : Label} {b : Block} (h : x.setup.unit.block? f l = some b) :
    ∃ i, x.objects.idOf (.block f l) = .ok i := by
  obtain ⟨function, hb, rfl⟩ := (Module.block?_eq_some_iff hl).1 h
  obtain ⟨i, hi, -⟩ := hx.exists_slot (Setup.block_mem_parts hb)
  exact ⟨i, hi⟩

/-! ## Successor facts -/

/-- The fact is the pair of the ids of the two blocks. -/
def EdgeFact (x : Extractor) (e : Edge) (fact : Fact) : Prop :=
  ∃ i j, x.objects.idOf (.block e.function e.source) = .ok i ∧
    x.objects.idOf (.block e.function e.target) = .ok j ∧ fact = [.object i, .object j]

/-- Both facts are pairs of objects, and the first pair comes first in lexicographic order. -/
def PairBefore (a b : Fact) : Prop :=
  ∃ i j i' j' : ObjectId, a = [.object i, .object j] ∧ b = [.object i', .object j'] ∧
    (i.index < i'.index ∨ i = i' ∧ j.index < j'.index)

/-- The facts of two edges are in the order of their ids. -/
def EdgeBefore (x : Extractor) (e e' : Edge) : Prop :=
  ∀ a b, x.EdgeFact e a → x.EdgeFact e' b → PairBefore a b

theorem PairBefore.ne {a b : Fact} (h : PairBefore a b) : a ≠ b := by
  obtain ⟨i, j, i', j', rfl, rfl, hlt⟩ := h
  intro heq
  simp only [List.cons.injEq, Term.object.injEq, and_true] at heq
  obtain ⟨rfl, rfl⟩ := heq
  simp at hlt

/-- Edges of different blocks are in the order of the blocks, and edges of one block in the order
of the labels that they lead to. -/
theorem Registered.edges_pairwise (hx : x.Registered) (hl : x.setup.unit.Labelled) :
    x.setup.unit.edges.Pairwise x.EdgeBefore := by
  rw [Module.edges, List.pairwise_flatMap]
  constructor
  · intro p hp
    obtain ⟨function, hb⟩ := Module.mem_blockList_iff.1 hp
    rw [Block.edges, List.pairwise_map]
    refine (Label.ordered_pairwise _).imp_of_mem fun {l l'} hmem hmem' hlt => ?_
    obtain ⟨c, hc, rfl⟩ := hx.checked.exists_target hb hl (Label.mem_ordered_iff.1 hmem)
    obtain ⟨c', hc', rfl⟩ := hx.checked.exists_target hb hl (Label.mem_ordered_iff.1 hmem')
    rintro a b ⟨i, j, hi, hj, rfl⟩ ⟨i', j', hi', hj', rfl⟩
    have hsource : i = i' := Except.ok.inj (hi.symm.trans hi')
    exact ⟨i, j, i', j', rfl, rfl, .inr ⟨hsource, hx.index_lt_of_label hl hc hc' hlt hj hj'⟩⟩
  · refine hx.blockList_pairwise.imp fun {p q} hlt e he e' he' => ?_
    obtain ⟨l, -, rfl⟩ := List.mem_map.1 he
    obtain ⟨l', -, rfl⟩ := List.mem_map.1 he'
    rintro a b ⟨i, j, hi, hj, rfl⟩ ⟨i', j', hi', hj', rfl⟩
    exact ⟨i, j, i', j', rfl, rfl, .inl (hlt i i' hi hi')⟩

/-- Facts of edges in order are in order. -/
theorem pairwise_of_edgeFacts {edges : List Edge} {facts : List Fact}
    (h : List.Forall₂ x.EdgeFact edges facts) (hedges : edges.Pairwise x.EdgeBefore) :
    facts.Pairwise PairBefore := by
  induction h with
  | nil => exact .nil
  | @cons e a edges facts ha htail ih =>
    obtain ⟨hfirst, hrest⟩ := List.pairwise_cons.1 hedges
    refine List.pairwise_cons.2 ⟨fun b hb => ?_, ih hrest⟩
    obtain ⟨e', he', hb'⟩ := exists_left_of_mem_right htail hb
    exact hfirst e' he' a b ha hb'

/-- The successor facts are the facts of the edges. -/
theorem edgeFacts_of_generate (hb : x.setup.models.Bundled)
    (hok : (x.generate types (.new .standard)).outcome = .ok ()) :
    List.Forall₂ x.EdgeFact x.setup.unit.edges
      ((x.generate types (.new .standard)).store.relation "successor") := by
  have hplain : ∀ st ∈ x.setup.plan x.matched, st.PlainIn "successor" :=
    fun st hst => (Setup.regular_of_bundled hb hst).plainIn (by decide)
  have hrows := forall₂_becomes hok hplain
  rw [Setup.successor_rows_plan hb, List.forall₂_map_left_iff] at hrows
  refine hrows.imp fun e fact hbecomes => ?_
  obtain ⟨i, j, hi, hj, rfl⟩ := hbecomes.eq_pair
  exact ⟨i, j, ObjectRef.resolve_value_eq_ok_iff.1 hi, ObjectRef.resolve_value_eq_ok_iff.1 hj, rfl⟩

/-- The facts are the control flow graph of the module: one fact for each pair of blocks of one
function such that the terminator of the first names the label of the second, sorted by the ids
of the blocks. -/
structure FlowGraph (x : Extractor) (facts : List Fact) : Prop where
  nodup : facts.Nodup
  mem_iff : ∀ f l b g k c, x.setup.unit.block? f l = some b → x.setup.unit.block? g k = some c →
    ∃ i j, x.objects.idOf (.block f l) = .ok i ∧ x.objects.idOf (.block g k) = .ok j ∧
      ([.object i, .object j] ∈ facts ↔ f = g ∧ k ∈ b.terminator.successors)
  blocks : ∀ fact ∈ facts, ∃ f l b k c i j, x.setup.unit.block? f l = some b ∧
    x.setup.unit.block? f k = some c ∧ x.objects.idOf (.block f l) = .ok i ∧
    x.objects.idOf (.block f k) = .ok j ∧ fact = [.object i, .object j]
  sorted : facts.Pairwise PairBefore

theorem Registered.mem_edgeFacts_iff (hx : x.Registered) (hl : x.setup.unit.Labelled)
    {facts : List Fact} (hfacts : List.Forall₂ x.EdgeFact x.setup.unit.edges facts)
    {f g : FunctionId} {l k : Label} {b : Block} (hb : x.setup.unit.block? f l = some b)
    {i j : ObjectId} (hi : x.objects.idOf (.block f l) = .ok i)
    (hj : x.objects.idOf (.block g k) = .ok j) :
    [.object i, .object j] ∈ facts ↔ f = g ∧ k ∈ b.terminator.successors := by
  constructor
  · intro hmem
    obtain ⟨e, he, i', j', hi', hj', heq⟩ := exists_left_of_mem_right hfacts hmem
    simp only [List.cons.injEq, Term.object.injEq, and_true] at heq
    obtain ⟨rfl, rfl⟩ := heq
    -- An id belongs to one block only, so the edge is one from `b` to the other block.
    obtain ⟨rfl, rfl⟩ := Value.block.inj (hx.blocks.eq_of_idOf hi hi')
    obtain ⟨rfl, rfl⟩ := Value.block.inj (hx.blocks.eq_of_idOf hj hj')
    obtain ⟨b', hb', htarget⟩ := (Module.mem_edges_iff hl).1 he
    rw [hb, Option.some.injEq] at hb'
    exact ⟨rfl, hb' ▸ htarget⟩
  · rintro ⟨rfl, hmem⟩
    have hedge : Edge.mk f l k ∈ x.setup.unit.edges :=
      (Module.mem_edges_iff hl).2 ⟨b, hb, hmem⟩
    obtain ⟨fact, hfact, i', j', hi', hj', rfl⟩ := exists_right_of_mem_left hfacts hedge
    obtain rfl : i = i' := Except.ok.inj (hi.symm.trans hi')
    obtain rfl : j = j' := Except.ok.inj (hj.symm.trans hj')
    exact hfact

/-- A successful description has the control flow graph of the module as its successor facts. -/
theorem flowGraph_of_generate (hl : s.unit.Labelled) (hb : s.models.Bundled)
    (hnew : (Extractor.new s).1 = .ok x)
    (hok : (x.generate types (.new .standard)).outcome = .ok ()) :
    x.FlowGraph ((x.generate types (.new .standard)).store.relation "successor") := by
  obtain ⟨rfl, hx⟩ := registered_of_new hl hnew
  have hfacts := edgeFacts_of_generate hb hok
  have hsorted := pairwise_of_edgeFacts hfacts (hx.edges_pairwise hl)
  refine ⟨hsorted.imp PairBefore.ne, ?_, ?_, hsorted⟩
  · intro f l b g k c hfirst hsecond
    obtain ⟨i, hi⟩ := hx.exists_block_id hl hfirst
    obtain ⟨j, hj⟩ := hx.exists_block_id hl hsecond
    exact ⟨i, j, hi, hj, hx.mem_edgeFacts_iff hl hfacts hfirst hi hj⟩
  · intro fact hfact
    obtain ⟨e, he, i, j, hi, hj, rfl⟩ := exists_left_of_mem_right hfacts hfact
    obtain ⟨b, hfirst, htarget⟩ := (Module.mem_edges_iff hl).1 he
    obtain ⟨function, hblock, -⟩ := (Module.block?_eq_some_iff hl).1 hfirst
    obtain ⟨c, hc, hlabel⟩ := hx.checked.exists_target hblock hl htarget
    exact ⟨e.function, e.source, b, e.target, c, i, j, hfirst,
      (Module.block?_eq_some_iff hl).2 ⟨function, hc, hlabel⟩, hi, hj, rfl⟩

/-- Two functions with the same labels. One has a switch that names labels again and out of order,
the other a branch with equal arms. -/
def branching : Setup where
  unit :=
    { name := "m"
      globals := []
      functions :=
        [.define "f" [(⟨0⟩, ⟨1⟩)] none
          [⟨.entry, [], .switch (.reg ⟨0⟩) ⟨2⟩ [(⟨0⟩, ⟨1⟩), (⟨0⟩, ⟨2⟩), (⟨0⟩, ⟨0⟩)]⟩,
            ⟨⟨1⟩, [], .jump ⟨2⟩⟩,
            ⟨⟨2⟩, [], .ret none⟩],
          .define "g" [(⟨0⟩, ⟨1⟩)] none
            [⟨.entry, [], .branch (.reg ⟨0⟩) ⟨2⟩ ⟨2⟩⟩,
              ⟨⟨2⟩, [], .jump .entry⟩]]
      constants := Module.fewConstants }
  config := .default
  models := ⟨.firstMatch, []⟩

theorem branching_flowGraph :
    branching.unit.Labelled ∧ branching.models.Bundled ∧
      ∃ x, (Extractor.new branching).1 = .ok x ∧
        (x.generate .empty (.new .standard)).outcome = .ok () ∧
        (x.generate .empty (.new .standard)).store.relation "successor" =
          [[.object ⟨5⟩, .object ⟨5⟩], [.object ⟨5⟩, .object ⟨8⟩], [.object ⟨5⟩, .object ⟨10⟩],
            [.object ⟨8⟩, .object ⟨10⟩], [.object ⟨13⟩, .object ⟨15⟩],
            [.object ⟨15⟩, .object ⟨13⟩]] ∧
        x.FlowGraph ((x.generate .empty (.new .standard)).store.relation "successor") := by
  have hl : branching.unit.Labelled := by
    unfold Module.Labelled Function.Labelled
    decide
  have hb : branching.models.Bundled := by simp [CallModels.Bundled, branching]
  have hnew : ∃ x, (Extractor.new branching).1 = .ok x ∧
      (x.generate .empty (.new .standard)).outcome = .ok () ∧
      (x.generate .empty (.new .standard)).store.relation "successor" =
        [[.object ⟨5⟩, .object ⟨5⟩], [.object ⟨5⟩, .object ⟨8⟩], [.object ⟨5⟩, .object ⟨10⟩],
          [.object ⟨8⟩, .object ⟨10⟩], [.object ⟨13⟩, .object ⟨15⟩],
          [.object ⟨15⟩, .object ⟨13⟩]] := ⟨_, rfl, by decide +kernel⟩
  obtain ⟨x, hx, hok, hfacts⟩ := hnew
  exact ⟨hl, hb, x, hx, hok, hfacts, flowGraph_of_generate hl hb hx hok⟩

end Extractor

end PointsTo
