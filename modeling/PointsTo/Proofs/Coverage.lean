import Mathlib
import PointsTo.Proofs.Totality

/-!
# What has an id

A new extractor has ids for the globals, functions, arguments, blocks, instructions and
terminators of its module, for the constants that the module leads to, and for nothing
else. Symbols come first, so their ids depend only on how many there are; a constant comes
after the constants that it is built from.
-/

namespace PointsTo

namespace Module

variable {m : Module}

/-- The pool has the constant as the address of a global or of a function. -/
def IsSymbol (m : Module) (c : ConstId) : Prop :=
  (∃ g, (m.constants.get? c).map TypedConst.value = some (.globalAddr g)) ∨
    ∃ f, (m.constants.get? c).map TypedConst.value = some (.functionAddr f)

/-- A part of the module, or a constant that it leads to and that is not a symbol. -/
inductive Has (m : Module) : Value → Prop
  | global {g : GlobalId} : (m.global? g).isSome = true → m.Has (.global g)
  | function {f : FunctionId} : (m.function? f).isSome = true → m.Has (.function f)
  | argument {f : FunctionId} {function : Function} {k : Nat} : m.function? f = some function →
      k < function.params.length → m.Has (.argument f k)
  | block {f : FunctionId} {l : Label} : (m.block? f l).isSome = true → m.Has (.block f l)
  | instruction {i : Place} : (m.instruction? i).isSome = true → m.Has (.instruction i)
  | terminator {f : FunctionId} {l : Label} : (m.terminator? f l).isSome = true →
      m.Has (.terminator f l)
  | constant {c d : ConstId} : m.Reads c ∨ m.HasCase c → m.Reaches c d → ¬ m.IsSymbol d →
      m.Has (.constant d)

theorem isConstant_constantValue_iff {c : ConstId} :
    (m.constantValue c).isConstant = true ↔ ¬ m.IsSymbol c := by
  unfold constantValue IsSymbol
  split
  next g hg => simp [hg, Value.isConstant]
  next f hf => simp [hf, Value.isConstant]
  next hg hf =>
    refine iff_of_true rfl ?_
    rintro (⟨g, h⟩ | ⟨f, h⟩)
    · exact hg g h
    · exact hf f h

/-- The constants that a walk over the references ends are those the module has. -/
theorem leave_mem_marksOf_references_iff {c : ConstId} :
    .leave c ∈ m.marksOf m.references ↔ m.Has (.constant c) := by
  rw [leave_mem_marksOf_iff, isConstant_constantValue_iff]
  constructor
  · rintro ⟨hc, d, hd, hr⟩
    exact .constant (mem_references_iff.1 hd) hr hc
  · rintro ⟨⟩
    next d hd hr hc => exact ⟨hc, d, mem_references_iff.2 hd, hr⟩

/-- A block is found under a label exactly if it is a block with that label. -/
theorem block?_eq_some_iff (hl : m.Labelled) {f : FunctionId} {l : Label} {b : Block} :
    m.block? f l = some b ↔ ∃ function, m.HasBlock f function b ∧ b.label = l := by
  unfold block?
  rw [Option.bind_eq_some_iff]
  constructor
  · rintro ⟨function, hf, hb⟩
    have hmem := mem_functionList_iff.2 hf
    have hentry := Table.get?_eq_some_iff.1 hb
    exact ⟨function, ⟨hmem, List.mem_map.2 ⟨_, hentry, rfl⟩⟩,
      hl function (mem_functions_of_mem hmem) _ hentry⟩
  · rintro ⟨function, hb, rfl⟩
    exact ⟨function, mem_functionList_iff.1 hb.mem_functionList,
      (hl function (mem_functions_of_mem hb.mem_functionList)).get? hb.mem_blocks⟩

theorem instruction?_eq_some_iff (hl : m.Labelled) {i : Place} {instr : Instr} :
    m.instruction? i = some instr ↔
      ∃ function b, m.HasInstr i.function function b instr i.index ∧ b.label = i.block := by
  constructor
  · intro h
    obtain ⟨b, hb, hinstr⟩ := Option.bind_eq_some_iff.1 h
    obtain ⟨function, hblock, hlabel⟩ := (block?_eq_some_iff hl).1 hb
    exact ⟨function, b, ⟨hblock, List.mk_mem_zipIdx_iff_getElem?.2 hinstr⟩, hlabel⟩
  · rintro ⟨function, b, h, hlabel⟩
    obtain ⟨f, l, k⟩ := i
    obtain rfl : b.label = l := hlabel
    exact h.instruction? hl

end Module

namespace Setup

variable {s : Setup}

/-- How many objects a value owns: as many as the configuration says for globals and stack
slots, as many as its model says for a call, and else none. -/
def reserve (s : Setup) : Value → Nat
  | .global _ => s.config.globalObjects
  | .instruction i => ((s.unit.instruction? i).map (s.instrObjects i)).getD 0
  | _ => 0

/-! ## Parts of the module -/

theorem has_of_mem_blockParts (hl : s.unit.Labelled) {f : FunctionId} {function : Function}
    {b : Block} (hb : s.unit.HasBlock f function b) {v : Value} {k : Nat}
    (h : (v, k) ∈ s.blockParts f b) : s.unit.Has v ∧ k = s.reserve v := by
  have hblock : s.unit.block? f b.label = some b :=
    (Module.block?_eq_some_iff hl).2 ⟨function, hb, rfl⟩
  simp only [blockParts, List.cons_append, List.mem_cons, List.mem_append, List.mem_map,
    Prod.mk.injEq, List.not_mem_nil, or_false] at h
  rcases h with ⟨rfl, rfl⟩ | ⟨⟨i, n⟩, hi, rfl, rfl⟩ | ⟨rfl, rfl⟩
  · exact ⟨.block (by simp [hblock]), rfl⟩
  · have hinstr := Module.HasInstr.instruction? ⟨hb, hi⟩ hl
    exact ⟨.instruction (by simp [hinstr]), by simp [reserve, hinstr]⟩
  · exact ⟨.terminator (by simp [Module.terminator?, hblock]), rfl⟩

theorem has_of_mem_parts (hl : s.unit.Labelled) {v : Value} {k : Nat} (h : (v, k) ∈ s.parts) :
    s.unit.Has v ∧ k = s.reserve v := by
  simp only [parts, symbolParts, bodyParts, functionParts, List.mem_append, List.mem_map,
    List.mem_flatMap, Prod.mk.injEq] at h
  rcases h with (⟨⟨g, global⟩, hg, rfl, rfl⟩ | ⟨⟨f, function⟩, hf, rfl, rfl⟩) |
    ⟨⟨f, function⟩, hf, ⟨⟨p, n⟩, hp, rfl, rfl⟩ | ⟨b, hb, h⟩⟩
  · exact ⟨.global (by simp [Module.mem_globalList_iff.1 hg]), rfl⟩
  · exact ⟨.function (by simp [Module.mem_functionList_iff.1 hf]), rfl⟩
  · have hlt := (List.getElem?_eq_some_iff.1 (List.mk_mem_zipIdx_iff_getElem?.1 hp)).1
    exact ⟨.argument (Module.mem_functionList_iff.1 hf) hlt, rfl⟩
  · exact has_of_mem_blockParts hl ⟨hf, hb⟩ h

/-- What the module has is among its parts, with what it owns, unless it is a constant. -/
theorem mem_parts_of_has (hl : s.unit.Labelled) {v : Value} (h : s.unit.Has v)
    (hv : v.isConstant = false) : (v, s.reserve v) ∈ s.parts := by
  cases h with
  | @global g hg =>
    obtain ⟨global, hg⟩ := Option.isSome_iff_exists.1 hg
    exact global_mem_parts (Module.mem_globalList_iff.2 hg)
  | @function f hf =>
    obtain ⟨function, hf⟩ := Option.isSome_iff_exists.1 hf
    exact function_mem_parts (Module.mem_functionList_iff.2 hf)
  | @argument f function k hf hk =>
    exact argument_mem_parts (Module.mem_functionList_iff.2 hf)
      (List.mk_mem_zipIdx_iff_getElem?.2 (List.getElem?_eq_getElem hk))
  | @block f l hb =>
    obtain ⟨b, hb⟩ := Option.isSome_iff_exists.1 hb
    obtain ⟨function, hblock, rfl⟩ := (Module.block?_eq_some_iff hl).1 hb
    exact block_mem_parts hblock
  | @instruction i hi =>
    obtain ⟨instr, hinstr⟩ := Option.isSome_iff_exists.1 hi
    obtain ⟨function, b, hi, hlabel⟩ := (Module.instruction?_eq_some_iff hl).1 hinstr
    obtain ⟨f, l, k⟩ := i
    obtain rfl : b.label = l := hlabel
    simpa [reserve, hinstr] using instruction_mem_parts (s := s) hi
  | @terminator f l ht =>
    obtain ⟨t, ht⟩ := Option.isSome_iff_exists.1 ht
    obtain ⟨b, hb, -⟩ := Option.map_eq_some_iff.1 ht
    obtain ⟨function, hblock, rfl⟩ := (Module.block?_eq_some_iff hl).1 hb
    exact terminator_mem_parts hblock
  | constant => cases hv

/-! ## Symbols -/

theorem symbolParts_global {i : Nat} (hi : i < s.unit.globals.length) :
    s.symbolParts[i]? = some (.global ⟨i⟩, s.config.globalObjects) := by
  simp [symbolParts, Module.globalList, List.getElem?_append_left, hi]

theorem symbolParts_function {j : Nat} (hj : j < s.unit.functions.length) :
    s.symbolParts[s.unit.globals.length + j]? = some (.function ⟨j⟩, 0) := by
  simp [symbolParts, Module.globalList, Module.functionList, hj]

/-- The sizes of the blocks of the symbols. -/
theorem sizes_symbolParts (s : Setup) :
    (s.symbolParts.map fun call => call.2 + 1) =
      List.replicate s.unit.globals.length (1 + s.config.globalObjects) ++
        List.replicate s.unit.functions.length 1 := by
  simp only [symbolParts, List.map_append, List.map_map, Function.comp_def, Nat.add_comm _ 1]
  rw [List.map_const', List.map_const']
  simp [Module.globalList, Module.functionList]

end Setup

namespace Extractor

variable {x : Extractor}

/-! ## Ids -/

theorem idOf_symbol {s : Setup} (h : (Extractor.new s).1 = .ok x) {n : Nat} {v : Value} {k : Nat}
    (hn : s.symbolParts[n]? = some (v, k)) :
    x.objects.idOf v = .ok ⟨s.config.specialCount +
      ((s.symbolParts.take n).map fun call => call.2 + 1).sum⟩ := by
  obtain ⟨calls, hobjects⟩ := exists_registerAll_of_new h
  have hfind := ObjectTable.find?_registerAll (x := .new s.config.specialCount)
    Setup.nodup_symbolParts (fun _ _ => rfl) hn
  rw [ObjectTable.idOf_eq_ok_iff, hobjects]
  exact ObjectTable.find?_registerAll_of_find? hfind calls

theorem idOf_global {s : Setup} (h : (Extractor.new s).1 = .ok x) {i : Nat}
    (hi : i < s.unit.globals.length) :
    x.objects.idOf (.global ⟨i⟩) =
      .ok ⟨s.config.specialCount + i * (1 + s.config.globalObjects)⟩ := by
  have hsum : ((s.symbolParts.take i).map fun call => call.2 + 1).sum =
      i * (1 + s.config.globalObjects) := by
    rw [List.map_take, Setup.sizes_symbolParts, List.take_append_of_le_length (by simp; omega)]
    simp [hi.le]
  rw [idOf_symbol h (Setup.symbolParts_global hi), hsum]

theorem idOf_function {s : Setup} (h : (Extractor.new s).1 = .ok x) {j : Nat}
    (hj : j < s.unit.functions.length) :
    x.objects.idOf (.function ⟨j⟩) = .ok ⟨s.config.specialCount +
      s.unit.globals.length * (1 + s.config.globalObjects) + j⟩ := by
  have hsum : ((s.symbolParts.take (s.unit.globals.length + j)).map fun call => call.2 + 1).sum =
      s.unit.globals.length * (1 + s.config.globalObjects) + j := by
    rw [List.map_take, Setup.sizes_symbolParts, List.take_append]
    simp [hj.le]
  rw [idOf_symbol h (Setup.symbolParts_function hj), hsum, Nat.add_assoc]

namespace Registered

theorem contains_constant_iff (h : x.Registered) {c : ConstId} :
    x.objects.contains (.constant c) = true ↔ x.setup.unit.Has (.constant c) := by
  rw [← Module.leave_mem_marksOf_references_iff]
  constructor
  · intro hc
    obtain ⟨call, hcall, hv⟩ := List.mem_map.1 (h.blocks.contains_iff.1 hc)
    rcases h.mem_owners_iff.1 hcall with hpart | hcall
    · have hconst := Setup.isConstant_of_mem_parts (List.mem_map_of_mem hpart)
      rw [hv] at hconst
      cases hconst
    · obtain ⟨d, hd, rfl⟩ := List.mem_map.1 hcall
      obtain rfl : d = c := by simpa using hv
      exact Module.mem_filterMap_left?.1 hd
  · exact h.contains_of_leave

/-- Exactly what the module has has an id. -/
theorem contains_iff_has (h : x.Registered) (hl : x.setup.unit.Labelled) {v : Value} :
    x.objects.contains v = true ↔ x.setup.unit.Has v := by
  by_cases hv : v.isConstant = true
  · cases v with
    | constant c => exact h.contains_constant_iff
    | _ => cases hv
  · rw [Bool.not_eq_true] at hv
    constructor
    · intro hcontains
      obtain ⟨k, hk⟩ := h.exists_part_of_contains hcontains hv
      exact (Setup.has_of_mem_parts hl hk).1
    · exact fun hhas => h.contains_of_mem_parts (Setup.mem_parts_of_has hl hhas hv)

/-- The slot of a value says what the value owns. -/
theorem slot_of_idOf (h : x.Registered) (hl : x.setup.unit.Labelled) {v : Value} {id : ObjectId}
    (hid : x.objects.idOf v = .ok id) :
    x.objects.slot id = .ok (.owning v (x.setup.reserve v)) := by
  obtain ⟨k, hslot⟩ := (h.blocks.find?_iff v id).1 (ObjectTable.idOf_eq_ok_iff.1 hid)
  rw [hslot]
  rcases h.mem_owners_iff.1 (ObjectTable.mem_owners_iff.2 ⟨id, hslot⟩) with hpart | hcall
  · rw [(Setup.has_of_mem_parts hl hpart).2]
  · obtain ⟨c, -, heq⟩ := List.mem_map.1 hcall
    obtain ⟨rfl, rfl⟩ := Prod.mk.inj heq
    rfl

/-- What a constant is built from has a smaller id, or is a symbol. -/
theorem index_lt_of_child (h : x.Registered) {c d : ConstId} {id : ObjectId}
    (hid : x.objects.idOf (.constant c) = .ok id) (hd : d ∈ x.setup.unit.constantChildren c)
    (hsymbol : ¬ x.setup.unit.IsSymbol d) :
    ∃ id', x.objects.idOf (.constant d) = .ok id' ∧ id'.index < id.index := by
  have hleave := Module.leave_mem_marksOf_references_iff.2
    (h.contains_constant_iff.1 (ObjectTable.contains_iff_idOf.2 ⟨id, hid⟩))
  obtain ⟨before, after, hmarks⟩ := List.append_of_mem hleave
  have hbefore := Module.ordered_marksOf _ before c after hmarks d hd
    (Module.isConstant_constantValue_iff.2 hsymbol)
  have hcontains : x.objects.contains (.constant d) = true :=
    h.contains_of_leave (hmarks ▸ List.mem_append_left _ hbefore)
  obtain ⟨id', hid'⟩ := ObjectTable.contains_iff_idOf.1 hcontains
  refine ⟨id', hid', ?_⟩
  have hvalues : (x.objects.owners.map Prod.fst).filter Value.isConstant =
      (before.filterMap Mark.left?).map .constant ++
        .constant c :: (after.filterMap Mark.left?).map .constant := by
    rw [List.filter_map]
    have hconstants := h.constants
    rw [hmarks] at hconstants
    simp only [Function.comp_def, hconstants]
    simp [constantCalls, Function.comp_def, Mark.left?]
  exact h.blocks.index_lt hvalues
    (List.mem_map_of_mem (Module.mem_filterMap_left?.2 hbefore)) hid' hid

end Registered

/-- The extractor has ids for exactly what is in its module, laid out in a fixed way. -/
structure Covers (x : Extractor) (s : Setup) : Prop where
  /-- Exactly the values of the module have ids. -/
  identity : ∀ v, (∃ id, x.objects.idOf v = .ok id) ↔ s.unit.Has v
  /-- Globals come first, each with what it owns. -/
  global : ∀ i < s.unit.globals.length, x.objects.idOf (.global ⟨i⟩) =
    .ok ⟨s.config.specialCount + i * (1 + s.config.globalObjects)⟩
  /-- Functions come next, and own nothing. -/
  function : ∀ j < s.unit.functions.length, x.objects.idOf (.function ⟨j⟩) =
    .ok ⟨s.config.specialCount + s.unit.globals.length * (1 + s.config.globalObjects) + j⟩
  /-- Constants come after what they are built from. -/
  children : ∀ c id, x.objects.idOf (.constant c) = .ok id →
    ∀ d ∈ s.unit.constantChildren c, s.unit.IsSymbol d ∨
      ∃ id', x.objects.idOf (.constant d) = .ok id' ∧ id'.index < id.index
  reserved : ∀ v id, x.objects.idOf v = .ok id →
    x.objects.slot id = .ok (.owning v (s.reserve v))

/-- Whatever the module, the configuration and the models are, registration covers the
module: what the module has gets an id, and nothing else does. -/
theorem covers_of_new {s : Setup} (hl : s.unit.Labelled) (hnew : (Extractor.new s).1 = .ok x) :
    x.Covers s := by
  obtain ⟨rfl, hx⟩ := registered_of_new hl hnew
  constructor
  case identity =>
    intro v
    rw [← ObjectTable.contains_iff_idOf]
    exact hx.contains_iff_has hl
  case global => exact fun i hi => idOf_global hnew hi
  case function => exact fun j hj => idOf_function hnew hj
  case children =>
    intro c id hid d hd
    by_cases hsymbol : x.setup.unit.IsSymbol d
    · exact .inl hsymbol
    · exact .inr (hx.index_lt_of_child hid hd hsymbol)
  case reserved => exact fun v id hid => hx.slot_of_idOf hl hid

theorem allocating_covers :
    allocating.unit.Labelled ∧
      ∃ x, (Extractor.new allocating).1 = .ok x ∧ x.Covers allocating := by
  have hnew : ∃ x, (Extractor.new allocating).1 = .ok x := ⟨_, rfl⟩
  obtain ⟨x, hx⟩ := hnew
  exact ⟨labelled_allocating, x, hx, covers_of_new labelled_allocating hx⟩

end Extractor

end PointsTo
