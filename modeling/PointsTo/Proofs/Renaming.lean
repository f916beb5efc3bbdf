import Mathlib
import PointsTo.Proofs.Totality

/-!
# Renaming registers and labels

Registers and labels are names that a program chooses. A renaming gives each function other
names; the layout of a function is the order of its labels, so labels have to keep their
order. A module that passes the check still does so under other names.
-/

namespace PointsTo

/-! ## Tables under other keys -/

namespace Table

variable {κ κ' α β : Type} [Ord κ] [Ord κ']

theorem insertEntry_of_lt [Std.OrientedOrd κ] {k : κ} {v : α} {l : List (κ × α)}
    (h : ∀ e ∈ l, compare e.1 k = .lt) : insertEntry k v l = l ++ [(k, v)] := by
  induction l with
  | nil => rfl
  | cons e rest ih =>
    rw [List.forall_mem_cons] at h
    have hgt : compare k e.1 = .gt := Std.OrientedCmp.gt_iff_lt.2 h.1
    simp only [insertEntry, hgt, ih h.2, List.cons_append]

/-- Pairs in key order are the entries of their table. -/
theorem entries_ofList_of_sorted [Std.TransOrd κ] [Std.LawfulEqOrd κ] {l : List (κ × α)}
    (h : l.Pairwise fun a b => compare a.1 b.1 = .lt) : (ofList l).entries = l := by
  have hfold : ∀ (l : List (κ × α)) (t : Table κ α),
      (t.entries ++ l).Pairwise (fun a b => compare a.1 b.1 = .lt) →
      (l.foldl (fun t e => t.insert e.1 e.2) t).entries = t.entries ++ l := by
    intro l
    induction l with
    | nil => simp
    | cons e rest ih =>
      intro t ht
      have hinsert : (t.insert e.1 e.2).entries = t.entries ++ [e] :=
        insertEntry_of_lt fun e' he' => (List.pairwise_append.1 ht).2.2 e' he' e List.mem_cons_self
      rw [List.foldl_cons, ih, hinsert, List.append_assoc, List.singleton_append]
      rwa [hinsert, List.append_assoc, List.singleton_append]
  exact hfold l .empty h

theorem insertEntry_map {ρ : κ → κ'} (g : α → β) {k : κ} {v : α} {l : List (κ × α)}
    (h : ∀ e ∈ l, compare (ρ k) (ρ e.1) = compare k e.1) :
    insertEntry (ρ k) (g v) (l.map fun e => (ρ e.1, g e.2)) =
      (insertEntry k v l).map fun e => (ρ e.1, g e.2) := by
  induction l with
  | nil => rfl
  | cons e rest ih =>
    rw [List.forall_mem_cons] at h
    simp only [List.map_cons, insertEntry, h.1]
    cases compare k e.1 with
    | lt => rfl
    | eq => rfl
    | gt => rw [ih h.2, List.map_cons]

/-- New keys in the old order leave the entries in place. -/
theorem entries_ofList_map [Std.TransOrd κ] [Std.LawfulEqOrd κ] [Std.TransOrd κ']
    [Std.LawfulEqOrd κ'] {ρ : κ → κ'} (g : α → β) {l : List (κ × α)}
    (h : ∀ a ∈ l.map Prod.fst, ∀ b ∈ l.map Prod.fst, compare (ρ a) (ρ b) = compare a b) :
    (ofList (l.map fun e => (ρ e.1, g e.2))).entries =
      (ofList l).entries.map fun e => (ρ e.1, g e.2) := by
  have hfold : ∀ (rest : List (κ × α)) (t : Table κ α) (t' : Table κ' β),
      rest ⊆ l → t.entries ⊆ l → t'.entries = (t.entries.map fun e => (ρ e.1, g e.2)) →
      ((rest.map fun e => (ρ e.1, g e.2)).foldl (fun t e => t.insert e.1 e.2) t').entries =
        (rest.foldl (fun t e => t.insert e.1 e.2) t).entries.map fun e => (ρ e.1, g e.2) := by
    intro rest
    induction rest with
    | nil => exact fun t t' _ _ ht => ht
    | cons e rest ih =>
      intro t t' hrest hentries ht
      rw [List.cons_subset] at hrest
      rw [List.map_cons, List.foldl_cons, List.foldl_cons]
      apply ih
      · exact hrest.2
      · intro e' he'
        rcases mem_insertEntry he' with rfl | he'
        · exact hrest.1
        · exact hentries he'
      · have hcompare : ∀ e' ∈ t.entries, compare (ρ e.1) (ρ e'.1) = compare e.1 e'.1 :=
          fun e' he' => h _ (List.mem_map_of_mem hrest.1) _ (List.mem_map_of_mem (hentries he'))
        simp only [insert, ht]
        exact insertEntry_map g hcompare
  exact hfold l .empty .empty (List.Subset.refl l) (by simp [empty]) rfl

/-- What is found under a new key is what was found under the old one. -/
theorem get?_ofList_map [Std.TransOrd κ] [Std.LawfulEqOrd κ] [Std.TransOrd κ']
    [Std.LawfulEqOrd κ'] {σ : κ → κ'} (hσ : Function.Injective σ) (g : α → β) (l : List (κ × α))
    (k : κ) :
    (ofList (l.map fun e => (σ e.1, g e.2))).get? (σ k) = ((ofList l).get? k).map g := by
  have hfold : ∀ (l : List (κ × α)) (t : Table κ α) (t' : Table κ' β),
      t'.get? (σ k) = (t.get? k).map g →
      ((l.map fun e => (σ e.1, g e.2)).foldl (fun t e => t.insert e.1 e.2) t').get? (σ k) =
        ((l.foldl (fun t e => t.insert e.1 e.2) t).get? k).map g := by
    intro l
    induction l with
    | nil => exact fun t t' ht => ht
    | cons e rest ih =>
      intro t t' ht
      rw [List.map_cons, List.foldl_cons, List.foldl_cons]
      apply ih
      by_cases hk : k = e.1
      · subst hk
        simp
      · rw [get?_insert_of_ne t hk, get?_insert_of_ne t' (hσ.ne hk), ht]
  exact hfold l .empty .empty rfl

end Table

/-! ## Names of the parts of a function -/

variable (σ : Register → Register) (ρ : Label → Label)

def Operand.rename : Operand → Operand
  | .reg r => .reg (σ r)
  | .imm c => .imm c
  | .label l => .label (ρ l)

def Invoke.rename (call : Invoke) : Invoke where
  function := call.function.rename σ ρ
  args := call.args.map (Operand.rename σ ρ)
  dest := call.dest.map σ
  ty := call.ty

def Instr.rename : Instr → Instr
  | .iarith dest ty op lhs rhs => .iarith (σ dest) ty op (lhs.rename σ ρ) (rhs.rename σ ρ)
  | .icmp dest ty op lhs rhs => .icmp (σ dest) ty op (lhs.rename σ ρ) (rhs.rename σ ρ)
  | .farith dest ty op lhs rhs => .farith (σ dest) ty op (lhs.rename σ ρ) (rhs.rename σ ρ)
  | .fcmp dest ty op lhs rhs => .fcmp (σ dest) ty op (lhs.rename σ ρ) (rhs.rename σ ρ)
  | .load dest ty addr access => .load (σ dest) ty (addr.rename σ ρ) access
  | .store addr value access => .store (addr.rename σ ρ) (value.rename σ ρ) access
  | .alloca dest ty count alignment => .alloca (σ dest) ty (count.rename σ ρ) alignment
  | .elementPtr dest ty base indices =>
    .elementPtr (σ dest) ty (base.rename σ ρ) (indices.map (Operand.rename σ ρ))
  | .invoke call => .invoke (call.rename σ ρ)
  | .phi dest ty incoming => .phi (σ dest) ty (incoming.map fun e => (ρ e.1, e.2.rename σ ρ))
  | .select dest condition ifTrue ifFalse ty =>
    .select (σ dest) (condition.rename σ ρ) (ifTrue.rename σ ρ) (ifFalse.rename σ ρ) ty
  | .cast dest op ty value => .cast (σ dest) op ty (value.rename σ ρ)

def Terminator.rename : Terminator → Terminator
  | .branch cond ifTrue ifFalse => .branch (cond.rename σ ρ) (ρ ifTrue) (ρ ifFalse)
  | .jump target => .jump (ρ target)
  | .switch value default cases =>
    .switch (value.rename σ ρ) (ρ default) (cases.map fun e => (e.1, ρ e.2))
  | .ret value => .ret (value.map (Operand.rename σ ρ))
  | .trap => .trap

def Block.rename (b : Block) : Block where
  label := ρ b.label
  instrs := b.instrs.map (Instr.rename σ ρ)
  terminator := b.terminator.rename σ ρ

def Function.rename (f : Function) : Function :=
  { f with
    params := f.params.map fun p => (σ p.1, p.2)
    body := .ofList (f.body.entries.map fun e => (ρ e.1, e.2.rename σ ρ)) }

def Definition.rename : Definition → Definition
  | .param position => .param position
  | .instr block position => .instr (ρ block) position

namespace Function

/-- The labels that occur in a block. -/
def labelsOfBlock (b : Block) : List Label :=
  b.label :: blockLabels b ++ (blockOperands b).filterMap Operand.label?

/-- The labels that occur in a function, and that of the entry. -/
def labels (f : Function) : List Label :=
  .entry :: f.body.keys ++ f.blocks.flatMap labelsOfBlock

/-- The registers that occur in a function. -/
def registers (f : Function) : List Register := f.definedRegisters ++ f.blocks.flatMap blockUses

end Function

/-! ## What does not depend on names -/

@[simp] theorem Operand.register?_rename (o : Operand) :
    (o.rename σ ρ).register? = o.register?.map σ := by
  cases o <;> rfl

@[simp] theorem Operand.constant?_rename (o : Operand) :
    (o.rename σ ρ).constant? = o.constant? := by
  cases o <;> rfl

namespace Instr

@[simp] theorem operands_rename (i : Instr) :
    (i.rename σ ρ).operands = i.operands.map (Operand.rename σ ρ) := by
  cases i <;> simp [rename, operands, Invoke.rename, Function.comp_def]

@[simp] theorem dest?_rename (i : Instr) : (i.rename σ ρ).dest? = i.dest?.map σ := by
  cases i <;> rfl

@[simp] theorem predecessors_rename (i : Instr) :
    (i.rename σ ρ).predecessors = i.predecessors.map ρ := by
  cases i <;> simp [rename, predecessors, Function.comp_def]

@[simp] theorem resultType?_rename (i : Instr) : (i.rename σ ρ).resultType? = i.resultType? := by
  cases i <;> rfl

@[simp] theorem opcode_rename (i : Instr) : (i.rename σ ρ).opcode = i.opcode := by
  cases i <;> rfl

@[simp] theorem uses_rename (i : Instr) : (i.rename σ ρ).uses = i.uses.map σ := by
  simp [uses, List.filterMap_map, List.map_filterMap]

end Instr

namespace Terminator

@[simp] theorem operands_rename (t : Terminator) :
    (t.rename σ ρ).operands = t.operands.map (Operand.rename σ ρ) := by
  cases t with
  | ret value => cases value <;> rfl
  | _ => rfl

@[simp] theorem caseValues_rename (t : Terminator) :
    (t.rename σ ρ).caseValues = t.caseValues := by
  cases t <;> simp [rename, caseValues, Function.comp_def]

@[simp] theorem successors_rename (t : Terminator) :
    (t.rename σ ρ).successors = t.successors.map ρ := by
  cases t <;> simp [rename, successors, Function.comp_def]

@[simp] theorem opcode_rename (t : Terminator) : (t.rename σ ρ).opcode = t.opcode := by
  cases t <;> rfl

@[simp] theorem uses_rename (t : Terminator) : (t.rename σ ρ).uses = t.uses.map σ := by
  simp [uses, List.filterMap_map, List.map_filterMap]

end Terminator

namespace Function

@[simp] theorem blockOperands_rename (b : Block) :
    blockOperands (b.rename σ ρ) = (blockOperands b).map (Operand.rename σ ρ) := by
  simp [blockOperands, Block.rename, List.flatMap_map, List.map_flatMap]

@[simp] theorem blockUses_rename (b : Block) :
    blockUses (b.rename σ ρ) = (blockUses b).map σ := by
  simp [blockUses, Block.rename, List.flatMap_map, List.map_flatMap]

@[simp] theorem blockLabels_rename (b : Block) :
    blockLabels (b.rename σ ρ) = (blockLabels b).map ρ := by
  simp [blockLabels, Block.rename, List.flatMap_map, List.map_flatMap]

theorem blockDefinitions_rename (b : Block) :
    blockDefinitions (b.rename σ ρ) =
      (blockDefinitions b).map fun e => (σ e.1, e.2.rename ρ) := by
  simp only [blockDefinitions, Block.rename, List.zipIdx_map, List.filterMap_map,
    List.map_filterMap]
  apply List.filterMap_congr
  rintro ⟨i, k⟩ -
  simp [Function.comp_def, Definition.rename]

variable {σ ρ} {f : Function}

/-! ## Functions -/

/-- The blocks stay in their order. -/
theorem entries_body_rename
    (h : ∀ a ∈ f.body.keys, ∀ b ∈ f.body.keys, compare (ρ a) (ρ b) = compare a b) :
    (f.rename σ ρ).body.entries = f.body.entries.map fun e => (ρ e.1, e.2.rename σ ρ) := by
  apply Table.entries_ofList_of_sorted
  rw [List.pairwise_map]
  refine f.body.sorted.imp_of_mem fun {a b} ha hb hlt => ?_
  rw [h _ (List.mem_map_of_mem ha) _ (List.mem_map_of_mem hb)]
  exact hlt

theorem blocks_rename
    (h : ∀ a ∈ f.body.keys, ∀ b ∈ f.body.keys, compare (ρ a) (ρ b) = compare a b) :
    (f.rename σ ρ).blocks = f.blocks.map (Block.rename σ ρ) := by
  rw [blocks, Table.values, entries_body_rename h, List.map_map, blocks, Table.values,
    List.map_map]
  rfl

theorem isDeclaration_rename
    (h : ∀ a ∈ f.body.keys, ∀ b ∈ f.body.keys, compare (ρ a) (ρ b) = compare a b) :
    (f.rename σ ρ).isDeclaration = f.isDeclaration := by
  rw [isDeclaration, Table.isEmpty, entries_body_rename h, List.isEmpty_map]
  rfl

theorem get?_body_rename (hρ : Function.Injective ρ) (l : Label) :
    (f.rename σ ρ).body.get? (ρ l) = (f.body.get? l).map (Block.rename σ ρ) := by
  have hentries : (Table.ofList f.body.entries).entries = f.body.entries :=
    Table.entries_ofList_of_sorted f.body.sorted
  have hget := Table.get?_ofList_map hρ (Block.rename σ ρ) f.body.entries l
  have hold : (Table.ofList f.body.entries).get? l = f.body.get? l := by
    rw [Table.get?, hentries]
    rfl
  rw [hold] at hget
  exact hget

theorem contains_body_rename (hρ : Function.Injective ρ) (l : Label) :
    (f.rename σ ρ).body.contains (ρ l) = f.body.contains l := by
  rw [Table.contains, get?_body_rename hρ, Option.isSome_map]
  rfl

theorem definitionList_rename
    (h : ∀ a ∈ f.body.keys, ∀ b ∈ f.body.keys, compare (ρ a) (ρ b) = compare a b) :
    (f.rename σ ρ).definitionList =
      f.definitionList.map fun e => (σ e.1, e.2.rename ρ) := by
  have hparams : (f.rename σ ρ).params.zipIdx.map (fun e => (e.1.1, Definition.param e.2)) =
      (f.params.zipIdx.map fun e => (e.1.1, Definition.param e.2)).map fun e =>
        (σ e.1, e.2.rename ρ) := by
    simp [rename, List.zipIdx_map, Function.comp_def, Definition.rename]
  rw [definitionList, hparams, blocks_rename h, definitionList, List.map_append, List.flatMap_map,
    List.map_flatMap]
  simp only [blockDefinitions_rename]

theorem definedRegisters_rename
    (h : ∀ a ∈ f.body.keys, ∀ b ∈ f.body.keys, compare (ρ a) (ρ b) = compare a b) :
    (f.rename σ ρ).definedRegisters = f.definedRegisters.map σ := by
  rw [definedRegisters, definitionList_rename h, List.map_map, definedRegisters, List.map_map]
  rfl

theorem definitions_get?_rename (hσ : Function.Injective σ)
    (h : ∀ a ∈ f.body.keys, ∀ b ∈ f.body.keys, compare (ρ a) (ρ b) = compare a b) (r : Register) :
    (f.rename σ ρ).definitions.get? (σ r) =
      (f.definitions.get? r).map (Definition.rename ρ) := by
  rw [definitions, definitionList_rename h]
  exact Table.get?_ofList_map hσ _ _ r

/-- A function is in static single assignment form under all names. -/
theorem ssa_rename_iff (hσ : Function.Injective σ) (hρ : Function.Injective ρ)
    (hentry : ρ .entry = .entry)
    (h : ∀ a ∈ f.body.keys, ∀ b ∈ f.body.keys, compare (ρ a) (ρ b) = compare a b) :
    (f.rename σ ρ).Ssa ↔ f.Ssa := by
  have hblocks := blocks_rename (σ := σ) h
  have hcontains := contains_body_rename (f := f) (σ := σ) hρ
  have hdefined := definedRegisters_rename (σ := σ) h
  have hmem (r : Register) : σ r ∈ (f.rename σ ρ).definedRegisters ↔ r ∈ f.definedRegisters := by
    rw [hdefined, List.mem_map_of_injective hσ]
  constructor
  · intro hssa
    refine ⟨?_, ?_, ?_, ?_⟩
    · rw [← hcontains, hentry]
      exact hssa.entry
    · exact List.Nodup.of_map σ (hdefined ▸ hssa.nodup)
    · intro b hb r hr
      rw [← hmem]
      apply hssa.uses (b.rename σ ρ)
      · rw [hblocks]
        exact List.mem_map_of_mem hb
      · rw [blockUses_rename]
        exact List.mem_map_of_mem hr
    · intro b hb l hl
      rw [← hcontains]
      apply hssa.labels (b.rename σ ρ)
      · rw [hblocks]
        exact List.mem_map_of_mem hb
      · rw [blockLabels_rename]
        exact List.mem_map_of_mem hl
  · intro hssa
    refine ⟨?_, ?_, ?_, ?_⟩
    · rw [← hentry, hcontains]
      exact hssa.entry
    · rw [hdefined]
      exact hssa.nodup.map hσ
    · simp only [hblocks, List.forall_mem_map, blockUses_rename]
      intro b hb r hr
      exact (hmem r).2 (hssa.uses b hb r hr)
    · simp only [hblocks, List.forall_mem_map, blockLabels_rename]
      intro b hb l hl
      rw [hcontains]
      exact hssa.labels b hb l hl

end Function

/-! ## Modules -/

/-- New names for the registers and labels of each function. -/
structure Renaming where
  register : FunctionId → Register → Register
  label : FunctionId → Label → Label

/-- A module under other names. -/
def Module.rename (R : Renaming) (m : Module) : Module :=
  { m with functions := m.functionList.map fun e => e.2.rename (R.register e.1) (R.label e.1) }

/-- Different names get different names, and labels keep their order. -/
structure Renaming.Faithful (R : Renaming) (m : Module) : Prop where
  register : ∀ f, Function.Injective (R.register f)
  label : ∀ f, Function.Injective (R.label f)
  entry : ∀ e ∈ m.functionList, R.label e.1 .entry = .entry
  order : ∀ e ∈ m.functionList, ∀ a ∈ e.2.labels, ∀ b ∈ e.2.labels,
    compare (R.label e.1 a) (R.label e.1 b) = compare a b

namespace Renaming.Faithful

variable {R : Renaming} {m : Module} {f : FunctionId} {function : Function}

theorem order_keys (h : R.Faithful m) (hf : (f, function) ∈ m.functionList) :
    ∀ a ∈ function.body.keys, ∀ b ∈ function.body.keys,
      compare (R.label f a) (R.label f b) = compare a b := by
  intro a ha b hb
  have hmem : ∀ l ∈ function.body.keys, l ∈ function.labels := fun l hl =>
    List.mem_append_left _ (List.mem_cons_of_mem _ hl)
  exact h.order _ hf a (hmem a ha) b (hmem b hb)

end Renaming.Faithful

namespace Module

variable {R : Renaming} {m : Module} {f : FunctionId}

theorem functionList_rename (R : Renaming) (m : Module) :
    (m.rename R).functionList =
      m.functionList.map fun e => (e.1, e.2.rename (R.register e.1) (R.label e.1)) := by
  apply List.ext_getElem?
  intro i
  simp only [functionList, rename, List.getElem?_map, List.getElem?_zipIdx]
  cases m.functions[i]? <;> simp

theorem function?_rename (R : Renaming) (m : Module) (f : FunctionId) :
    (m.rename R).function? f =
      (m.function? f).map (Function.rename (R.register f) (R.label f)) := by
  simp only [function?, rename, functionList, List.getElem?_map, List.getElem?_zipIdx]
  cases m.functions[f.index]? <;> simp

/-- The module reads a constant in an initializer, or as an operand of a block. -/
theorem reads_iff {c : ConstId} :
    m.Reads c ↔ (∃ g ∈ m.globals, g.initializer = some c) ∨
      ∃ e ∈ m.functionList, ∃ b ∈ e.2.blocks, .imm c ∈ Function.blockOperands b := by
  have hfunction {function : Function} (h : function ∈ m.functions) :
      ∃ f, (f, function) ∈ m.functionList := by
    rw [← m.map_snd_functionList] at h
    obtain ⟨e, he, rfl⟩ := List.mem_map.1 h
    exact ⟨e.1, he⟩
  constructor
  · intro h
    cases h with
    | initializer g hg hc => exact .inl ⟨g, hg, hc⟩
    | instr function b i hf hb hi hc =>
      obtain ⟨f, hf⟩ := hfunction hf
      exact .inr ⟨_, hf, b, hb, Function.mem_blockOperands_of_instr hi hc⟩
    | terminator function b hf hb hc =>
      obtain ⟨f, hf⟩ := hfunction hf
      exact .inr ⟨_, hf, b, hb, List.mem_append_right _ hc⟩
  · rintro (⟨g, hg, hc⟩ | ⟨e, he, b, hb, hc⟩)
    · exact .initializer g hg hc
    · exact reads_of_mem_blockOperands ⟨he, hb⟩ hc

theorem reads_rename_iff (h : R.Faithful m) {c : ConstId} : (m.rename R).Reads c ↔ m.Reads c := by
  have himm (σ : Register → Register) (ρ : Label → Label) (l : List Operand) :
      .imm c ∈ l.map (Operand.rename σ ρ) ↔ .imm c ∈ l := by
    rw [List.mem_map]
    constructor
    · rintro ⟨o, ho, heq⟩
      cases o <;> cases heq
      exact ho
    · exact fun hc => ⟨.imm c, hc, rfl⟩
  rw [reads_iff, reads_iff, functionList_rename]
  apply or_congr Iff.rfl
  simp only [List.mem_map (l := m.functionList), exists_exists_and_eq_and]
  apply exists_congr
  intro e
  apply and_congr_right
  intro he
  simp only [Function.blocks_rename (h.order_keys he), List.mem_map (l := e.2.blocks),
    exists_exists_and_eq_and, Function.blockOperands_rename, himm]

/-- A module passes the check under all names. -/
theorem checked_rename_iff (h : R.Faithful m) : (m.rename R).Checked ↔ m.Checked := by
  have hsymbols : (m.rename R).SymbolsExist ↔ m.SymbolsExist := by
    constructor <;> intro hs <;> refine ⟨hs.global, fun e he f hf => ?_⟩
    · have hsome := hs.function e he f hf
      rwa [function?_rename, Option.isSome_map] at hsome
    · rw [function?_rename, Option.isSome_map]
      exact hs.function e he f hf
  have hssa : (∀ f ∈ (m.rename R).functions, f.isDeclaration = true ∨ f.Ssa) ↔
      ∀ f ∈ m.functions, f.isDeclaration = true ∨ f.Ssa := by
    rw [← m.map_snd_functionList, rename, List.forall_mem_map, List.forall_mem_map]
    apply forall_congr'
    intro e
    apply imp_congr_right
    intro he
    rw [Function.isDeclaration_rename (h.order_keys he),
      Function.ssa_rename_iff (h.register e.1) (h.label e.1) (h.entry e he) (h.order_keys he)]
  have hreads : (∀ c, (m.rename R).Reads c → (m.rename R).HasConstant c) ↔
      ∀ c, m.Reads c → m.HasConstant c := by
    simp only [reads_rename_iff h]
    rfl
  constructor
  · intro hm
    exact ⟨hsymbols.1 hm.symbols, hssa.1 hm.ssa, hreads.1 hm.reads⟩
  · intro hm
    exact ⟨hsymbols.2 hm.symbols, hssa.2 hm.ssa, hreads.2 hm.reads⟩

end Module

end PointsTo
