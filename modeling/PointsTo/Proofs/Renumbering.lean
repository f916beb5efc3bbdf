import Mathlib
import PointsTo.Proofs.Names

/-!
# Renumbering constants

A pool numbers constants in the order they were first asked for. Another order gives the
constants that a module refers to, and those they are built from, other numbers; what else is
in the pool is not seen. A renumbering is one-to-one where numbers are seen, so it agrees
there with a map that is one-to-one on all numbers.
-/

namespace PointsTo

/-! ## Tables of other values under the same keys -/

namespace Table

variable {κ α β : Type} [Ord κ]

def map (g : α → β) (t : Table κ α) : Table κ β where
  entries := t.entries.map fun e => (e.1, g e.2)
  sorted := List.pairwise_map.2 t.sorted

@[simp] theorem values_map (g : α → β) (t : Table κ α) : (t.map g).values = t.values.map g := by
  simp [values, map]

@[simp] theorem size_map (g : α → β) (t : Table κ α) : (t.map g).size = t.size :=
  List.length_map _

@[simp] theorem isEmpty_map (g : α → β) (t : Table κ α) : (t.map g).isEmpty = t.isEmpty :=
  List.isEmpty_map

@[simp] theorem get?_map (g : α → β) (t : Table κ α) (k : κ) :
    (t.map g).get? k = (t.get? k).map g := by
  simp [get?, map, List.find?_map, Function.comp_def]

theorem map_congr {g g' : α → β} {t : Table κ α} (h : ∀ a ∈ t.values, g a = g' a) :
    t.map g = t.map g' := by
  have hentries : (t.entries.map fun e => (e.1, g e.2)) = t.entries.map fun e => (e.1, g' e.2) :=
    List.map_congr_left fun e he => by rw [h e.2 (List.mem_map_of_mem he)]
  simp only [map, hentries]

end Table

/-! ## Numbers of the constants of a module -/

section Parts

variable (π : ConstId → ConstId)

def Operand.renumber : Operand → Operand
  | .imm c => .imm (π c)
  | o => o

def Invoke.renumber (call : Invoke) : Invoke :=
  { call with
    function := call.function.renumber π
    args := call.args.map (Operand.renumber π) }

def Instr.renumber : Instr → Instr
  | .iarith dest ty op lhs rhs => .iarith dest ty op (lhs.renumber π) (rhs.renumber π)
  | .icmp dest ty op lhs rhs => .icmp dest ty op (lhs.renumber π) (rhs.renumber π)
  | .farith dest ty op lhs rhs => .farith dest ty op (lhs.renumber π) (rhs.renumber π)
  | .fcmp dest ty op lhs rhs => .fcmp dest ty op (lhs.renumber π) (rhs.renumber π)
  | .load dest ty addr access => .load dest ty (addr.renumber π) access
  | .store addr value access => .store (addr.renumber π) (value.renumber π) access
  | .alloca dest ty count alignment => .alloca dest ty (count.renumber π) alignment
  | .elementPtr dest ty base indices =>
    .elementPtr dest ty (base.renumber π) (indices.map (Operand.renumber π))
  | .invoke call => .invoke (call.renumber π)
  | .phi dest ty incoming => .phi dest ty (incoming.map fun e => (e.1, e.2.renumber π))
  | .select dest condition ifTrue ifFalse ty =>
    .select dest (condition.renumber π) (ifTrue.renumber π) (ifFalse.renumber π) ty
  | .cast dest op ty value => .cast dest op ty (value.renumber π)

def Terminator.renumber : Terminator → Terminator
  | .branch cond ifTrue ifFalse => .branch (cond.renumber π) ifTrue ifFalse
  | .jump target => .jump target
  | .switch value default cases =>
    .switch (value.renumber π) default (cases.map fun e => (π e.1, e.2))
  | .ret value => .ret (value.map (Operand.renumber π))
  | .trap => .trap

def Block.renumber (b : Block) : Block where
  label := b.label
  instrs := b.instrs.map (Instr.renumber π)
  terminator := b.terminator.renumber π

def Function.renumber (f : Function) : Function := { f with body := f.body.map (Block.renumber π) }

def Global.renumber (g : Global) : Global := { g with initializer := g.initializer.map π }

def Const.renumber : Const → Const
  | .aggregate ty elements => .aggregate ty (elements.map π)
  | .elementAddr base ty indices => .elementAddr (π base) ty indices
  | c => c

def TypedConst.renumber (e : TypedConst) : TypedConst := { e with value := e.value.renumber π }

/-! ## What does not depend on numbers -/

@[simp] theorem Operand.constant?_renumber (o : Operand) :
    (o.renumber π).constant? = o.constant?.map π := by
  cases o <;> rfl

theorem filterMap_constant?_renumber (operands : List Operand) :
    (operands.map (Operand.renumber π)).filterMap Operand.constant? =
      (operands.filterMap Operand.constant?).map π := by
  simp [List.filterMap_map, List.map_filterMap]

namespace Instr

@[simp] theorem operands_renumber (i : Instr) :
    (i.renumber π).operands = i.operands.map (Operand.renumber π) := by
  cases i <;> simp [renumber, operands, Invoke.renumber]

@[simp] theorem dest?_renumber (i : Instr) : (i.renumber π).dest? = i.dest? := by
  cases i <;> rfl

@[simp] theorem resultType?_renumber (i : Instr) :
    (i.renumber π).resultType? = i.resultType? := by
  cases i <;> rfl

@[simp] theorem opcode_renumber (i : Instr) : (i.renumber π).opcode = i.opcode := by
  cases i <;> rfl

end Instr

namespace Terminator

@[simp] theorem operands_renumber (t : Terminator) :
    (t.renumber π).operands = t.operands.map (Operand.renumber π) := by
  cases t with
  | ret value => cases value <;> rfl
  | _ => rfl

@[simp] theorem caseValues_renumber (t : Terminator) :
    (t.renumber π).caseValues = t.caseValues.map π := by
  cases t <;> simp [renumber, caseValues]

@[simp] theorem successors_renumber (t : Terminator) :
    (t.renumber π).successors = t.successors := by
  cases t <;> simp [renumber, successors, Function.comp_def]

@[simp] theorem opcode_renumber (t : Terminator) : (t.renumber π).opcode = t.opcode := by
  cases t <;> rfl

end Terminator

namespace Function

@[simp] theorem blocks_renumber (f : Function) :
    (f.renumber π).blocks = f.blocks.map (Block.renumber π) :=
  Table.values_map _ _

@[simp] theorem isDeclaration_renumber (f : Function) :
    (f.renumber π).isDeclaration = f.isDeclaration :=
  Table.isEmpty_map _ _

theorem blockDefinitions_renumber (b : Block) :
    blockDefinitions (b.renumber π) = blockDefinitions b := by
  simp [blockDefinitions, Block.renumber, List.zipIdx_map, List.filterMap_map]

@[simp] theorem definitions_renumber (f : Function) :
    (f.renumber π).definitions = f.definitions := by
  have hparams : (f.renumber π).params = f.params := rfl
  simp only [definitions, definitionList, blocks_renumber, List.flatMap_map,
    blockDefinitions_renumber, hparams]

end Function

@[simp] theorem Scope.definitionType?_renumber (f : Function) (d : Definition) :
    definitionType? (f.renumber π) d = definitionType? f d := by
  cases d with
  | param k => rfl
  | instr l k =>
    simp only [definitionType?, Function.renumber, Table.get?_map, Option.bind_map]
    cases f.body.get? l with
    | none => rfl
    | some b => simp [Block.renumber, Option.bind_map, Function.comp_def]

@[simp] theorem Scope.new_renumber (f : FunctionId) (function : Function) :
    Scope.new f (function.renumber π) = Scope.new f function := by
  simp [Scope.new]

end Parts

/-! ## Numbers that occur -/

section Congruence

variable {π π' : ConstId → ConstId}

theorem Operand.renumber_congr {o : Operand} (h : ∀ c, o = .imm c → π c = π' c) :
    o.renumber π = o.renumber π' := by
  cases o with
  | imm c => exact congrArg Operand.imm (h c rfl)
  | _ => rfl

theorem Operand.map_renumber_congr {operands : List Operand}
    (h : ∀ c ∈ operands.filterMap Operand.constant?, π c = π' c) :
    ∀ o ∈ operands, o.renumber π = o.renumber π' := by
  intro o ho
  apply Operand.renumber_congr
  rintro c rfl
  exact h c (mem_filterMap_constant?.2 ho)

theorem Instr.renumber_congr {i : Instr} (h : ∀ c ∈ i.constants, π c = π' c) :
    i.renumber π = i.renumber π' := by
  have ho := Operand.map_renumber_congr h
  cases i with
  | elementPtr dest ty base indices =>
    rw [operands, List.forall_mem_cons] at ho
    rw [renumber, renumber, ho.1, List.map_congr_left ho.2]
  | invoke call =>
    rw [operands, List.forall_mem_cons] at ho
    rw [renumber, renumber, Invoke.renumber, Invoke.renumber, ho.1, List.map_congr_left ho.2]
  | phi dest ty incoming =>
    rw [operands, List.forall_mem_map] at ho
    rw [renumber, renumber]
    congr 1
    apply List.map_congr_left
    intro e he
    rw [ho e he]
  | _ => simp_all [renumber, operands]

theorem Terminator.renumber_congr {t : Terminator} (h : ∀ c ∈ t.constants, π c = π' c) :
    t.renumber π = t.renumber π' := by
  rw [constants, List.forall_mem_append] at h
  have ho := Operand.map_renumber_congr h.1
  cases t with
  | switch value default cases =>
    have hcases := h.2
    rw [caseValues, List.forall_mem_map] at hcases
    rw [renumber, renumber, ho value (by simp [operands])]
    congr 1
    apply List.map_congr_left
    intro e he
    rw [hcases e he]
  | ret value => cases value <;> simp_all [renumber, operands]
  | _ => simp_all [renumber, operands]

theorem Function.renumber_congr {f : Function} (h : ∀ c ∈ f.constants, π c = π' c) :
    f.renumber π = f.renumber π' := by
  have hblocks : ∀ b ∈ f.body.values, b.renumber π = b.renumber π' := by
    intro b hb
    have hconstants : ∀ c ∈ b.constants, π c = π' c := fun c hc =>
      h c (List.mem_flatMap.2 ⟨b, hb, hc⟩)
    rw [Block.constants, List.forall_mem_append] at hconstants
    have hinstrs : b.instrs.map (Instr.renumber π) = b.instrs.map (Instr.renumber π') := by
      apply List.map_congr_left
      intro i hi
      exact Instr.renumber_congr fun c hc => hconstants.1 c (List.mem_flatMap.2 ⟨i, hi, hc⟩)
    rw [Block.renumber, Block.renumber, hinstrs, Terminator.renumber_congr hconstants.2]
  rw [renumber, renumber, Table.map_congr hblocks]

theorem Const.renumber_congr {value : Const} (h : ∀ c ∈ value.children, π c = π' c) :
    value.renumber π = value.renumber π' := by
  cases value with
  | aggregate ty elements => exact congrArg (Const.aggregate ty) (List.map_congr_left h)
  | elementAddr base ty indices =>
    exact congrArg (Const.elementAddr · ty indices) (h base List.mem_cons_self)
  | _ => rfl

end Congruence

/-! ## Renumberings -/

namespace Module

/-- A reference of the module is the constant, or is built from it. -/
def Leads (m : Module) (c : ConstId) : Prop := ∃ d ∈ m.references, m.Reaches d c

/-- The second module is the first with other numbers for the constants that its references
lead to. Their entries are the same, up to the numbers; nothing is said of other entries. -/
structure Renumbers (π : ConstId → ConstId) (m m' : Module) : Prop where
  name : m'.name = m.name
  globals : m'.globals = m.globals.map (Global.renumber π)
  functions : m'.functions = m.functions.map (Function.renumber π)
  injOn : ∀ c d, m.Leads c → m.Leads d → π c = π d → c = d
  get? : ∀ c, m.Leads c →
    m'.constants.get? (π c) = (m.constants.get? c).map (TypedConst.renumber π)

variable {m m' : Module} {π : ConstId → ConstId}

theorem leads_of_mem {c : ConstId} (h : c ∈ m.references) : m.Leads c := ⟨c, h, .refl⟩

theorem Leads.child {c d : ConstId} (h : m.Leads c) (hd : d ∈ m.constantChildren c) :
    m.Leads d := by
  obtain ⟨e, he, hr⟩ := h
  exact ⟨e, he, hr.tail hd⟩

theorem leads_of_mem_constants {function : Function} (hf : function ∈ m.functions) {c : ConstId}
    (hc : c ∈ function.constants) : m.Leads c :=
  leads_of_mem (List.mem_append_right _ (List.mem_flatMap.2 ⟨function, hf, hc⟩))

theorem leads_of_initializer {g : Global} (hg : g ∈ m.globals) {c : ConstId}
    (hc : g.initializer = some c) : m.Leads c :=
  leads_of_mem (List.mem_append_left _ (List.mem_filterMap.2 ⟨g, hg, hc⟩))

/-- References lead to constants with numbers up to their own, so to finitely many. -/
theorem exists_list_leads (m : Module) : ∃ l : List ConstId, ∀ c, c ∈ l ↔ m.Leads c := by
  classical
  refine ⟨(m.references.flatMap fun d => (List.range (d.index + 1)).map ConstId.mk).filter
    fun c => m.Leads c, fun c => ?_⟩
  simp only [List.mem_filter, decide_eq_true_eq, and_iff_right_iff_imp]
  rintro ⟨d, hd, hr⟩
  refine List.mem_flatMap.2 ⟨d, hd, List.mem_map.2 ⟨c.index, ?_, rfl⟩⟩
  exact List.mem_range.2 (Nat.lt_succ_of_le hr.index_le)

instance : Infinite ConstId := Infinite.of_injective ConstId.mk fun _ _ h => by simpa using h

namespace Renumbers

/-- Only the numbers of constants that references lead to matter. -/
theorem congr (h : m.Renumbers π m') {π' : ConstId → ConstId}
    (heq : ∀ c, m.Leads c → π' c = π c) : m.Renumbers π' m' where
  name := h.name
  globals := by
    rw [h.globals]
    apply List.map_congr_left
    intro g hg
    have hinitializer : g.initializer.map π = g.initializer.map π' :=
      Option.map_congr fun c hc => (heq c (leads_of_initializer hg hc)).symm
    rw [Global.renumber, Global.renumber, hinitializer]
  functions := by
    rw [h.functions]
    apply List.map_congr_left
    intro f hf
    exact Function.renumber_congr fun c hc => (heq c (leads_of_mem_constants hf hc)).symm
  injOn c d hc hd hcd := h.injOn c d hc hd (by rwa [heq c hc, heq d hd] at hcd)
  get? c hc := by
    rw [heq c hc, h.get? c hc]
    cases he : m.constants.get? c with
    | none => rfl
    | some e =>
      have hvalue : e.value.renumber π = e.value.renumber π' := by
        apply Const.renumber_congr
        intro d hd
        exact (heq d (hc.child (by simpa [constantChildren, he] using hd))).symm
      simp [TypedConst.renumber, hvalue]

/-- A renumbering agrees, where numbers are seen, with one that is injective. -/
theorem exists_injective (h : m.Renumbers π m') :
    ∃ σ : ConstId → ConstId, Function.Injective σ ∧ m.Renumbers σ m' ∧
      ∀ c, m.Leads c → σ c = π c := by
  obtain ⟨l, hl⟩ := m.exists_list_leads
  have hinjOn : ∀ c ∈ l, ∀ d ∈ l, π c = π d → c = d := fun c hc d hd =>
    h.injOn c d ((hl c).1 hc) ((hl d).1 hd)
  obtain ⟨σ, hσ, heq⟩ := PointsTo.exists_injective_of_injOn hinjOn
  have hσπ : ∀ c, m.Leads c → σ c = π c := fun c hc => heq c ((hl c).2 hc)
  exact ⟨σ, hσ, h.congr hσπ, hσπ⟩

end Renumbers

end Module

end PointsTo
