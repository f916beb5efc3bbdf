import Mathlib
import PointsTo.Ir.Value

/-!
# What a checked module guarantees

A function passes the check of its form exactly if it has an entry, defines no register
twice, and reads and names only what it defines. A module that passes its check has
every symbol that its constants are addresses of, and every constant that it reads. The
case values of switches are the one kind of reference that the check does not reach.
-/

namespace PointsTo

/-! ## Repetitions -/

theorem firstRepeatFrom_eq_none_iff {α : Type} [DecidableEq α] {seen l : List α} :
    firstRepeatFrom seen l = none ↔ l.Nodup ∧ ∀ a ∈ l, a ∉ seen := by
  induction l generalizing seen with
  | nil => simp [firstRepeatFrom]
  | cons a rest ih =>
    by_cases h : a ∈ seen
    · simp [firstRepeatFrom, h]
    · simp only [firstRepeatFrom, h, if_false, ih, List.nodup_cons, List.mem_cons, not_or]
      grind

theorem firstRepeat?_eq_none_iff {α : Type} [DecidableEq α] {l : List α} :
    firstRepeat? l = none ↔ l.Nodup := by
  simp [firstRepeat?, firstRepeatFrom_eq_none_iff]

/-! ## Functions -/

namespace Function

/-- Static single assignment form of a function with blocks. -/
structure Ssa (f : Function) : Prop where
  entry : f.body.contains .entry = true
  nodup : f.definedRegisters.Nodup
  uses : ∀ b ∈ f.blocks, ∀ r ∈ blockUses b, r ∈ f.definedRegisters
  labels : ∀ b ∈ f.blocks, ∀ l ∈ blockLabels b, f.body.contains l = true

theorem blockFault?_eq_none_iff {f : Function} {b : Block} :
    f.blockFault? b = none ↔
      (∀ r ∈ blockUses b, r ∈ f.definedRegisters) ∧
        ∀ l ∈ blockLabels b, f.body.contains l = true := by
  simp only [blockFault?]
  split
  next r hr =>
    have hmem := List.mem_of_find?_eq_some hr
    have hnot : r ∉ f.definedRegisters := by simpa using List.find?_some hr
    simp only [reduceCtorEq, false_iff, not_and]
    exact fun h => absurd (h r hmem) hnot
  next hr =>
    have huses : ∀ r ∈ blockUses b, r ∈ f.definedRegisters := by simpa using hr
    rw [Option.map_eq_none_iff, List.find?_eq_none]
    simpa using fun _ => huses

theorem ssaFault?_eq_none_iff {f : Function} :
    f.ssaFault? = none ↔ f.isDeclaration = true ∨ f.Ssa := by
  unfold ssaFault?
  by_cases hd : f.isDeclaration = true
  · simp [hd]
  · simp only [hd, Bool.false_eq_true, if_false, false_or]
    by_cases he : f.body.contains .entry = true
    · simp only [he, Bool.not_true, Bool.false_eq_true, if_false]
      cases hr : firstRepeat? f.definedRegisters with
      | some r =>
        simp only [reduceCtorEq, false_iff]
        intro h
        rw [firstRepeat?_eq_none_iff.2 h.nodup] at hr
        cases hr
      | none =>
        simp only [List.findSome?_eq_none_iff, blockFault?_eq_none_iff]
        constructor
        · intro h
          exact ⟨he, firstRepeat?_eq_none_iff.1 hr, fun b hb => (h b hb).1,
            fun b hb => (h b hb).2⟩
        · exact fun h b hb => ⟨h.uses b hb, h.labels b hb⟩
    · simp only [he, Bool.not_false, if_true, reduceCtorEq, false_iff]
      exact fun h => he h.entry

/-- A declaration has no blocks. -/
theorem blocks_of_isDeclaration {f : Function} (h : f.isDeclaration = true) : f.blocks = [] := by
  have hempty : f.body.entries = [] := List.isEmpty_iff.1 h
  simp [blocks, Table.values, hempty]

theorem not_isDeclaration_of_mem {f : Function} {b : Block} (h : b ∈ f.blocks) :
    f.isDeclaration = false := by
  by_contra hd
  rw [blocks_of_isDeclaration (by simpa using hd)] at h
  cases h

end Function

/-! ## Modules -/

namespace Module

/-- The pool of the module has the constant. -/
def HasConstant (m : Module) (c : ConstId) : Prop := (m.constants.get? c).isSome = true

/-- The module reads a constant: in an initializer, or as an operand. -/
inductive Reads (m : Module) (c : ConstId) : Prop
  | initializer (g : Global) : g ∈ m.globals → g.initializer = some c → m.Reads c
  | instr (f : Function) (b : Block) (i : Instr) : f ∈ m.functions → b ∈ f.blocks →
      i ∈ b.instrs → .imm c ∈ i.operands → m.Reads c
  | terminator (f : Function) (b : Block) : f ∈ m.functions → b ∈ f.blocks →
      .imm c ∈ b.terminator.operands → m.Reads c

/-- The constant is a case value of a switch of the module. -/
def HasCase (m : Module) (c : ConstId) : Prop :=
  ∃ f ∈ m.functions, ∃ b ∈ f.blocks, c ∈ b.terminator.caseValues

/-- The symbols that the constants of the pool are addresses of exist. -/
structure SymbolsExist (m : Module) : Prop where
  global : ∀ e ∈ m.constants.entries, ∀ g, e.value = .globalAddr g → (m.global? g).isSome = true
  function : ∀ e ∈ m.constants.entries, ∀ f, e.value = .functionAddr f →
    (m.function? f).isSome = true

theorem symbolFault?_eq_none_iff {m : Module} {e : TypedConst} :
    m.symbolFault? e = none ↔
      (∀ g, e.value = .globalAddr g → (m.global? g).isSome = true) ∧
        ∀ f, e.value = .functionAddr f → (m.function? f).isSome = true := by
  unfold symbolFault?
  cases e.value <;> simp [Option.isSome_iff_ne_none]

theorem constantFault?_eq_none_iff {m : Module} {c : ConstId} :
    m.constantFault? c = none ↔ m.HasConstant c := by
  simp [constantFault?, HasConstant, Option.isSome_iff_ne_none]

theorem functionFault?_eq_none_iff {m : Module} {f : Function} :
    m.functionFault? f = none ↔ (f.isDeclaration = true ∨ f.Ssa) ∧
      ∀ b ∈ f.blocks, ∀ c, .imm c ∈ Function.blockOperands b → m.HasConstant c := by
  unfold functionFault?
  cases hf : f.ssaFault? with
  | some fault =>
    have hno : ¬ (f.isDeclaration = true ∨ f.Ssa) := by simp [← Function.ssaFault?_eq_none_iff, hf]
    simp [hno]
  | none =>
    simp only [Function.ssaFault?_eq_none_iff.1 hf, true_and, List.findSome?_eq_none_iff,
      List.mem_flatMap]
    constructor
    · intro h b hb c hc
      exact constantFault?_eq_none_iff.1 (by simpa [Operand.constant?] using h (.imm c) ⟨b, hb, hc⟩)
    · rintro h o ⟨b, hb, ho⟩
      cases o with
      | imm c => simpa [Operand.constant?] using constantFault?_eq_none_iff.2 (h b hb c ho)
      | reg r => rfl
      | label l => rfl

/-- The check of a module, as a condition on the module. -/
structure Checked (m : Module) : Prop where
  symbols : m.SymbolsExist
  ssa : ∀ f ∈ m.functions, f.isDeclaration = true ∨ f.Ssa
  reads : ∀ c, m.Reads c → m.HasConstant c

theorem verify_eq_ok_iff {m : Module} : m.verify = .ok () ↔ m.Checked := by
  have hverify : m.verify = .ok () ↔ m.fault? = none := by
    unfold verify
    cases m.fault? <;> simp
  have hfault : m.fault? = none ↔
      (∀ e ∈ m.constants.entries, m.symbolFault? e = none) ∧
        (∀ g ∈ m.globals, g.initializer.bind m.constantFault? = none) ∧
          ∀ f ∈ m.functions, m.functionFault? f = none := by
    unfold fault?
    simp only [← List.findSome?_eq_none_iff]
    cases m.constants.entries.findSome? m.symbolFault? with
    | some fault => simp
    | none => cases m.globals.findSome? fun g => g.initializer.bind m.constantFault? <;> simp
  rw [hverify, hfault]
  simp only [symbolFault?_eq_none_iff, functionFault?_eq_none_iff, Option.bind_eq_none_iff,
    constantFault?_eq_none_iff]
  constructor
  · rintro ⟨hsymbols, hinit, hfun⟩
    refine ⟨⟨fun e he => (hsymbols e he).1, fun e he => (hsymbols e he).2⟩,
      fun f hf => (hfun f hf).1, ?_⟩
    intro c hc
    cases hc with
    | initializer g hg hc => exact hinit g hg c hc
    | instr f b i hf hb hi hc =>
      exact (hfun f hf).2 b hb c (List.mem_append_left _ (List.mem_flatMap.2 ⟨i, hi, hc⟩))
    | terminator f b hf hb hc => exact (hfun f hf).2 b hb c (List.mem_append_right _ hc)
  · intro h
    refine ⟨fun e he => ⟨h.symbols.global e he, h.symbols.function e he⟩,
      fun g hg c hc => h.reads c (.initializer g hg hc), fun f hf => ⟨h.ssa f hf, ?_⟩⟩
    intro b hb c hc
    rcases List.mem_append.1 hc with hc | hc
    · obtain ⟨i, hi, hc⟩ := List.mem_flatMap.1 hc
      exact h.reads c (.instr f b i hf hb hi hc)
    · exact h.reads c (.terminator f b hf hb hc)

/-! ## References -/

/-- In a module that passes its check the symbols behind addresses exist, and so does
every constant that is read. So all references to constants lead somewhere exactly if the
case values of the switches do, which the check does not look at. -/
theorem references_exist_iff_cases_exist (m : Module) (h : m.verify = .ok ()) :
    m.SymbolsExist ∧ (∀ c, m.Reads c → m.HasConstant c) ∧
      ((∀ c, m.Reads c ∨ m.HasCase c → m.HasConstant c) ↔
        ∀ c, m.HasCase c → m.HasConstant c) := by
  have hm : m.Checked := verify_eq_ok_iff.1 h
  refine ⟨hm.symbols, hm.reads, fun hall c hc => hall c (.inr hc), fun hcases c hc => ?_⟩
  rcases hc with hc | hc
  · exact hm.reads c hc
  · exact hcases c hc

/-- A number, the null pointer and the address of the first function. -/
def fewConstants : ConstPool :=
  (((ConstPool.empty.push ⟨.int .i64 1, ⟨1⟩⟩ (by decide)).push ⟨.null, ⟨0⟩⟩ (by decide)).push
    ⟨.functionAddr ⟨0⟩, ⟨0⟩⟩ (by decide))

/-- A global that holds the address of a function, which ends in a switch between two
values. -/
def switching (first second : ConstId) : Module where
  name := "m"
  globals := [⟨"g", ⟨0⟩, some ⟨2⟩, .external, .default, false⟩]
  functions := [.define "f" [] none [⟨.entry, [], .switch (.imm ⟨0⟩) .entry
    [(first, .entry), (second, .entry)]⟩]]
  constants := fewConstants

theorem switching_references_exist :
    (switching ⟨0⟩ ⟨1⟩).verify = .ok () ∧ (switching ⟨0⟩ ⟨1⟩).SymbolsExist ∧
      (∀ c, (switching ⟨0⟩ ⟨1⟩).Reads c → (switching ⟨0⟩ ⟨1⟩).HasConstant c) ∧
        ((∀ c, (switching ⟨0⟩ ⟨1⟩).Reads c ∨ (switching ⟨0⟩ ⟨1⟩).HasCase c →
          (switching ⟨0⟩ ⟨1⟩).HasConstant c) ↔
            ∀ c, (switching ⟨0⟩ ⟨1⟩).HasCase c → (switching ⟨0⟩ ⟨1⟩).HasConstant c) :=
  have h : (switching ⟨0⟩ ⟨1⟩).verify = .ok () := by rfl
  ⟨h, references_exist_iff_cases_exist _ h⟩

/-- A module may pass its check and refer to a constant that it lacks. -/
theorem verify_not_reference_complete :
    ¬ ∀ m : Module, m.verify = .ok () →
      ∀ c, m.Reads c ∨ m.HasCase c → m.HasConstant c := by
  intro h
  have hcase : (switching ⟨0⟩ ⟨9⟩).HasCase ⟨9⟩ :=
    ⟨_, List.mem_singleton_self _, _, List.mem_singleton_self _, by decide⟩
  have hpool : ¬ (switching ⟨0⟩ ⟨9⟩).HasConstant ⟨9⟩ := by
    unfold HasConstant
    decide
  exact hpool (h (switching ⟨0⟩ ⟨9⟩) rfl ⟨9⟩ (.inr hcase))

end Module

end PointsTo
