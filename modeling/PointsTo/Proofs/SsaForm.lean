import Mathlib
import PointsTo.Proofs.Verification

/-!
# The check of static single assignment form is exact

What can be wrong with the form of a function is said here without the check: a missing entry, a
register with two definitions, a register that is read and never defined, a label that is named
and is the key of no block. The check passes a function that has blocks exactly if nothing of
this kind is wrong with it, in whatever order its blocks define and read registers. Otherwise it
reports something that is wrong.
-/

namespace PointsTo

/-! ## The first repetition -/

section Repetitions

variable {α : Type} [DecidableEq α] {seen l : List α} {a : α}

/-- What is reported stands after elements without repetitions, and is one of them or was seen
before them. -/
theorem firstRepeatFrom_eq_some_iff :
    firstRepeatFrom seen l = some a ↔ ∃ before after, l = before ++ a :: after ∧
      before.Nodup ∧ (∀ b ∈ before, b ∉ seen) ∧ (a ∈ seen ∨ a ∈ before) := by
  induction l generalizing seen with
  | nil => simp [firstRepeatFrom]
  | cons b rest ih =>
    by_cases hb : b ∈ seen
    · rw [firstRepeatFrom, if_pos hb, Option.some.injEq]
      constructor
      · rintro rfl
        exact ⟨[], rest, rfl, .nil, by simp, .inl hb⟩
      · rintro ⟨before, after, heq, -, hbefore, -⟩
        cases before with
        | nil => exact (List.cons.inj heq).1
        | cons c before =>
          obtain rfl := (List.cons.inj heq).1
          exact absurd hb (hbefore b List.mem_cons_self)
    · rw [firstRepeatFrom, if_neg hb, ih]
      constructor
      · rintro ⟨before, after, rfl, hnodup, hbefore, ha⟩
        refine ⟨b :: before, after, rfl, ?_, ?_, ?_⟩
        · exact List.nodup_cons.2 ⟨fun hmem => hbefore b hmem List.mem_cons_self, hnodup⟩
        · refine List.forall_mem_cons.2 ⟨hb, fun c hc hseen => ?_⟩
          exact hbefore c hc (List.mem_cons_of_mem b hseen)
        · rw [List.mem_cons] at ha ⊢
          tauto
      · rintro ⟨before, after, heq, hnodup, hbefore, ha⟩
        cases before with
        | nil =>
          obtain rfl := (List.cons.inj heq).1
          exact absurd (ha.resolve_right List.not_mem_nil) hb
        | cons c before =>
          obtain ⟨rfl, rfl⟩ := List.cons.inj heq
          rw [List.nodup_cons] at hnodup
          refine ⟨before, after, rfl, hnodup.2, fun c hc hmem => ?_, ?_⟩
          · rcases List.mem_cons.1 hmem with rfl | hseen
            · exact hnodup.1 hc
            · exact hbefore c (List.mem_cons_of_mem b hc) hseen
          · rw [List.mem_cons] at ha ⊢
            tauto

/-- The reported element is the first that occurs before. -/
theorem firstRepeat?_eq_some_iff :
    firstRepeat? l = some a ↔
      ∃ before after, l = before ++ a :: after ∧ before.Nodup ∧ a ∈ before := by
  simp [firstRepeat?, firstRepeatFrom_eq_some_iff]

theorem two_le_count_of_firstRepeat? (h : firstRepeat? l = some a) : 2 ≤ l.count a := by
  obtain ⟨before, after, rfl, -, ha⟩ := firstRepeat?_eq_some_iff.1 h
  have hbefore := List.count_pos_iff.2 ha
  rw [List.count_append, List.count_cons_self]
  omega

end Repetitions

/-! ## Where labels are named -/

/-- Control may go from the end of a block to the label. -/
inductive Terminator.GoesTo : Terminator → Label → Prop
  | ifTrue (cond : Operand) (l other : Label) : GoesTo (.branch cond l other) l
  | ifFalse (cond : Operand) (other l : Label) : GoesTo (.branch cond other l) l
  | jump (l : Label) : GoesTo (.jump l) l
  | default (value : Operand) (l : Label) (cases : List (ConstId × Label)) :
      GoesTo (.switch value l cases) l
  | case (value : Operand) (other : Label) {cases : List (ConstId × Label)} {c : ConstId}
      {l : Label} : (c, l) ∈ cases → GoesTo (.switch value other cases) l

theorem Terminator.mem_successors_iff {t : Terminator} {l : Label} :
    l ∈ t.successors ↔ t.GoesTo l := by
  constructor
  · intro h
    cases t with
    | branch cond ifTrue ifFalse =>
      rcases List.mem_pair.1 h with rfl | rfl
      · exact .ifTrue cond l ifFalse
      · exact .ifFalse cond ifTrue l
    | jump target =>
      obtain rfl := List.mem_singleton.1 h
      exact .jump l
    | switch value default cases =>
      rcases List.mem_cons.1 h with rfl | h
      · exact .default value l cases
      · obtain ⟨⟨c, l⟩, hcase, rfl⟩ := List.mem_map.1 h
        exact .case value default hcase
    | ret value => cases h
    | trap => cases h
  · intro h
    cases h with
    | case value other hcase => exact List.mem_cons_of_mem _ (List.mem_map_of_mem hcase)
    | _ => simp [successors]

theorem Instr.mem_predecessors_iff {i : Instr} {l : Label} :
    l ∈ i.predecessors ↔ ∃ dest ty incoming o, i = .phi dest ty incoming ∧ (l, o) ∈ incoming := by
  cases i with
  | phi dest ty incoming =>
    rw [predecessors, List.mem_map]
    constructor
    · rintro ⟨⟨l, o⟩, h, rfl⟩
      exact ⟨dest, ty, incoming, o, rfl, h⟩
    · rintro ⟨_, _, _, o, ⟨⟩, h⟩
      exact ⟨(l, o), h, rfl⟩
  | _ => simp [predecessors]

/-! ## Where registers are read -/

/-- The instruction reads the operand: a side of an operation, an address or what is stored there,
a number of elements, the base or an index of an address computation, the callee or an argument of
a call, what a phi takes from a block, a part of a selection, what is converted. -/
inductive Instr.Reads : Instr → Operand → Prop
  | iarithLeft {dest ty op lhs rhs} : Reads (.iarith dest ty op lhs rhs) lhs
  | iarithRight {dest ty op lhs rhs} : Reads (.iarith dest ty op lhs rhs) rhs
  | icmpLeft {dest ty op lhs rhs} : Reads (.icmp dest ty op lhs rhs) lhs
  | icmpRight {dest ty op lhs rhs} : Reads (.icmp dest ty op lhs rhs) rhs
  | farithLeft {dest ty op lhs rhs} : Reads (.farith dest ty op lhs rhs) lhs
  | farithRight {dest ty op lhs rhs} : Reads (.farith dest ty op lhs rhs) rhs
  | fcmpLeft {dest ty op lhs rhs} : Reads (.fcmp dest ty op lhs rhs) lhs
  | fcmpRight {dest ty op lhs rhs} : Reads (.fcmp dest ty op lhs rhs) rhs
  | loaded {dest ty addr access} : Reads (.load dest ty addr access) addr
  | storedAt {addr value access} : Reads (.store addr value access) addr
  | stored {addr value access} : Reads (.store addr value access) value
  | count {dest ty count alignment} : Reads (.alloca dest ty count alignment) count
  | base {dest ty base indices} : Reads (.elementPtr dest ty base indices) base
  | index {dest ty base indices o} : o ∈ indices → Reads (.elementPtr dest ty base indices) o
  | callee {call} : Reads (.invoke call) call.function
  | argument {call o} : o ∈ call.args → Reads (.invoke call) o
  | incoming {dest ty incoming l o} : (l, o) ∈ incoming → Reads (.phi dest ty incoming) o
  | condition {dest cond ifTrue ifFalse ty} : Reads (.select dest cond ifTrue ifFalse ty) cond
  | ifTrue {dest cond ifTrue ifFalse ty} : Reads (.select dest cond ifTrue ifFalse ty) ifTrue
  | ifFalse {dest cond ifTrue ifFalse ty} : Reads (.select dest cond ifTrue ifFalse ty) ifFalse
  | converted {dest op ty value} : Reads (.cast dest op ty value) value

/-- The terminator reads the operand: what it decides by, or what it returns. -/
inductive Terminator.Reads : Terminator → Operand → Prop
  | branch {cond ifTrue ifFalse} : Reads (.branch cond ifTrue ifFalse) cond
  | switch {value default cases} : Reads (.switch value default cases) value
  | ret {value} : Reads (.ret (some value)) value

theorem Instr.mem_operands_iff {i : Instr} {o : Operand} : o ∈ i.operands ↔ i.Reads o := by
  constructor
  · intro h
    cases i with
    | iarith =>
      rcases List.mem_pair.1 h with rfl | rfl
      · exact .iarithLeft
      · exact .iarithRight
    | icmp =>
      rcases List.mem_pair.1 h with rfl | rfl
      · exact .icmpLeft
      · exact .icmpRight
    | farith =>
      rcases List.mem_pair.1 h with rfl | rfl
      · exact .farithLeft
      · exact .farithRight
    | fcmp =>
      rcases List.mem_pair.1 h with rfl | rfl
      · exact .fcmpLeft
      · exact .fcmpRight
    | load =>
      obtain rfl := List.mem_singleton.1 h
      exact .loaded
    | store =>
      rcases List.mem_pair.1 h with rfl | rfl
      · exact .storedAt
      · exact .stored
    | alloca =>
      obtain rfl := List.mem_singleton.1 h
      exact .count
    | elementPtr =>
      rcases List.mem_cons.1 h with rfl | h
      · exact .base
      · exact .index h
    | invoke =>
      rcases List.mem_cons.1 h with rfl | h
      · exact .callee
      · exact .argument h
    | phi =>
      obtain ⟨⟨l, o⟩, hway, rfl⟩ := List.mem_map.1 h
      exact .incoming hway
    | select =>
      rcases List.mem_cons.1 h with rfl | h
      · exact .condition
      · rcases List.mem_pair.1 h with rfl | rfl
        · exact .ifTrue
        · exact .ifFalse
    | cast =>
      obtain rfl := List.mem_singleton.1 h
      exact .converted
  · intro h
    cases h with
    | index h => exact List.mem_cons_of_mem _ h
    | argument h => exact List.mem_cons_of_mem _ h
    | incoming hway => exact List.mem_map_of_mem hway
    | _ => simp [operands]

theorem Terminator.mem_operands_iff {t : Terminator} {o : Operand} :
    o ∈ t.operands ↔ t.Reads o := by
  constructor
  · intro h
    cases t with
    | branch =>
      obtain rfl := List.mem_singleton.1 h
      exact .branch
    | switch =>
      obtain rfl := List.mem_singleton.1 h
      exact .switch
    | ret value =>
      obtain rfl := Option.mem_toList.1 h
      exact .ret
    | jump => cases h
    | trap => cases h
  · intro h
    cases h <;> simp [operands]

theorem mem_filterMap_register? {operands : List Operand} {r : Register} :
    r ∈ operands.filterMap Operand.register? ↔ .reg r ∈ operands := by
  rw [List.mem_filterMap]
  constructor
  · rintro ⟨o, ho, hr⟩
    cases o with
    | reg name =>
      cases hr
      exact ho
    | imm c => cases hr
    | label l => cases hr
  · exact fun h => ⟨_, h, rfl⟩

/-! ## What can be wrong -/

namespace Function

variable {f : Function} {b : Block}

/-- The registers that the parameters are, and then those that the instructions define, in
layout order. -/
def bindings (f : Function) : List Register :=
  f.params.map Prod.fst ++ f.blocks.flatMap fun b => b.instrs.filterMap Instr.dest?

/-- An instruction or a terminator of the function reads the register. -/
inductive ReadsRegister (f : Function) (r : Register) : Prop
  | instr (b : Block) (i : Instr) : b ∈ f.blocks → i ∈ b.instrs → i.Reads (.reg r) →
      f.ReadsRegister r
  | terminator (b : Block) : b ∈ f.blocks → b.terminator.Reads (.reg r) → f.ReadsRegister r

/-- A phi of the function names the label, or a block may go there. -/
inductive NamesLabel (f : Function) (l : Label) : Prop
  | phi (b : Block) {dest : Register} {ty : TypeId} {incoming : List (Label × Operand)}
      {o : Operand} : b ∈ f.blocks → .phi dest ty incoming ∈ b.instrs → (l, o) ∈ incoming →
      f.NamesLabel l
  | terminator (b : Block) : b ∈ f.blocks → b.terminator.GoesTo l → f.NamesLabel l

/-- The fault is one that the form of the function has. -/
inductive HasFault (f : Function) : Fault → Prop
  | missingEntry : .entry ∉ f.body.keys → f.HasFault .missingEntry
  | duplicateRegister {r : Register} : 2 ≤ f.bindings.count r → f.HasFault (.duplicateRegister r)
  | undefinedRegister {r : Register} : f.ReadsRegister r → r ∉ f.bindings →
      f.HasFault (.undefinedRegister r)
  | undefinedBlock {l : Label} : f.NamesLabel l → l ∉ f.body.keys →
      f.HasFault (.undefinedBlock f.name l)

theorem map_fst_blockDefinitions (b : Block) :
    (blockDefinitions b).map Prod.fst = b.instrs.filterMap Instr.dest? := by
  have hzip : (b.instrs.zipIdx.map Prod.fst).filterMap Instr.dest? =
      b.instrs.filterMap Instr.dest? := by
    rw [List.zipIdx_map_fst]
  rw [blockDefinitions, List.map_filterMap, ← hzip, List.filterMap_map]
  refine List.filterMap_congr fun e _ => ?_
  simp [Function.comp_def]

theorem definedRegisters_eq_bindings (f : Function) : f.definedRegisters = f.bindings := by
  have hparams : (f.params.zipIdx.map fun e => e.1.1) = f.params.map Prod.fst := by
    rw [← List.zipIdx_map_fst 0 f.params, List.map_map]
    simp [Function.comp_def]
  rw [definedRegisters, definitionList, bindings, List.map_append, List.map_map, List.map_flatMap]
  exact congrArg₂ (· ++ ·) hparams (List.flatMap_congr fun b _ => map_fst_blockDefinitions b)

theorem readsRegister_iff {r : Register} :
    f.ReadsRegister r ↔ ∃ b ∈ f.blocks, r ∈ blockUses b := by
  simp only [blockUses, Instr.uses, Terminator.uses, List.mem_append, List.mem_flatMap,
    mem_filterMap_register?, Instr.mem_operands_iff, Terminator.mem_operands_iff]
  constructor
  · rintro (⟨b, i, hb, hi, hr⟩ | ⟨b, hb, hr⟩)
    · exact ⟨b, hb, .inl ⟨i, hi, hr⟩⟩
    · exact ⟨b, hb, .inr hr⟩
  · rintro ⟨b, hb, ⟨i, hi, hr⟩ | hr⟩
    · exact .instr b i hb hi hr
    · exact .terminator b hb hr

theorem namesLabel_iff {l : Label} : f.NamesLabel l ↔ ∃ b ∈ f.blocks, l ∈ blockLabels b := by
  simp only [blockLabels, List.mem_append, List.mem_flatMap, Instr.mem_predecessors_iff,
    Terminator.mem_successors_iff]
  constructor
  · rintro (⟨b, hb, hi, hl⟩ | ⟨b, hb, hl⟩)
    · exact ⟨b, hb, .inl ⟨_, hi, _, _, _, _, rfl, hl⟩⟩
    · exact ⟨b, hb, .inr hl⟩
  · rintro ⟨b, hb, ⟨_, hi, _, _, _, _, rfl, hl⟩ | hl⟩
    · exact .phi b hb hi hl
    · exact .terminator b hb hl

/-! ## What the check reports -/

/-- What is reported of a block is wrong with the function. -/
theorem hasFault_of_blockFault? (hb : b ∈ f.blocks) {fault : Fault}
    (h : f.blockFault? b = some fault) : f.HasFault fault := by
  simp only [blockFault?] at h
  split at h
  next r hr =>
    cases h
    refine .undefinedRegister (readsRegister_iff.2 ⟨b, hb, List.mem_of_find?_eq_some hr⟩) ?_
    rw [← definedRegisters_eq_bindings]
    simpa using List.find?_some hr
  next =>
    obtain ⟨l, hl, rfl⟩ := Option.map_eq_some_iff.1 h
    refine .undefinedBlock (namesLabel_iff.2 ⟨b, hb, List.mem_of_find?_eq_some hl⟩) ?_
    rw [← Table.contains_iff_mem_keys]
    simpa using List.find?_some hl

theorem hasFault_of_ssaFault? {fault : Fault} (h : f.ssaFault? = some fault) :
    f.HasFault fault := by
  unfold ssaFault? at h
  split at h
  next => cases h
  next =>
    split at h
    next hentry =>
      cases h
      refine .missingEntry ?_
      rw [← Table.contains_iff_mem_keys]
      simpa using hentry
    next =>
      split at h
      next r hr =>
        cases h
        refine .duplicateRegister ?_
        rw [← definedRegisters_eq_bindings]
        exact two_le_count_of_firstRepeat? hr
      next =>
        obtain ⟨b, hb, hfault⟩ := List.exists_of_findSome?_eq_some h
        exact hasFault_of_blockFault? hb hfault

/-- The form that is checked, said of all that the function reads and names. -/
theorem ssa_iff :
    f.Ssa ↔ .entry ∈ f.body.keys ∧ f.bindings.Nodup ∧
      (∀ r, f.ReadsRegister r → r ∈ f.bindings) ∧ ∀ l, f.NamesLabel l → l ∈ f.body.keys := by
  rw [← definedRegisters_eq_bindings]
  constructor
  · intro h
    refine ⟨Table.contains_iff_mem_keys.1 h.entry, h.nodup, fun r hr => ?_, fun l hl => ?_⟩
    · obtain ⟨b, hb, hr⟩ := readsRegister_iff.1 hr
      exact h.uses b hb r hr
    · obtain ⟨b, hb, hl⟩ := namesLabel_iff.1 hl
      exact Table.contains_iff_mem_keys.1 (h.labels b hb l hl)
  · rintro ⟨hentry, hnodup, huses, hlabels⟩
    refine ⟨Table.contains_iff_mem_keys.2 hentry, hnodup, fun b hb r hr => ?_, fun b hb l hl => ?_⟩
    · exact huses r (readsRegister_iff.2 ⟨b, hb, hr⟩)
    · exact Table.contains_iff_mem_keys.2 (hlabels l (namesLabel_iff.2 ⟨b, hb, hl⟩))

/-- A function that has blocks passes the check of its form exactly if one of them is the entry,
no register is defined twice, and all that is read or named is there. A fault that is reported
is one that the function has. -/
theorem checkSsa_exact (f : Function) (hf : f.blocks ≠ []) :
    (f.checkSsa = .ok () ↔
        .entry ∈ f.body.keys ∧ f.bindings.Nodup ∧
          (∀ r, f.ReadsRegister r → r ∈ f.bindings) ∧ ∀ l, f.NamesLabel l → l ∈ f.body.keys) ∧
      ∀ fault, f.checkSsa = .error fault → f.HasFault fault := by
  have hdefined : ¬ f.isDeclaration = true := fun h => hf (blocks_of_isDeclaration h)
  rw [← ssa_iff, checkSsa]
  cases hfault : f.ssaFault? with
  | none =>
    have hssa := (ssaFault?_eq_none_iff.1 hfault).resolve_left hdefined
    exact ⟨⟨fun _ => hssa, fun _ => rfl⟩, nofun⟩
  | some fault =>
    have hssa : ¬ f.Ssa := by
      intro h
      rw [ssaFault?_eq_none_iff.2 (.inr h)] at hfault
      cases hfault
    refine ⟨⟨nofun, fun h => absurd h hssa⟩, ?_⟩
    rintro _ ⟨⟩
    exact hasFault_of_ssaFault? hfault

/-- A loop whose head reads a register that its body defines further down. The phi of the head
names the entry and another label, and the body adds a register. -/
def looping (back : Label) (step : Register) : Function :=
  .define "f" [(⟨0⟩, ⟨0⟩)] none
    [⟨.entry, [], .jump ⟨1⟩⟩,
      ⟨⟨1⟩, [.phi ⟨1⟩ ⟨0⟩ [(.entry, .reg ⟨0⟩), (back, .reg ⟨2⟩)]],
        .switch (.reg ⟨1⟩) ⟨2⟩ [(⟨0⟩, ⟨3⟩), (⟨1⟩, ⟨2⟩)]⟩,
      ⟨⟨2⟩, [.iarith ⟨2⟩ ⟨0⟩ .add (.reg ⟨1⟩) (.reg step)], .jump ⟨1⟩⟩,
      ⟨⟨3⟩, [], .ret (some (.reg ⟨1⟩))⟩]

theorem looping_exact :
    (looping ⟨2⟩ ⟨0⟩).blocks ≠ [] ∧ (looping ⟨2⟩ ⟨0⟩).checkSsa = .ok () ∧
      (looping ⟨2⟩ ⟨0⟩).bindings.Nodup ∧
      (∀ r, (looping ⟨2⟩ ⟨0⟩).ReadsRegister r → r ∈ (looping ⟨2⟩ ⟨0⟩).bindings) ∧
      (∀ l, (looping ⟨2⟩ ⟨0⟩).NamesLabel l → l ∈ (looping ⟨2⟩ ⟨0⟩).body.keys) ∧
      (looping ⟨7⟩ ⟨0⟩).blocks ≠ [] ∧
      (looping ⟨7⟩ ⟨0⟩).checkSsa = .error (.undefinedBlock "f" ⟨7⟩) ∧
      (looping ⟨7⟩ ⟨0⟩).HasFault (.undefinedBlock "f" ⟨7⟩) ∧
      (looping ⟨2⟩ ⟨5⟩).blocks ≠ [] ∧
      (looping ⟨2⟩ ⟨5⟩).checkSsa = .error (.undefinedRegister ⟨5⟩) ∧
      (looping ⟨2⟩ ⟨5⟩).HasFault (.undefinedRegister ⟨5⟩) := by
  have hblocks (back : Label) (step : Register) : (looping back step).blocks ≠ [] := nofun
  have hok : (looping ⟨2⟩ ⟨0⟩).checkSsa = .ok () := by rfl
  have hlabel : (looping ⟨7⟩ ⟨0⟩).checkSsa = .error (.undefinedBlock "f" ⟨7⟩) := by rfl
  have hregister : (looping ⟨2⟩ ⟨5⟩).checkSsa = .error (.undefinedRegister ⟨5⟩) := by rfl
  obtain ⟨-, hnodup, hreads, hnames⟩ := (checkSsa_exact _ (hblocks _ _)).1.1 hok
  exact ⟨hblocks _ _, hok, hnodup, hreads, hnames,
    hblocks _ _, hlabel, (checkSsa_exact _ (hblocks _ _)).2 _ hlabel,
    hblocks _ _, hregister, (checkSsa_exact _ (hblocks _ _)).2 _ hregister⟩

end Function

end PointsTo
