import Mathlib
import PointsTo.Proofs.Dispatch
import PointsTo.Proofs.GuardedRows
import PointsTo.Proofs.Operands

/-!
# Rows about instructions

The instructions of a module stand in order, and each does its own with pointers. What a module
returns is listed apart, in the order of its blocks. The value that a row begins with is the
one that the row is about, and the fact of the row begins with the id of this value.
-/

namespace PointsTo

/-! ## Lists -/

/-- Of lists that are told apart by a key, a filter by the key finds one. -/
theorem filter_flatMap_of_key {α β γ : Type} [DecidableEq γ] {l : List α} {f : α → List β}
    (key : β → γ) (name : α → γ) (hname : (l.map name).Nodup)
    (hkey : ∀ a ∈ l, ∀ b ∈ f a, key b = name a) {a : α} (ha : a ∈ l) :
    (l.flatMap f).filter (key · = name a) = f a := by
  have hother (l' : List α) (hsub : l' ⊆ l) (hne : name a ∉ l'.map name) :
      (l'.flatMap f).filter (key · = name a) = [] := by
    rw [List.filter_eq_nil_iff]
    intro b hb heq
    obtain ⟨a', ha', hb⟩ := List.mem_flatMap.1 hb
    rw [decide_eq_true_eq, hkey a' (hsub ha') b hb] at heq
    exact hne (heq ▸ List.mem_map_of_mem ha')
  obtain ⟨before, after, rfl⟩ := List.append_of_mem ha
  rw [List.map_append, List.map_cons, List.nodup_append, List.nodup_cons] at hname
  obtain ⟨-, ⟨hafter, -⟩, hdisjoint⟩ := hname
  have hself : (f a).filter (key · = name a) = f a :=
    List.filter_eq_self.2 fun b hb => decide_eq_true (hkey a ha b hb)
  have hbefore : name a ∉ before.map name :=
    fun hmem => hdisjoint _ hmem _ List.mem_cons_self rfl
  rw [List.flatMap_append, List.flatMap_cons, List.filter_append, List.filter_append, hself,
    hother before (List.subset_append_left _ _) hbefore,
    hother after (fun _ h => List.mem_append_right _ (List.mem_cons_of_mem _ h)) hafter,
    List.nil_append, List.append_nil]

/-! ## Instructions and returns in order -/

/-- An instruction of a module: where it stands, and in which function. -/
structure Occurrence where
  place : Place
  function : Function
  instr : Instr

/-- A value that a function of a module gives back. -/
structure Return where
  function : FunctionId
  definition : Function
  value : Operand

/-- The value that a block gives back to the callers of its function. -/
def Block.returned? (b : Block) : Option Operand :=
  match b.terminator with
  | .ret o => o
  | _ => none

namespace Module

variable {m : Module}

/-- The instructions of a module in layout order. -/
def occurrences (m : Module) : List Occurrence :=
  m.functionList.flatMap fun (f, function) => function.blocks.flatMap fun b =>
    b.instrs.zipIdx.map fun (i, k) => ⟨⟨f, b.label, k⟩, function, i⟩

/-- What the functions of a module give back, in layout order. -/
def returns (m : Module) : List Return :=
  m.functionList.flatMap fun (f, function) =>
    (function.blocks.filterMap Block.returned?).map fun o => ⟨f, function, o⟩

theorem mem_occurrences_iff {o : Occurrence} :
    o ∈ m.occurrences ↔ ∃ b, m.HasInstr o.place.function o.function b o.instr o.place.index ∧
      b.label = o.place.block := by
  simp only [occurrences, List.mem_flatMap, List.mem_map, Prod.exists]
  constructor
  · rintro ⟨f, function, hf, b, hb, i, k, hi, rfl⟩
    exact ⟨b, ⟨⟨hf, hb⟩, hi⟩, rfl⟩
  · obtain ⟨⟨f, l, k⟩, function, i⟩ := o
    rintro ⟨b, h, rfl⟩
    exact ⟨f, function, h.mem_functionList, b, h.mem_blocks, i, k, h.mem_instrs, rfl⟩

theorem nodup_occurrences (hl : m.Labelled) : (m.occurrences.map Occurrence.place).Nodup := by
  rw [occurrences, List.map_flatMap]
  refine nodup_flatMap_of_key Place.function Prod.fst m.nodup_functionList ?_ ?_
  · intro e _ place hplace
    rw [List.map_flatMap] at hplace
    obtain ⟨b, -, hplace⟩ := List.mem_flatMap.1 hplace
    rw [List.map_map] at hplace
    obtain ⟨q, -, rfl⟩ := List.mem_map.1 hplace
    rfl
  · intro e he
    rw [List.map_flatMap]
    refine nodup_flatMap_of_key Place.block Block.label
      (hl e.2 (mem_functions_of_mem he)).nodup ?_ ?_
    · intro b _ place hplace
      rw [List.map_map] at hplace
      obtain ⟨q, -, rfl⟩ := List.mem_map.1 hplace
      rfl
    · intro b _
      rw [List.map_map]
      exact nodup_map_zipIdx (fun k => (⟨e.1, b.label, k⟩ : Place))
        (fun _ _ h => by simpa using h) _

theorem mem_returns_iff {r : Return} :
    r ∈ m.returns ↔ ∃ b, m.HasBlock r.function r.definition b ∧
      b.terminator = .ret (some r.value) := by
  have hreturned (b : Block) (o : Operand) :
      b.returned? = some o ↔ b.terminator = .ret (some o) := by
    unfold Block.returned?
    cases b.terminator <;> simp
  simp only [returns, List.mem_flatMap, List.mem_map, List.mem_filterMap, Prod.exists, hreturned]
  constructor
  · rintro ⟨f, function, hf, o, ⟨b, hb, ho⟩, rfl⟩
    exact ⟨b, ⟨hf, hb⟩, ho⟩
  · rintro ⟨b, h, ho⟩
    exact ⟨_, _, h.mem_functionList, _, ⟨b, h.mem_blocks, ho⟩, rfl⟩

end Module

namespace Setup

variable {s : Setup} {matched : MatchedCalls} {e : Emission} {name : String}

/-! ## The rows of a plan, instruction by instruction -/

/-- What an instruction of the module does with pointers. -/
def effectsOf (s : Setup) (matched : MatchedCalls) (o : Occurrence) : List Step :=
  s.effectSteps matched (.new o.place.function o.function) o.place o.instr

/-- What a return of the module gives back, if it is a pointer. -/
def effectsOfReturn (s : Setup) (r : Return) : List Step :=
  (Scope.new r.function r.definition).ifPointer s.unit r.value [⟨.returned,
    [Value.function r.function, (Scope.new r.function r.definition).object s.unit r.value]⟩]

/-- Of the steps of a terminator, only what it gives back has rows of returns. -/
theorem said_terminatorOutline (scope : Scope) (label : Label) (t : Terminator) :
    (s.terminatorOutline scope label t).flatMap (Step.said e "return") =
      (s.returnSteps scope t).flatMap (Step.said e "return") := by
  have hoperands : ∀ st ∈ s.operandOutline scope (.terminator scope.function label) t.operands,
      st.Avoids "return" := by
    rw [operandOutline, List.forall_mem_map]
    simp [Relation.operand]
  have hcases : ∀ st ∈ s.caseOutline (.terminator scope.function label) t.operands.length
      t.caseValues, st.Avoids "return" := by
    rw [caseOutline, List.forall_mem_map]
    simp [Relation.operand]
  have hsuccessors : ∀ st ∈ (successorRows scope.function (.block scope.function label) t).map
      Step.row, st.Avoids "return" := by
    simp [successorRows, Relation.successor]
  have hinstr : (Step.row ⟨.instr, [Value.terminator scope.function label, t.opcode,
      Value.block scope.function label]⟩).said e "return" = [] := rfl
  rw [terminatorOutline, List.flatMap_append, List.flatMap_append, List.flatMap_append,
    List.flatMap_cons, Step.flatMap_said_eq_nil hoperands, Step.flatMap_said_eq_nil hcases,
    Step.flatMap_said_eq_nil hsuccessors, hinstr]
  simp

/-- The rows of returns. -/
theorem said_plan_returns (hb : s.models.Bundled) :
    (s.plan matched).flatMap (Step.said e "return") =
      s.unit.returns.flatMap fun r => (s.effectsOfReturn r).flatMap (Step.said e "return") := by
  have hreturn (f : FunctionId) (function : Function) (b : Block) :
      s.returnSteps (.new f function) b.terminator =
        (b.returned?.toList.map fun o =>
          (⟨f, function, o⟩ : Return)).flatMap s.effectsOfReturn := by
    unfold Block.returned?
    cases b.terminator with
    | ret o => cases o <;> simp [returnSteps, effectsOfReturn, Scope.new]
    | _ => rfl
  have hblock (f : FunctionId) (function : Function) (b : Block) :
      (s.blockOutline matched (.new f function) b).flatMap (Step.said e "return") =
        (s.returnSteps (.new f function) b.terminator).flatMap (Step.said e "return") := by
    rw [flatMap_blockOutline_terminator rfl, said_terminatorOutline]
    · exact fun place block i st h => (h.describes.avoids (by decide)).said_eq_nil
    · exact fun place i st h =>
        (h.avoids (by decide) (hb.write_ne (by decide))).said_eq_nil
  rw [flatMap_plan_blocks (fun st h => h.said_eq_nil) (by decide : "return" ∉ _), Module.returns,
    List.flatMap_assoc]
  refine List.flatMap_congr fun p _ => ?_
  change _ = ((p.2.blocks.filterMap Block.returned?).map fun o =>
    (⟨p.1, p.2, o⟩ : Return)).flatMap _
  rw [List.filterMap_eq_flatMap_toList, List.map_flatMap, List.flatMap_assoc]
  refine List.flatMap_congr fun b _ => ?_
  rw [hblock, hreturn, List.flatMap_assoc]

end Setup

/-! ## Facts about a value -/

/-- The first term of a fact is the id of the value that its row is about. -/
theorem Row.Becomes.head?_of_subject? {t : Emission.Target} {r : Row} {fact : Fact} {v : Value}
    (h : Row.Becomes t r fact) (hv : r.subject? = some v) :
    ∃ id, t.objects.idOf v = .ok id ∧ fact.head? = some (.object id) := by
  obtain ⟨types, haccept⟩ := h
  have hcells := Row.forall₂_of_accept haccept
  unfold Row.subject? at hv
  split at hv
  next w rest hw =>
    cases hv
    rw [hw] at hcells
    rcases hcells with _ | ⟨ha, _⟩
    obtain ⟨id, hid, rfl⟩ := Cell.resolve_object_eq_ok ha
    exact ⟨id, ObjectRef.resolve_value_eq_ok_iff.1 hid, rfl⟩
  next => cases hv

namespace Extractor

/-- The facts of a relation about an object. -/
def factsAbout (x : Extractor) (types : TypeTable) (name : String) (id : ObjectId) : List Fact :=
  ((x.generate types (.new .standard)).store.relation name).filter (·.head? = some (.object id))

/-- The rows of a relation that an instruction has, by the answers that were given. -/
def rowsOf (x : Extractor) (types : TypeTable) (name : String) (o : Occurrence) : List Row :=
  (x.setup.effectsOf x.matched o).flatMap (Step.said (x.run types (.new .standard)).state name)

end Extractor

end PointsTo
