import Mathlib
import PointsTo.Proofs.InstructionRows

/-!
# What is said of a value

Most rows begin with the value that they are about. A plan describes an instruction only where
it comes to that instruction, and a constant only when a walk leaves it. So the facts whose
first term is the id of such a value are those of one piece of the plan, in every relation
whose rows begin with a value.
-/

namespace PointsTo

/-- The relations of what is said of the parts of a module that are neither instructions nor
constants. -/
def Relation.ofStructure : List Relation :=
  ofPreamble ++ ofGlobals ++ ofFunctions ++ [block] ++ ofTerminators

namespace Step

variable {rels : List Relation} {P : Value → Prop} {st : Step} {e : Emission} {name : String}

/-- What a step says is about values, in a relation whose rows begin with one. -/
theorem Describes.exists_subject (h : st.Describes rels P)
    (hname : name ∉ Relation.withoutSubject.map Relation.name) {r : Row}
    (hr : r ∈ st.said e name) : ∃ v, r.subject? = some v ∧ P v := by
  refine (h.rows r (may_of_mem_said hr)).subject.resolve_left fun hmem => hname ?_
  rw [← relation_of_mem_said hr]
  exact List.mem_map_of_mem hmem

/-- The rows of a relation that a step has about a value. -/
def saidOf (e : Emission) (name : String) (v : Value) (st : Step) : List Row :=
  (st.said e name).filter (·.subject? = some v)

theorem Describes.saidOf_eq_nil (h : st.Describes rels P)
    (hname : name ∉ Relation.withoutSubject.map Relation.name) {v : Value} (hv : ¬ P v) :
    st.saidOf e name v = [] := by
  rw [saidOf, List.filter_eq_nil_iff]
  intro r hr heq
  obtain ⟨w, hw, hP⟩ := h.exists_subject hname hr
  rw [hw, decide_eq_true_eq, Option.some.injEq] at heq
  exact hv (heq ▸ hP)

/-- The step describes a part that is neither an instruction nor a constant. -/
abbrev DescribesStructure (st : Step) : Prop :=
  st.Describes Relation.ofStructure (·.isStructural = true)

end Step

/-- What is drawn from the ends of constants alone is drawn from the constants that end. -/
theorem Mark.flatMap_left? {β : Type} {f : Mark → List β} (henter : ∀ c, f (.enter c) = [])
    (marks : List Mark) :
    marks.flatMap f = (marks.filterMap Mark.left?).flatMap fun c => f (.leave c) := by
  induction marks with
  | nil => rfl
  | cons mark marks ih =>
    cases mark with
    | enter c => rw [List.flatMap_cons, henter, List.nil_append, ih, List.filterMap_cons_none rfl]
    | leave c =>
      have hleft : Mark.left? (.leave c) = some c := rfl
      rw [List.flatMap_cons, ih, List.filterMap_cons_some hleft, List.flatMap_cons]

namespace Setup

variable {s : Setup} {matched : MatchedCalls}

/-! ## Instructions -/

/-- All that a plan says when it comes to an instruction of the module. -/
def pieceOf (s : Setup) (matched : MatchedCalls) (o : Occurrence) : List Step :=
  s.instrOutline matched (.new o.place.function o.function) o.place
    (.block o.place.function o.place.block) o.instr

theorem describes_of_mem_pieceOf (hb : s.models.Bundled) {o : Occurrence} {st : Step}
    (hst : st ∈ s.pieceOf matched o) :
    st.Describes (Relation.ofInstrs ++ o.instr.allRelations) (· = .instruction o.place) := by
  rcases List.mem_append.1 hst with hst | hst
  · exact (mem_instrHead_iff.1 hst).describes.mono (List.subset_append_left _ _) fun _ => id
  · exact ((mem_effectSteps_iff.1 hst).describes hb).mono (List.subset_append_right _ _)
      fun _ => id

/-- Beyond its place, its type and its operands, what is said of an instruction is what it
does. -/
theorem flatMap_pieceOf {e : Emission} {name : String}
    (hname : name ∉ Relation.ofInstrs.map Relation.name) (o : Occurrence) :
    (s.pieceOf matched o).flatMap (Step.said e name) =
      (s.effectsOf matched o).flatMap (Step.said e name) :=
  flatMap_instrOutline_effects fun _ h => (h.describes.avoids hname).said_eq_nil

/-! ## Constants -/

/-- Nothing is said where a walk enters a constant. -/
theorem flatMap_enter {β : Type} {g : Step → List β} (c : ConstId)
    (hneed : ∀ o, g (.need o) = []) (hremark : ∀ r, g (.remark r) = []) :
    (s.markSteps (.enter c)).flatMap g = [] := by
  rw [List.flatMap_eq_nil_iff]
  intro st hst
  cases mem_markSteps_iff.1 hst with
  | need => exact hneed _
  | visiting => exact hremark _
  | missing => exact hneed _

/-! ## Plans, piece by piece -/

section

variable {β : Type} {g : Step → List β}

/-- What is not said of the structure of a module is said of its instructions. -/
theorem flatMap_outline_occurrences (hg : ∀ st : Step, st.DescribesStructure → g st = []) :
    (s.outline matched).flatMap g =
      s.unit.occurrences.flatMap fun o => (s.pieceOf matched o).flatMap g := by
  have hstructure {rels : List Relation} (hrels : rels ⊆ Relation.ofStructure) {st : Step}
      (h : st.Describes rels (·.isStructural = true)) : g st = [] :=
    hg st (h.mono hrels fun _ => id)
  rw [flatMap_outline_functions (fun _ h => hstructure (by decide) h.describes)
    fun _ _ _ h => hstructure (by decide) h.describes, Module.occurrences, List.flatMap_assoc]
  refine List.flatMap_congr fun e _ => ?_
  rw [flatMap_functionOutline_blocks fun _ h => hstructure (by decide) h.describes]
  change _ = (e.2.blocks.flatMap fun b => b.instrs.zipIdx.map fun q =>
    (⟨⟨e.1, b.label, q.2⟩, e.2, q.1⟩ : Occurrence)).flatMap _
  rw [List.flatMap_assoc]
  refine List.flatMap_congr fun b _ => ?_
  rw [flatMap_blockOutline_instrs (hstructure (by decide) (describes_block _ _))
    fun _ h => hstructure (by decide) h.describes, List.flatMap_map]
  rfl

/-- What is not said of the structure of a module or of constants is said of instructions. -/
theorem flatMap_plan_occurrences (hg : ∀ st : Step, st.DescribesStructure → g st = [])
    (hconstant : ∀ (st : Step) (c : ConstId),
      st.Describes Relation.ofConstants (· = .constant c) → g st = []) :
    (s.plan matched).flatMap g =
      s.unit.occurrences.flatMap fun o => (s.pieceOf matched o).flatMap g := by
  rw [flatMap_plan_outline fun _ st h => hconstant st _ h.describes,
    flatMap_outline_occurrences hg]

/-- What is said of constants alone is said when a walk leaves them. -/
theorem flatMap_plan_constants (hg : ∀ st : Step, st.DescribesStructure → g st = [])
    (hinstr : ∀ o, ∀ st ∈ s.pieceOf matched o, g st = [])
    (henter : ∀ c, (s.markSteps (.enter c)).flatMap g = []) :
    (s.plan matched).flatMap g =
      ((s.unit.marksOf s.unit.references).filterMap Mark.left?).flatMap fun c =>
        (s.markSteps (.leave c)).flatMap g := by
  have houtline : (s.outline matched).flatMap g = [] := by
    rw [flatMap_outline_occurrences hg, List.flatMap_eq_nil_iff]
    exact fun o _ => List.flatMap_eq_nil_iff.2 (hinstr o)
  rw [(s.plan_interleaves matched).symm.flatMap_left houtline, List.flatMap_assoc,
    Mark.flatMap_left? henter]

end

/-- Rows of a plan are about values, in a relation whose rows begin with one. -/
theorem exists_subject_of_mem_said (hb : s.models.Bundled) {e : Emission} {name : String}
    (hname : name ∉ Relation.withoutSubject.map Relation.name) {st : Step}
    (hst : st ∈ s.plan matched) {r : Row} (hr : r ∈ st.said e name) :
    ∃ v, r.subject? = some v := by
  obtain ⟨_, _, hdescribes⟩ := exists_describes_of_mem hb hst
  obtain ⟨v, hv, -⟩ := hdescribes.exists_subject hname hr
  exact ⟨v, hv⟩

variable {e : Emission} {name : String}

/-- What a plan says of an instruction is said where it comes to it. -/
theorem saidOf_instruction (hl : s.unit.Labelled) (hb : s.models.Bundled)
    (hname : name ∉ Relation.withoutSubject.map Relation.name) {o : Occurrence}
    (ho : o ∈ s.unit.occurrences) :
    (s.plan matched).flatMap (Step.saidOf e name (.instruction o.place)) =
      (s.pieceOf matched o).flatMap (Step.said e name) := by
  have hnodup : (s.unit.occurrences.map fun o => some (Value.instruction o.place)).Nodup := by
    have hmap := (Module.nodup_occurrences hl).map (f := fun p => some (Value.instruction p))
      fun _ _ h => by simpa using h
    rwa [List.map_map] at hmap
  have hkey : ∀ o ∈ s.unit.occurrences, ∀ r ∈ (s.pieceOf matched o).flatMap (Step.said e name),
      r.subject? = some (.instruction o.place) := by
    intro o _ r hr
    obtain ⟨st, hst, hr⟩ := List.mem_flatMap.1 hr
    obtain ⟨v, hv, rfl⟩ := (describes_of_mem_pieceOf hb hst).exists_subject hname hr
    exact hv
  rw [flatMap_plan_occurrences
      (fun st hst => hst.saidOf_eq_nil hname (by simp [Value.isStructural]))
      (fun st c hst => hst.saidOf_eq_nil hname (by simp)),
    ← filter_flatMap_of_key Row.subject? _ hnodup hkey ho, List.filter_flatMap]
  refine List.flatMap_congr fun o' _ => ?_
  rw [List.filter_flatMap]
  rfl

/-- What a plan says of a constant is said when the walk leaves it. -/
theorem saidOf_constant (hb : s.models.Bundled)
    (hname : name ∉ Relation.withoutSubject.map Relation.name) {c : ConstId}
    (hc : .leave c ∈ s.unit.marksOf s.unit.references) :
    (s.plan matched).flatMap (Step.saidOf e name (.constant c)) =
      (s.markSteps (.leave c)).flatMap (Step.said e name) := by
  have hnodup : (((s.unit.marksOf s.unit.references).filterMap Mark.left?).map fun d =>
      some (Value.constant d)).Nodup :=
    (Module.adds_marksOf _).nodup.map fun _ _ h => by simpa using h
  have hkey : ∀ d ∈ (s.unit.marksOf s.unit.references).filterMap Mark.left?,
      ∀ r ∈ (s.markSteps (.leave d)).flatMap (Step.said e name),
        r.subject? = some (.constant d) := by
    intro d _ r hr
    obtain ⟨st, hst, hr⟩ := List.mem_flatMap.1 hr
    obtain ⟨v, hv, rfl⟩ := (mem_markSteps_iff.1 hst).describes.exists_subject hname hr
    exact hv
  rw [flatMap_plan_constants
      (fun st hst => hst.saidOf_eq_nil hname (by simp [Value.isStructural]))
      (fun o st hst => (describes_of_mem_pieceOf hb hst).saidOf_eq_nil hname (by simp))
      fun d => flatMap_enter d (fun _ => rfl) fun _ => rfl,
    ← filter_flatMap_of_key Row.subject? _ hnodup hkey (Module.mem_filterMap_left?.2 hc),
    List.filter_flatMap]
  refine List.flatMap_congr fun d _ => ?_
  rw [List.filter_flatMap]
  rfl

end Setup

namespace Extractor

variable {x : Extractor} {types : TypeTable} {name : String} {v : Value} {id : ObjectId}

theorem eq_of_resolve {id' : ObjectId} (hid : x.objects.idOf v = .ok id)
    (h : (ObjectRef.value v).resolve x.objects = .ok id') : id' = id := by
  rw [ObjectRef.resolve_value_eq_ok_iff, hid] at h
  exact (Except.ok.inj h).symm

/-- The facts about the id of a value are those of the rows about the value. -/
theorem forall₂_saidOf (hb : x.setup.models.Bundled) (hblocks : x.objects.Blocks)
    (hok : (x.generate types (.new .standard)).outcome = .ok ())
    (hname : name ∉ Relation.withoutSubject.map Relation.name) (hid : x.objects.idOf v = .ok id) :
    List.Forall₂ (Row.Becomes ⟨x.objects, .new .standard⟩)
      ((x.setup.plan x.matched).flatMap (Step.saidOf (x.run types (.new .standard)).state name v))
      (x.factsAbout types name id) := by
  have hrows : (x.setup.plan x.matched).flatMap
        (Step.saidOf (x.run types (.new .standard)).state name v) =
      ((x.setup.plan x.matched).flatMap
        (Step.said (x.run types (.new .standard)).state name)).filter (·.subject? = some v) := by
    rw [List.filter_flatMap]
    rfl
  -- Rows keep apart by their subjects as facts do by their first terms.
  have hiff : ∀ r fact, (r ∈ (x.setup.plan x.matched).flatMap
        (Step.said (x.run types (.new .standard)).state name) ∧
      Row.Becomes ⟨x.objects, .new .standard⟩ r fact) →
      (decide (r.subject? = some v) = true ↔ decide (fact.head? = some (.object id)) = true) := by
    rintro r fact ⟨hr, hbecomes⟩
    obtain ⟨st, hst, hr⟩ := List.mem_flatMap.1 hr
    obtain ⟨w, hw⟩ := Setup.exists_subject_of_mem_said hb hname hst hr
    obtain ⟨id', hid', hhead⟩ := hbecomes.head?_of_subject? hw
    rw [hw, hhead, decide_eq_true_eq, decide_eq_true_eq, Option.some.injEq, Option.some.injEq,
      Term.object.injEq]
    constructor
    · rintro rfl
      exact Except.ok.inj (hid'.symm.trans hid)
    · rintro rfl
      exact hblocks.eq_of_idOf hid' hid
  rw [hrows]
  exact (List.rel_filter hiff (forall₂_and_mem (forall₂_said hb hok name))).imp fun _ _ h => h.2

/-- The rows of a relation that is for instructions alone are those of the instructions. -/
theorem forall₂_rowsOf (hb : x.setup.models.Bundled)
    (hok : (x.generate types (.new .standard)).outcome = .ok ())
    (hstructure : name ∉ Relation.ofStructure.map Relation.name)
    (hinstrs : name ∉ Relation.ofInstrs.map Relation.name)
    (hconstants : name ∉ Relation.ofConstants.map Relation.name) :
    List.Forall₂ (Row.Becomes ⟨x.objects, .new .standard⟩)
      (x.setup.unit.occurrences.flatMap (x.rowsOf types name))
      ((x.generate types (.new .standard)).store.relation name) := by
  have hrows := forall₂_said hb hok name
  rwa [Setup.flatMap_plan_occurrences (fun st hst => (hst.avoids hstructure).said_eq_nil)
      fun st c hst => (hst.avoids hconstants).said_eq_nil,
    List.flatMap_congr fun o _ => Setup.flatMap_pieceOf hinstrs o] at hrows

theorem subject?_of_mem_rowsOf (hb : x.setup.models.Bundled)
    (hname : name ∉ Relation.withoutSubject.map Relation.name) {o : Occurrence} {r : Row}
    (hr : r ∈ x.rowsOf types name o) : r.subject? = some (.instruction o.place) := by
  obtain ⟨st, hst, hr⟩ := List.mem_flatMap.1 hr
  obtain ⟨v, hv, rfl⟩ :=
    ((Setup.mem_effectSteps_iff.1 hst).describes hb).exists_subject hname hr
  exact hv

/-- A new extractor has described its module with the models that are always there. -/
structure Succeeded (x : Extractor) (types : TypeTable) : Prop where
  created : (Extractor.new x.setup).1 = .ok x
  bundled : x.setup.models.Bundled
  outcome : (x.generate types (.new .standard)).outcome = .ok ()

/-- A new extractor has described a module that keeps each block under its own label. -/
structure Finished (x : Extractor) (types : TypeTable) : Prop extends Succeeded x types where
  labelled : x.setup.unit.Labelled

namespace Finished

variable {place : Place} {i : Instr}

theorem registered (hx : x.Finished types) : x.Registered :=
  (registered_of_new hx.labelled hx.created).2

/-- An instruction has an id, and the facts of what it does are those of its own rows. -/
theorem exists_factsAbout (hx : x.Finished types)
    (hi : x.setup.unit.instruction? place = some i) :
    ∃ function b id, x.setup.unit.HasInstr place.function function b i place.index ∧
      x.objects.idOf (.instruction place) = .ok id ∧
      ∀ name ∉ (Relation.ofInstrs ++ Relation.withoutSubject).map Relation.name,
        List.Forall₂ (Row.Becomes ⟨x.objects, .new .standard⟩)
          (x.rowsOf types name ⟨place, function, i⟩) (x.factsAbout types name id) := by
  obtain ⟨function, b, hinstr, hlabel⟩ := (Module.instruction?_eq_some_iff hx.labelled).1 hi
  obtain ⟨id, hid, -⟩ := hx.registered.exists_slot (Setup.instruction_mem_parts hinstr)
  rw [hlabel] at hid
  refine ⟨function, b, id, hinstr, hid, fun name hname => ?_⟩
  rw [List.map_append, List.mem_append, not_or] at hname
  have ho : ⟨place, function, i⟩ ∈ x.setup.unit.occurrences :=
    Module.mem_occurrences_iff.2 ⟨b, hinstr, hlabel⟩
  have hfacts := forall₂_saidOf hx.bundled hx.registered.blocks hx.outcome hname.2 hid
  rwa [Setup.saidOf_instruction hx.labelled hx.bundled hname.2 ho,
    Setup.flatMap_pieceOf hname.1] at hfacts

end Finished

end Extractor

end PointsTo
