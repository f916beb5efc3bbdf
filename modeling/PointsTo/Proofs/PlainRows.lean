import Mathlib
import PointsTo.Proofs.Facts

/-!
# The plain rows of a plan

Each piece of a plan has rows of few relations. So the plain rows of one relation are found in
few pieces, and it is enough to look there.
-/

namespace PointsTo

namespace Step

variable {name : String}

theorem Avoids.row?_eq_none {st : Step} (h : st.Avoids name) : st.row? name = none := by
  by_contra hsome
  obtain ⟨r, hr⟩ := Option.ne_none_iff_exists'.1 hsome
  obtain ⟨rfl, hname⟩ := row?_eq_some_iff.1 hr
  exact h r (.row r) hname

/-- Steps that avoid a relation have no plain rows of it. -/
theorem rows_eq_nil {steps : List Step} (h : ∀ st ∈ steps, st.Avoids name) :
    steps.filterMap (row? name) = [] :=
  List.filterMap_eq_nil_iff.2 fun st hst => (h st hst).row?_eq_none

end Step

/-- The relations of what stands outside of blocks. -/
def Relation.outsideBlocks : List Relation :=
  ofPreamble ++ ofGlobals ++ ofFunctions ++ ofConstants

namespace Setup

variable {s : Setup} {matched : MatchedCalls} {name : String}

theorem rows_instrHead (hname : name ∉ Relation.ofInstrs.map Relation.name) (scope : Scope)
    (place : Place) (block : Value) (i : Instr) :
    (s.instrHead scope place block i).filterMap (Step.row? name) = [] :=
  Step.rows_eq_nil fun _ hst => (mem_instrHead_iff.1 hst).describes.avoids hname

/-- Instructions have plain rows of a relation that is none of theirs only if the models write
some. -/
theorem rows_effectSteps (hname : name ∉ Relation.ofEffects.map Relation.name)
    (hm : s.models.Write fun r => r.relation.name ≠ name) (scope : Scope) (place : Place)
    (i : Instr) : (s.effectSteps matched scope place i).filterMap (Step.row? name) = [] :=
  Step.rows_eq_nil fun _ hst => (mem_effectSteps_iff.1 hst).avoids hname hm

theorem rows_instrOutline_eq_nil
    (hname : name ∉ (Relation.ofInstrs ++ Relation.ofEffects).map Relation.name)
    (hm : s.models.Write fun r => r.relation.name ≠ name) (scope : Scope) (place : Place)
    (block : Value) (i : Instr) :
    (s.instrOutline matched scope place block i).filterMap (Step.row? name) = [] := by
  rw [List.map_append, List.mem_append, not_or] at hname
  rw [instrOutline, List.filterMap_append, rows_instrHead hname.1, List.nil_append,
    rows_effectSteps hname.2 hm]

/-- The plain rows of a relation that constants do not use are those of the outline. -/
theorem rows_plan_outline (hname : name ∉ Relation.ofConstants.map Relation.name) :
    (s.plan matched).filterMap (Step.row? name) =
      (s.outline matched).filterMap (Step.row? name) := by
  refine (s.plan_interleaves matched).filterMap_left (Step.rows_eq_nil fun st hst => ?_)
  obtain ⟨mark, -, hst⟩ := List.mem_flatMap.1 hst
  exact (mem_markSteps_iff.1 hst).describes.avoids hname

/-- What is drawn from a relation that is not used outside of blocks is drawn from the blocks, in
layout order. -/
theorem flatMap_plan_blocks {β : Type} {g : Step → List β}
    (hg : ∀ st : Step, st.Avoids name → g st = [])
    (hname : name ∉ Relation.outsideBlocks.map Relation.name) :
    (s.plan matched).flatMap g =
      s.unit.functionList.flatMap fun e => e.2.blocks.flatMap fun b =>
        (s.blockOutline matched (.new e.1 e.2) b).flatMap g := by
  simp only [Relation.outsideBlocks, List.map_append, List.mem_append, not_or] at hname
  obtain ⟨⟨⟨hpreamble, hglobals⟩, hfunctions⟩, hconstants⟩ := hname
  rw [flatMap_plan_outline fun _ _ h => hg _ (h.describes.avoids hconstants),
    flatMap_outline_functions (fun _ h => hg _ (h.describes.avoids hpreamble))
      fun _ _ _ h => hg _ (h.describes.avoids hglobals)]
  exact List.flatMap_congr fun e _ =>
    flatMap_functionOutline_blocks fun _ h => hg _ (h.describes.avoids hfunctions)

theorem rows_plan_blocks (hname : name ∉ Relation.outsideBlocks.map Relation.name) :
    (s.plan matched).filterMap (Step.row? name) =
      s.unit.functionList.flatMap fun e => e.2.blocks.flatMap fun b =>
        (s.blockOutline matched (.new e.1 e.2) b).filterMap (Step.row? name) := by
  simp only [List.filterMap_eq_flatMap_toList]
  refine flatMap_plan_blocks (fun st h => ?_) hname
  rw [h.row?_eq_none, Option.toList_none]

/-- What a terminator gives back is behind a guard. -/
theorem rows_returnSteps (scope : Scope) (t : Terminator) :
    (s.returnSteps scope t).filterMap (Step.row? name) = [] := by
  rw [List.filterMap_eq_nil_iff]
  intro st hst
  obtain ⟨o, ty, -, -, rfl⟩ := mem_returnSteps_iff.1 hst
  rfl

end Setup

end PointsTo
