import Mathlib
import PointsTo.Proofs.RenamedRuns

/-!
# Names do not matter

Only the names that occur in a function matter, so a renaming need not be injective on all
names, nor keep the order of all labels. A renaming that does so where names occur agrees
there with one that is injective on all names. Under it a module can be registered if it can
be under its own names, values that correspond have the same ids, and the facts are the same.
-/

namespace PointsTo

/-! ## Names that occur -/

section Congruence

variable {σ σ' : Register → Register} {ρ ρ' : Label → Label}

theorem Operand.rename_congr {o : Operand} (hr : ∀ r, o = .reg r → σ r = σ' r)
    (hl : ∀ l, o = .label l → ρ l = ρ' l) : o.rename σ ρ = o.rename σ' ρ' := by
  cases o with
  | reg r => exact congrArg Operand.reg (hr r rfl)
  | imm c => rfl
  | label l => exact congrArg Operand.label (hl l rfl)

theorem Instr.rename_congr {i : Instr} (hd : ∀ r, i.dest? = some r → σ r = σ' r)
    (ho : ∀ o ∈ i.operands, o.rename σ ρ = o.rename σ' ρ')
    (hp : ∀ l ∈ i.predecessors, ρ l = ρ' l) : i.rename σ ρ = i.rename σ' ρ' := by
  cases i with
  | elementPtr dest ty base indices =>
    rw [operands, List.forall_mem_cons] at ho
    rw [rename, rename, hd dest rfl, ho.1, List.map_congr_left ho.2]
  | invoke call =>
    obtain ⟨callee, args, dest, ty⟩ := call
    rw [operands, List.forall_mem_cons] at ho
    have hdest : dest.map σ = dest.map σ' := Option.map_congr hd
    rw [rename, rename, Invoke.rename, Invoke.rename, ho.1, List.map_congr_left ho.2, hdest]
  | phi dest ty incoming =>
    rw [operands, List.forall_mem_map] at ho
    rw [predecessors, List.forall_mem_map] at hp
    rw [rename, rename, hd dest rfl]
    congr 1
    apply List.map_congr_left
    intro e he
    rw [hp e he, ho e he]
  | _ => simp_all [rename, operands, dest?]

theorem Terminator.rename_congr {t : Terminator}
    (ho : ∀ o ∈ t.operands, o.rename σ ρ = o.rename σ' ρ')
    (hs : ∀ l ∈ t.successors, ρ l = ρ' l) : t.rename σ ρ = t.rename σ' ρ' := by
  cases t with
  | switch value default cases =>
    rw [successors, List.forall_mem_cons, List.forall_mem_map] at hs
    rw [rename, rename, ho value (by simp [operands]), hs.1]
    congr 1
    apply List.map_congr_left
    intro e he
    rw [hs.2 e he]
  | ret value => cases value <;> simp_all [rename, operands]
  | _ => simp_all [rename, operands, successors]

namespace Function

variable {f : Function} {b : Block}

theorem labelsOfBlock_subset (hb : b ∈ f.blocks) : labelsOfBlock b ⊆ f.labels :=
  fun _ hl => List.mem_append_right _ (List.mem_flatMap.2 ⟨b, hb, hl⟩)

theorem mem_registers_of_use (hb : b ∈ f.blocks) {r : Register} (hr : .reg r ∈ blockOperands b) :
    r ∈ f.registers :=
  List.mem_append_right _ (List.mem_flatMap.2 ⟨b, hb, mem_blockUses hr⟩)

theorem mem_registers_of_dest (hb : b ∈ f.blocks) {i : Instr} (hi : i ∈ b.instrs) {r : Register}
    (hr : i.dest? = some r) : r ∈ f.registers := by
  obtain ⟨k, hk⟩ := List.getElem?_of_mem hi
  have hdefinition : (r, .instr b.label k) ∈ blockDefinitions b :=
    List.mem_filterMap.2 ⟨(i, k), List.mem_zipIdx_iff_getElem?.2 hk, by simp [hr]⟩
  refine List.mem_append_left _ (List.mem_map.2 ⟨(r, .instr b.label k), ?_, rfl⟩)
  exact List.mem_append_right _ (List.mem_flatMap.2 ⟨b, hb, hdefinition⟩)

theorem mem_registers_of_param {p : Register × TypeId} (hp : p ∈ f.params) :
    p.1 ∈ f.registers := by
  obtain ⟨k, hk⟩ := List.getElem?_of_mem hp
  refine List.mem_append_left _ (List.mem_map.2 ⟨(p.1, .param k), ?_, rfl⟩)
  exact List.mem_append_left _ (List.mem_map.2 ⟨(p, k), List.mem_zipIdx_iff_getElem?.2 hk, rfl⟩)

theorem renameBlock_congr (hb : b ∈ f.blocks) (hσ : ∀ r ∈ f.registers, σ r = σ' r)
    (hρ : ∀ l ∈ f.labels, ρ l = ρ' l) : b.rename σ ρ = b.rename σ' ρ' := by
  have hlabels : ∀ l ∈ labelsOfBlock b, ρ l = ρ' l := fun l hl =>
    hρ l (labelsOfBlock_subset hb hl)
  rw [labelsOfBlock, List.forall_mem_append, List.forall_mem_cons] at hlabels
  obtain ⟨⟨hlabel, hnamed⟩, hmentioned⟩ := hlabels
  rw [blockLabels, List.forall_mem_append] at hnamed
  have hoperands : ∀ o ∈ blockOperands b, o.rename σ ρ = o.rename σ' ρ' := by
    intro o ho
    apply Operand.rename_congr
    · rintro r rfl
      exact hσ r (mem_registers_of_use hb ho)
    · rintro l rfl
      exact hmentioned l (List.mem_filterMap.2 ⟨_, ho, rfl⟩)
  rw [blockOperands, List.forall_mem_append] at hoperands
  have hinstrs : b.instrs.map (Instr.rename σ ρ) = b.instrs.map (Instr.rename σ' ρ') := by
    apply List.map_congr_left
    intro i hi
    apply Instr.rename_congr
    · exact fun r hr => hσ r (mem_registers_of_dest hb hi hr)
    · exact fun o ho => hoperands.1 o (List.mem_flatMap.2 ⟨i, hi, ho⟩)
    · exact fun l hl => hnamed.1 l (List.mem_flatMap.2 ⟨i, hi, hl⟩)
  rw [Block.rename, Block.rename, hlabel, hinstrs,
    Terminator.rename_congr hoperands.2 hnamed.2]

/-- Two renamings of a function do the same if they do on the names that occur in it. -/
theorem rename_congr (hσ : ∀ r ∈ f.registers, σ r = σ' r) (hρ : ∀ l ∈ f.labels, ρ l = ρ' l) :
    f.rename σ ρ = f.rename σ' ρ' := by
  have hparams : (f.params.map fun p => (σ p.1, p.2)) = f.params.map fun p => (σ' p.1, p.2) := by
    apply List.map_congr_left
    intro p hp
    rw [hσ p.1 (mem_registers_of_param hp)]
  have hentries : (f.body.entries.map fun e => (ρ e.1, e.2.rename σ ρ)) =
      f.body.entries.map fun e => (ρ' e.1, e.2.rename σ' ρ') := by
    apply List.map_congr_left
    intro e he
    have hkey : e.1 ∈ f.labels :=
      List.mem_append_left _ (List.mem_cons_of_mem _ (List.mem_map_of_mem he))
    rw [hρ e.1 hkey, renameBlock_congr (List.mem_map_of_mem he) hσ hρ]
  rw [rename, rename, hparams, hentries]

end Function

end Congruence

/-! ## Renamings of the names that occur -/

/-- Where names occur in a function, different registers get different names, and labels,
with that of the entry, keep their order. The entry keeps its name. -/
structure Renaming.Admissible (R : Renaming) (m : Module) : Prop where
  register : ∀ e ∈ m.functionList, ∀ a ∈ e.2.registers, ∀ b ∈ e.2.registers,
    R.register e.1 a = R.register e.1 b → a = b
  entry : ∀ e ∈ m.functionList, R.label e.1 .entry = .entry
  label : ∀ e ∈ m.functionList, ∀ a ∈ e.2.labels, ∀ b ∈ e.2.labels,
    a.index < b.index → (R.label e.1 a).index < (R.label e.1 b).index

/-- A map that is injective on a list is, on it, one that is injective. -/
theorem exists_injective_of_injOn {α : Type} [Infinite α] {g : α → α} {l : List α}
    (h : ∀ a ∈ l, ∀ b ∈ l, g a = g b → a = b) :
    ∃ g' : α → α, Function.Injective g' ∧ ∀ a ∈ l, g' a = g a := by
  have hfinite : Cardinal.mk {a | a ∈ l} < Cardinal.mk α :=
    (Cardinal.lt_aleph0_iff_set_finite.2 l.finite_toSet).trans_le (Cardinal.aleph0_le_mk α)
  have hinjective : Function.Injective fun a : {a | a ∈ l} => g a :=
    fun a b hab => Subtype.ext (h a a.2 b b.2 hab)
  obtain ⟨g', hg'⟩ := Cardinal.extend_function_of_lt ⟨_, hinjective⟩ hfinite ⟨.refl α⟩
  exact ⟨g', g'.injective, fun a ha => hg' ⟨a, ha⟩⟩

/-- The same for the names of each function of a module. -/
theorem Module.exists_injective_of_injOn {α : Type} [Infinite α] {m : Module}
    (names : Function → List α) {g : FunctionId → α → α}
    (h : ∀ e ∈ m.functionList, ∀ a ∈ names e.2, ∀ b ∈ names e.2, g e.1 a = g e.1 b → a = b) :
    ∃ g' : FunctionId → α → α, (∀ f, Function.Injective (g' f)) ∧
      ∀ e ∈ m.functionList, ∀ a ∈ names e.2, g' e.1 a = g e.1 a := by
  have hfunction : ∀ f, ∃ g' : α → α, Function.Injective g' ∧
      ∀ function, m.function? f = some function → ∀ a ∈ names function, g' a = g f a := by
    intro f
    cases hf : m.function? f with
    | none => exact ⟨id, Function.injective_id, fun function heq => by cases heq⟩
    | some function =>
      obtain ⟨g', hg', heq⟩ := PointsTo.exists_injective_of_injOn
        (h (f, function) (Module.mem_functionList_iff.2 hf))
      refine ⟨g', hg', ?_⟩
      rintro _ ⟨⟩
      exact heq
  choose g' hg' heq using hfunction
  exact ⟨g', hg', fun e he => heq e.1 e.2 (Module.mem_functionList_iff.1 he)⟩

instance : Infinite Register := Infinite.of_injective Register.mk fun _ _ h => by simpa using h

instance : Infinite Label := Infinite.of_injective Label.mk fun _ _ h => by simpa using h

namespace Renaming

variable {Q R : Renaming} {m : Module}

/-- The renamings do the same to the names that occur in a module. -/
structure Coincide (Q R : Renaming) (m : Module) : Prop where
  register : ∀ e ∈ m.functionList, ∀ r ∈ e.2.registers, Q.register e.1 r = R.register e.1 r
  label : ∀ e ∈ m.functionList, ∀ l ∈ e.2.labels, Q.label e.1 l = R.label e.1 l

theorem Coincide.rename (h : Q.Coincide R m) : m.rename Q = m.rename R := by
  have hfunctions : (m.functionList.map fun e => e.2.rename (Q.register e.1) (Q.label e.1)) =
      m.functionList.map fun e => e.2.rename (R.register e.1) (R.label e.1) := by
    apply List.map_congr_left
    intro e he
    exact Function.rename_congr (h.register e he) (h.label e he)
  rw [Module.rename, Module.rename, hfunctions]

theorem Admissible.compare_label (h : R.Admissible m) {e : FunctionId × Function}
    (he : e ∈ m.functionList) {a b : Label} (ha : a ∈ e.2.labels) (hb : b ∈ e.2.labels) :
    compare (R.label e.1 a) (R.label e.1 b) = compare a b := by
  change compare (R.label e.1 a).index (R.label e.1 b).index = compare a.index b.index
  rcases Nat.lt_trichotomy a.index b.index with hlt | heq | hgt
  · rw [Nat.compare_eq_lt.2 hlt, Nat.compare_eq_lt.2 (h.label e he a ha b hb hlt)]
  · obtain rfl : a = b := by
      cases a
      cases b
      exact congrArg Label.mk heq
    rw [Nat.compare_eq_eq.2 rfl, Nat.compare_eq_eq.2 rfl]
  · rw [Nat.compare_eq_gt.2 hgt, Nat.compare_eq_gt.2 (h.label e he b hb a ha hgt)]

/-- Where names occur, an admissible renaming is a faithful one. -/
theorem Admissible.exists_faithful (h : R.Admissible m) : ∃ Q : Renaming,
    Q.Faithful m ∧ Q.Coincide R m := by
  have hlabel : ∀ e ∈ m.functionList, ∀ a ∈ e.2.labels, ∀ b ∈ e.2.labels,
      R.label e.1 a = R.label e.1 b → a = b := by
    intro e he a ha b hb heq
    apply Std.LawfulEqOrd.eq_of_compare
    rw [← h.compare_label he ha hb, heq]
    exact Std.ReflOrd.compare_self
  obtain ⟨σ, hσ, hregisters⟩ := Module.exists_injective_of_injOn Function.registers h.register
  obtain ⟨ρ, hρ, hlabels⟩ := Module.exists_injective_of_injOn Function.labels hlabel
  refine ⟨⟨σ, ρ⟩, ⟨hσ, hρ, ?_, ?_⟩, hregisters, hlabels⟩
  · intro e he
    have hentry : Label.entry ∈ e.2.labels := List.mem_cons_self
    exact (hlabels e he _ hentry).trans (h.entry e he)
  · intro e he a ha b hb
    change compare (ρ e.1 a) (ρ e.1 b) = compare a b
    rw [hlabels e he a ha, hlabels e he b hb]
    exact h.compare_label he ha hb

theorem value_congr {v : Value}
    (h : ∀ f l, v.home? = some f → v.label? = some l → Q.label f l = R.label f l) :
    Q.value v = R.value v := by
  cases v with
  | block f l => exact congrArg (Value.block f) (h f l rfl rfl)
  | instruction i =>
    have hlabel := h i.function i.block rfl rfl
    rw [value, value, place, place, hlabel]
  | terminator f l => exact congrArg (Value.terminator f) (h f l rfl rfl)
  | _ => rfl

end Renaming

/-! ## Values that are registered -/

namespace Setup

variable {s : Setup}

/-- The label of a part is that of a block of its function. -/
theorem exists_hasBlock_of_mem_parts {v : Value} (h : v ∈ s.parts.map Prod.fst) {f : FunctionId}
    {l : Label} (hhome : v.home? = some f) (hlabel : v.label? = some l) :
    ∃ function b, s.unit.HasBlock f function b ∧ b.label = l := by
  obtain ⟨⟨_, k⟩, hmem, rfl⟩ := List.mem_map.1 h
  rcases List.mem_append.1 hmem with hsymbol | hbody
  · rw [(mem_symbolParts (List.mem_map_of_mem hsymbol)).1] at hhome
    cases hhome
  · obtain ⟨⟨f', function⟩, hf, hpart⟩ := List.mem_flatMap.1 hbody
    rcases List.mem_append.1 hpart with hargument | hblock
    · obtain ⟨e, -, heq⟩ := List.mem_map.1 hargument
      obtain ⟨rfl, -⟩ := Prod.mk.inj heq
      cases hlabel
    · obtain ⟨b, hb, hpart⟩ := List.mem_flatMap.1 hblock
      obtain ⟨hhome', hlabel'⟩ := mem_blockParts (List.mem_map_of_mem hpart)
      obtain rfl : f' = f := Option.some_inj.1 (hhome'.symm.trans hhome)
      exact ⟨function, b, ⟨hf, hb⟩, Option.some_inj.1 (hlabel'.symm.trans hlabel)⟩

end Setup

namespace Extractor

/-- What has an id is a part of the module or a constant. -/
theorem mem_parts_of_idOf {s : Setup} {x : Extractor} (hnew : (Extractor.new s).1 = .ok x)
    {v : Value} {id : ObjectId} (hv : x.objects.idOf v = .ok id) :
    v ∈ s.parts.map Prod.fst ∨ v.isConstant = true := by
  obtain ⟨hverify, r, hr, rfl⟩ := exists_settle_of_new hnew
  obtain ⟨calls, hobjects, hparts, -⟩ := settle_requests (Module.verify_eq_ok_iff.1 hverify) hr
  have hcontains : r.objects.contains v = true := ObjectTable.contains_iff_idOf.2 ⟨id, hv⟩
  rw [hobjects, ObjectTable.contains_registerAll, List.map_append, List.mem_append] at hcontains
  rw [Setup.parts, List.map_append, List.mem_append]
  rcases hcontains with (hsymbol | hcall) | hnone
  · exact .inl (.inl hsymbol)
  · obtain ⟨call, hmem, rfl⟩ := List.mem_map.1 hcall
    by_cases hconstant : call.1.isConstant = true
    · exact .inr hconstant
    · have hbody : call ∈ s.bodyParts := by
        rw [← hparts]
        exact List.mem_filter.2 ⟨hmem, by simpa using hconstant⟩
      exact .inl (.inr (List.mem_map_of_mem hbody))
  · cases hnone

/-- Values with ids are renamed alike by renamings that coincide on the module. -/
theorem value_eq_of_idOf {Q R : Renaming} {s : Setup} {x : Extractor} (h : Q.Coincide R s.unit)
    (hnew : (Extractor.new s).1 = .ok x) {v : Value} {id : ObjectId}
    (hv : x.objects.idOf v = .ok id) : Q.value v = R.value v := by
  apply Renaming.value_congr
  intro f l hhome hlabel
  rcases mem_parts_of_idOf hnew hv with hpart | hconstant
  · obtain ⟨function, b, ⟨hf, hb⟩, rfl⟩ := Setup.exists_hasBlock_of_mem_parts hpart hhome hlabel
    have hmem : b.label ∈ function.labels := Function.labelsOfBlock_subset hb List.mem_cons_self
    exact h.label (f, function) hf b.label hmem
  · rw [Value.isConstant_of_home? hhome] at hconstant
    cases hconstant

/-- The names of registers and labels do not matter, as long as those that occur in a function
stay different and its labels stay in order. Under other names the module can be registered
in the same cases, values that correspond have the same ids, and a description into the same
store appends the same facts and succeeds in the same cases. -/
theorem generate_rename {R : Renaming} {s : Setup} (h : R.Admissible s.unit)
    (hb : s.models.Bundled) :
    ((∃ y, (Extractor.new (s.rename R)).1 = .ok y) ↔ ∃ x, (Extractor.new s).1 = .ok x) ∧
      ∀ x y, (Extractor.new s).1 = .ok x → (Extractor.new (s.rename R)).1 = .ok y →
        (∀ w id, y.objects.idOf w = .ok id ↔ ∃ v, w = R.value v ∧ x.objects.idOf v = .ok id) ∧
        ∀ types store,
          (y.generate types store).store = (x.generate types store).store ∧
          ((y.generate types store).outcome = .ok () ↔
            (x.generate types store).outcome = .ok ()) := by
  -- All is proved for `Q`, which is injective on all names and gives the same module.
  obtain ⟨Q, hQ, hcoincide⟩ := h.exists_faithful
  have hrename : s.rename Q = s.rename R := by
    rw [Setup.rename, Setup.rename, hcoincide.rename]
  have hboth := both_new hQ hb
  rw [hrename] at hboth
  refine ⟨?_, ?_⟩
  · generalize (Extractor.new s).1 = a, (Extractor.new (s.rename R)).1 = b at hboth
    cases hboth with
    | ok _ => exact iff_of_true ⟨_, rfl⟩ ⟨_, rfl⟩
    | error _ => simp
  · intro x y hx hy
    have hxy : x.Renamed Q y := by
      rw [hx, hy] at hboth
      cases hboth with
      | ok hxy => exact hxy
    have hsetup := setup_of_new hx
    refine ⟨?_, ?_⟩
    · intro w id
      rw [hxy.objects, ObjectTable.idOf_map_eq_ok_iff (Renaming.value_injective hQ.label)]
      constructor
      · rintro ⟨v, rfl, hv⟩
        exact ⟨v, value_eq_of_idOf hcoincide hx hv, hv⟩
      · rintro ⟨v, rfl, hv⟩
        exact ⟨v, (value_eq_of_idOf hcoincide hx hv).symm, hv⟩
    · subst hsetup
      exact hxy.generate hQ hb

/-- Registers in the opposite order, and labels with room between them. -/
def mirrored : Renaming where
  register _ r := ⟨9 - r.index⟩
  label _ l := ⟨3 * l.index⟩

theorem admissible_mirrored : mirrored.Admissible allocating.unit := by
  constructor <;> decide

theorem mirrored_generate :
    mirrored.Admissible allocating.unit ∧ allocating.models.Bundled ∧
      ∃ x y, (Extractor.new allocating).1 = .ok x ∧
        (Extractor.new (allocating.rename mirrored)).1 = .ok y ∧
        (∀ w id, y.objects.idOf w = .ok id ↔
          ∃ v, w = mirrored.value v ∧ x.objects.idOf v = .ok id) ∧
        (y.generate .empty (.new .standard)).store = (x.generate .empty (.new .standard)).store ∧
        ((y.generate .empty (.new .standard)).outcome = .ok () ↔
          (x.generate .empty (.new .standard)).outcome = .ok ()) := by
  obtain ⟨hiff, hgenerate⟩ := generate_rename admissible_mirrored bundled_allocating
  have hnew : ∃ x, (Extractor.new allocating).1 = .ok x := ⟨_, rfl⟩
  obtain ⟨x, hx⟩ := hnew
  obtain ⟨y, hy⟩ := hiff.2 ⟨x, hx⟩
  obtain ⟨hids, hfacts⟩ := hgenerate x y hx hy
  exact ⟨admissible_mirrored, bundled_allocating, x, y, hx, hy, hids,
    hfacts .empty (.new .standard)⟩

end Extractor

end PointsTo
