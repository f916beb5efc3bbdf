import Mathlib
import PointsTo.Proofs.Listing
import PointsTo.Proofs.Subjects

/-!
# Facts about constants

A description tells of a constant when its walk leaves it, which happens once. It says then
what kind the constant is of and what it is built from. The walk leaves the parts first, so the
facts give the constants of a module as a graph in an order in which it can be built. Addresses
of symbols are not among the constants: where one is a part, the symbol stands for it.
-/

namespace PointsTo

/-! ## Shapes -/

/-- The elements of an aggregate. -/
def Const.elements : Const → List ConstId
  | .aggregate _ elements => elements
  | _ => []

/-- The constant inside of which an address lies. -/
def Const.base? : Const → Option ConstId
  | .elementAddr base _ _ => some base
  | _ => none

/-- Rows of one relation are all of the name or none is. -/
theorem Row.filter_map {α : Type} (rel : Relation) (cells : α → List Cell) (name : String)
    (l : List α) :
    (l.map fun a => (⟨rel, cells a⟩ : Row)).filter (·.relation.name = name) =
      if rel.name = name then l.map fun a => ⟨rel, cells a⟩ else [] := by
  split <;> simp_all

theorem Relation.shape_names :
    constant.name = "constant" ∧ valueType.name = "value_type" ∧
      pointerValue.name = "pointer_value" ∧ constElement.name = "const_element" ∧
      elementAddr.name = "element_addr" ∧ addressOf.name = "address_of" := by
  decide

theorem Step.flatMap_said {steps : List Step} {e : Emission} {name : String} :
    steps.flatMap (said e name) =
      (steps.flatMap (rowsIn e)).filter (·.relation.name = name) :=
  List.filter_flatMap.symm

namespace Setup

variable {s : Setup} {matched : MatchedCalls} {e : Emission} {name : String} {c : ConstId}
  {pooled : TypedConst}

/-- A constant is made of its elements, lies inside another, or points to the null object. -/
theorem exists_shapeRows_eq (s : Setup) (c : ConstId) (value : Const) : ∃ special : List ObjectRef,
    s.shapeRows c value =
      (value.elements.zipIdx.map fun q =>
        ⟨.constElement, [Value.constant c, q.2, s.unit.constantValue q.1]⟩) ++
      ((value.base?.toList.map fun base =>
        ⟨.elementAddr, [Value.constant c, s.unit.constantValue base]⟩) ++
      special.map fun o => ⟨.addressOf, [Value.constant c, o]⟩) := by
  cases value with
  | aggregate ty elements => exact ⟨[], (List.append_nil _).symm⟩
  | null =>
    refine ⟨(s.config.specialId? nullObject).toList.map fun id => .special id.index, ?_⟩
    simp only [shapeRows]
    cases s.config.specialId? nullObject <;> rfl
  | _ => exact ⟨[], rfl⟩

/-- What is said of a constant: its kind, its type, and what it is made of. -/
theorem exists_rowsIn_leave (hc : s.unit.constants.get? c = some pooled) (e : Emission) :
    ∃ special : List ObjectRef, (s.markSteps (.leave c)).flatMap (Step.rowsIn e) =
      [⟨.constant, [Value.constant c, pooled.value.kind]⟩,
        ⟨.valueType, [Value.constant c, .typeText pooled.ty]⟩] ++
      ((if e.holds (.named pooled.ty) then [⟨.pointerValue, [Value.constant c]⟩] else []) ++
      ((pooled.value.elements.zipIdx.map fun q =>
        ⟨.constElement, [Value.constant c, q.2, s.unit.constantValue q.1]⟩) ++
      ((pooled.value.base?.toList.map fun base =>
        ⟨.elementAddr, [Value.constant c, s.unit.constantValue base]⟩) ++
      special.map fun o => ⟨.addressOf, [Value.constant c, o]⟩))) := by
  obtain ⟨special, hshape⟩ := s.exists_shapeRows_eq c pooled.value
  refine ⟨special, ?_⟩
  have hrows (rows : List Row) : (rows.map Step.row).flatMap (Step.rowsIn e) = rows := by
    rw [List.flatMap_map]
    exact List.flatMap_singleton' rows
  simp only [markSteps, hc]
  rw [List.flatMap_append, List.flatMap_append, hrows, hshape, List.flatMap_cons,
    List.flatMap_singleton, List.flatMap_singleton]
  simp [Step.rowsIn, TypeTable.idOf?]

theorem said_leave (hc : s.unit.constants.get? c = some pooled) (e : Emission) :
    (s.markSteps (.leave c)).flatMap (Step.said e "constant") =
        [⟨.constant, [Value.constant c, pooled.value.kind]⟩] ∧
      (s.markSteps (.leave c)).flatMap (Step.said e "value_type") =
        [⟨.valueType, [Value.constant c, .typeText pooled.ty]⟩] ∧
      ((s.markSteps (.leave c)).flatMap (Step.said e "const_element") =
        pooled.value.elements.zipIdx.map fun q =>
          ⟨.constElement, [Value.constant c, q.2, s.unit.constantValue q.1]⟩) ∧
      (s.markSteps (.leave c)).flatMap (Step.said e "element_addr") =
        pooled.value.base?.toList.map fun base =>
          ⟨.elementAddr, [Value.constant c, s.unit.constantValue base]⟩ := by
  obtain ⟨special, hrows⟩ := exists_rowsIn_leave hc e
  simp only [Step.flatMap_said, hrows]
  cases e.holds (.named pooled.ty) <;> simp [Row.filter_map, Relation.shape_names]

/-- What is said of constants alone is said when a walk leaves them. -/
theorem said_plan_constants (hb : s.models.Bundled) (hname : name ∈ ["constant", "const_element"]) :
    (s.plan matched).flatMap (Step.said e name) =
      ((s.unit.marksOf s.unit.references).filterMap Mark.left?).flatMap fun c =>
        (s.markSteps (.leave c)).flatMap (Step.said e name) := by
  have hother : ∀ name ∈ ["constant", "const_element"],
      name ∉ Relation.ofStructure.map Relation.name ∧
        name ∉ Relation.ofInstrs.map Relation.name ∧
        name ∉ Relation.ofEffects.map Relation.name ∧
        name ∉ Relation.ofModels.map Relation.name := by decide
  obtain ⟨hstructure, hinstrs, heffects, hmodels⟩ := hother name hname
  refine flatMap_plan_constants (fun st h => (h.avoids hstructure).said_eq_nil)
    (fun o st hst => ?_) fun d => flatMap_enter d (fun _ => rfl) fun _ => rfl
  rcases List.mem_append.1 hst with hst | hst
  · exact ((mem_instrHead_iff.1 hst).describes.avoids hinstrs).said_eq_nil
  · exact ((mem_effectSteps_iff.1 hst).avoids heffects (hb.write_ne hmodels)).said_eq_nil

end Setup

/-! ## The order of the facts -/

/-- Of the constants that end, each comes after the constants that it is built from. -/
theorem Module.mem_of_filterMap_left? {m : Module} {ids before after : List ConstId} {c d : ConstId}
    (h : (m.marksOf ids).filterMap Mark.left? = before ++ c :: after)
    (hd : d ∈ m.constantChildren c) (hconstant : (m.constantValue d).isConstant = true) :
    d ∈ before := by
  obtain ⟨first, rest, hmarks, rfl, hrest⟩ := List.filterMap_eq_append_iff.1 h
  obtain ⟨skipped, mark, last, rfl, hskipped, hmark, rfl⟩ := List.filterMap_eq_cons_iff.1 hrest
  cases mark with
  | enter c => cases hmark
  | leave c =>
    cases hmark
    have hmem := m.ordered_marksOf ids (first ++ skipped) c last (by rw [hmarks, List.append_assoc])
      d hd hconstant
    rcases List.mem_append.1 hmem with hmem | hmem
    · exact mem_filterMap_left?.2 hmem
    · have hnone := hskipped _ hmem
      cases hnone

/-- If lists correspond, what stands before an element corresponds to what stands before its
counterpart. -/
theorem exists_split_of_forall₂ {α β : Type} {R : α → β → Prop} {l : List α} {before after : List β}
    {b : β} (h : List.Forall₂ R l (before ++ b :: after)) :
    ∃ front a back, l = front ++ a :: back ∧ List.Forall₂ R front before ∧ R a b := by
  have hfront := List.forall₂_take_append _ _ _ h
  have hback := List.forall₂_drop_append _ _ _ h
  obtain ⟨a, back, hab, -, hl⟩ := List.forall₂_cons_right_iff.1 hback
  exact ⟨_, a, back, by rw [← hl, List.take_append_drop], hfront, hab⟩

namespace Extractor

variable {x : Extractor} {types : TypeTable} {name : String} {c : ConstId} {id : ObjectId}
  {pooled : TypedConst}

namespace Succeeded

theorem checked (hx : x.Succeeded types) : x.setup.unit.Checked :=
  Module.verify_eq_ok_iff.1 (exists_settle_of_new hx.created).1

/-- The table has the constants that the walk leaves, also if blocks share a label. -/
theorem blocks_and_constants (hx : x.Succeeded types) : x.objects.Blocks ∧
    ∀ c, (∃ id, x.objects.idOf (.constant c) = .ok id) ↔
      .leave c ∈ x.setup.unit.marksOf x.setup.unit.references := by
  obtain ⟨-, r, hr, heq⟩ := exists_settle_of_new hx.created
  obtain ⟨calls, hobjects, -, hconstants, -⟩ := settle_requests hx.checked hr
  have htable : x.objects = (ObjectTable.new x.setup.config.specialCount).registerAll
      (x.setup.symbolParts ++ calls) := by
    rw [heq]
    exact hobjects
  rw [htable]
  refine ⟨(ObjectTable.blocks_new _).registerAll _, fun c => ?_⟩
  have hsymbols : .constant c ∉ x.setup.symbolParts.map Prod.fst := by
    intro hmem
    cases (Setup.mem_symbolParts hmem).2
  have hcalls : .constant c ∈ calls.map Prod.fst ↔ .constant c ∈
      (constantCalls (x.setup.unit.marksOf x.setup.unit.references)).map Prod.fst := by
    rw [← hconstants]
    simp [Value.isConstant]
  rw [← ObjectTable.contains_iff_idOf, ObjectTable.contains_registerAll, List.map_append,
    List.mem_append, hcalls, constantCalls, List.map_map, ← Module.mem_filterMap_left?]
  simp [hsymbols, ObjectTable.contains, ObjectTable.find?, ObjectTable.new]

/-- What is said of a constant becomes the facts about it. -/
theorem forall₂_leave (hx : x.Succeeded types) (hid : x.objects.idOf (.constant c) = .ok id) :
    ∃ pooled, x.setup.unit.constants.get? c = some pooled ∧
      ∀ name ∉ Relation.withoutSubject.map Relation.name,
        List.Forall₂ (Row.Becomes ⟨x.objects, .new .standard⟩)
          ((x.setup.markSteps (.leave c)).flatMap
            (Step.said (x.run types (.new .standard)).state name))
          (x.factsAbout types name id) := by
  obtain ⟨hblocks, hconstants⟩ := hx.blocks_and_constants
  have hleave := (hconstants c).1 ⟨id, hid⟩
  have hrun : (x.run types (.new .standard)).outcome = .ok () := hx.outcome
  obtain ⟨pooled, hpooled⟩ := Option.isSome_iff_exists.1
    (hasConstant_of_mark hx.checked hrun hleave)
  refine ⟨pooled, hpooled, fun name hname => ?_⟩
  rw [← Setup.saidOf_constant hx.bundled hname hleave]
  exact forall₂_saidOf hx.bundled hblocks hx.outcome hname hid

/-- A constant has one fact with its kind. -/
theorem factsAbout_constant (hx : x.Succeeded types)
    (hid : x.objects.idOf (.constant c) = .ok id) :
    ∃ pooled, x.setup.unit.constants.get? c = some pooled ∧
      x.factsAbout types "constant" id = [[.object id, .str pooled.value.kind]] := by
  obtain ⟨pooled, hpooled, hfacts⟩ := hx.forall₂_leave hid
  have hconstant := hfacts "constant" (by decide)
  rw [(Setup.said_leave hpooled _).1] at hconstant
  generalize x.factsAbout types "constant" id = facts at hconstant ⊢
  rcases hconstant with _ | ⟨hrow, _ | _⟩
  obtain ⟨p, hp, rfl⟩ := hrow.eq_text
  rw [eq_of_resolve hid hp]
  exact ⟨pooled, hpooled, rfl⟩

/-- A constant has one fact with its type. -/
theorem factsAbout_valueType (hx : x.Succeeded types)
    (hid : x.objects.idOf (.constant c) = .ok id) :
    ∃ text, x.factsAbout types "value_type" id = [[.object id, .str text]] := by
  obtain ⟨pooled, hpooled, hfacts⟩ := hx.forall₂_leave hid
  have htype := hfacts "value_type" (by decide)
  rw [(Setup.said_leave hpooled _).2.1] at htype
  generalize x.factsAbout types "value_type" id = facts at htype ⊢
  rcases htype with _ | ⟨hrow, _ | _⟩
  obtain ⟨table, haccept⟩ := hrow
  obtain ⟨p, hp, rfl⟩ := Row.eq_of_accept_typeText haccept
  rw [eq_of_resolve hid hp]
  exact ⟨table.text pooled.ty, rfl⟩

/-- The facts with the elements of a constant name them in order. -/
theorem factsAbout_constElement (hx : x.Succeeded types)
    (hid : x.objects.idOf (.constant c) = .ok id)
    (hpooled : x.setup.unit.constants.get? c = some pooled) :
    ∃ ids, List.Forall₂ (fun e i => x.objects.idOf (x.setup.unit.constantValue e) = .ok i)
        pooled.value.elements ids ∧
      x.factsAbout types "const_element" id =
        ids.zipIdx.map fun q => [.object id, .int q.2, .object q.1] := by
  obtain ⟨pooled', hpooled', hfacts⟩ := hx.forall₂_leave hid
  obtain rfl : pooled' = pooled := Option.some.inj (hpooled'.symm.trans hpooled)
  have helements := hfacts "const_element" (by decide)
  rw [(Setup.said_leave hpooled _).2.2.1] at helements
  generalize x.factsAbout types "const_element" id = facts at helements ⊢
  generalize pooled'.value.elements = elements at helements ⊢
  -- The positions go on from any start.
  generalize 0 = n at helements ⊢
  induction elements generalizing n facts with
  | nil =>
    cases helements
    exact ⟨[], .nil, rfl⟩
  | cons e elements ih =>
    rw [List.zipIdx_cons, List.map_cons] at helements
    rcases helements with _ | ⟨hrow, hrest⟩
    obtain ⟨ids, hids, rfl⟩ := ih _ _ hrest
    obtain ⟨p, i, hp, hi, rfl⟩ := hrow.eq_indexed
    rw [eq_of_resolve hid hp]
    exact ⟨i :: ids, .cons (ObjectRef.resolve_value_eq_ok_iff.1 hi) hids, rfl⟩

/-- The fact with the base of an inner address. -/
theorem factsAbout_elementAddr (hx : x.Succeeded types)
    (hid : x.objects.idOf (.constant c) = .ok id)
    (hpooled : x.setup.unit.constants.get? c = some pooled) :
    ∃ ids, List.Forall₂ (fun e i => x.objects.idOf (x.setup.unit.constantValue e) = .ok i)
        pooled.value.base?.toList ids ∧
      x.factsAbout types "element_addr" id = ids.map fun i => [.object id, .object i] := by
  obtain ⟨pooled', hpooled', hfacts⟩ := hx.forall₂_leave hid
  obtain rfl : pooled' = pooled := Option.some.inj (hpooled'.symm.trans hpooled)
  have hbase := hfacts "element_addr" (by decide)
  rw [(Setup.said_leave hpooled _).2.2.2] at hbase
  generalize x.factsAbout types "element_addr" id = facts at hbase ⊢
  generalize pooled'.value.base? = base at hbase ⊢
  cases base with
  | none =>
    cases hbase
    exact ⟨[], .nil, rfl⟩
  | some base =>
    rcases hbase with _ | ⟨hrow, _ | _⟩
    obtain ⟨p, i, hp, hi, rfl⟩ := hrow.eq_pair
    rw [eq_of_resolve hid hp]
    exact ⟨[i], .cons (ObjectRef.resolve_value_eq_ok_iff.1 hi) .nil, rfl⟩

/-- Constants are listed in the order in which the walk leaves them. -/
theorem forall₂_constants (hx : x.Succeeded types) :
    List.Forall₂ (fun c fact => ∃ id, x.objects.idOf (.constant c) = .ok id ∧
        fact.head? = some (.object id))
      ((x.setup.unit.marksOf x.setup.unit.references).filterMap Mark.left?)
      ((x.generate types (.new .standard)).store.relation "constant") := by
  have hrun : (x.run types (.new .standard)).outcome = .ok () := hx.outcome
  have hfacts := forall₂_said hx.bundled hx.outcome "constant"
  have hrows : ∀ c ∈ (x.setup.unit.marksOf x.setup.unit.references).filterMap Mark.left?,
      (x.setup.markSteps (.leave c)).flatMap
          (Step.said (x.run types (.new .standard)).state "constant") =
        [⟨.constant, [Value.constant c,
          ((x.setup.unit.constants.get? c).map (·.value.kind)).getD ""]⟩] := by
    intro c hc
    obtain ⟨pooled, hpooled⟩ := Option.isSome_iff_exists.1
      (hasConstant_of_mark hx.checked hrun (Module.mem_filterMap_left?.1 hc))
    have hsubject : x.setup.unit.constants.get? c = some pooled := hpooled
    rw [(Setup.said_leave hsubject _).1, hsubject]
    rfl
  rw [Setup.said_plan_constants hx.bundled (by simp), List.flatMap_congr hrows,
    ← List.map_eq_flatMap, List.forall₂_map_left_iff] at hfacts
  exact hfacts.imp fun c fact h => h.head?_of_subject? rfl

/-- What is said of constants alone is said of a constant of the table. -/
theorem exists_constant_of_mem (hx : x.Succeeded types)
    (hname : name ∈ ["constant", "const_element"]) {fact : Fact}
    (hfact : fact ∈ (x.generate types (.new .standard)).store.relation name) :
    ∃ c id, x.objects.idOf (.constant c) = .ok id ∧ fact.head? = some (.object id) := by
  have hsubject : ∀ name ∈ ["constant", "const_element"],
      name ∉ Relation.withoutSubject.map Relation.name := by decide
  have hfacts := forall₂_said hx.bundled hx.outcome name
  rw [Setup.said_plan_constants hx.bundled hname] at hfacts
  obtain ⟨r, hr, hbecomes⟩ := exists_left_of_mem_right hfacts hfact
  obtain ⟨c, -, hr⟩ := List.mem_flatMap.1 hr
  obtain ⟨st, hst, hr⟩ := List.mem_flatMap.1 hr
  obtain ⟨v, hv, rfl⟩ := (Setup.mem_markSteps_iff.1 hst).describes.exists_subject
    (hsubject name hname) hr
  obtain ⟨id, hid, hhead⟩ := hbecomes.head?_of_subject? hv
  exact ⟨c, id, hid, hhead⟩

end Succeeded

/-! ## The graph of the constants -/

/-- The facts about constants give the graph of the constants, with each node once. -/
structure ConstantsOnce (x : Extractor) (types : TypeTable) : Prop where
  /-- A constant that was registered has one fact with its kind and one with its type. -/
  once : ∀ c id, x.objects.idOf (.constant c) = .ok id →
    ∃ pooled text, x.setup.unit.constants.get? c = some pooled ∧
      x.factsAbout types "constant" id = [[.object id, .str pooled.value.kind]] ∧
      x.factsAbout types "value_type" id = [[.object id, .str text]]
  /-- The fact of a constant comes after the facts of the constants that it is built from. -/
  ordered : ∀ before fact after c id pooled d,
    (x.generate types (.new .standard)).store.relation "constant" = before ++ fact :: after →
    x.objects.idOf (.constant c) = .ok id → fact.head? = some (.object id) →
    x.setup.unit.constants.get? c = some pooled → d ∈ pooled.value.children →
    (x.setup.unit.constantValue d).isConstant = true →
    ∃ child, x.objects.idOf (.constant d) = .ok child ∧
      ∃ earlier ∈ before, earlier.head? = some (.object child)
  /-- The elements of a constant are named in order; addresses of symbols are the symbols. -/
  elements : ∀ c id pooled, x.objects.idOf (.constant c) = .ok id →
    x.setup.unit.constants.get? c = some pooled →
    ∃ ids, List.Forall₂ (fun e i => x.objects.idOf (x.setup.unit.constantValue e) = .ok i)
        pooled.value.elements ids ∧
      x.factsAbout types "const_element" id =
        ids.zipIdx.map fun q => [.object id, .int q.2, .object q.1]
  /-- An address inside of a constant is named with its base. -/
  base : ∀ c id pooled, x.objects.idOf (.constant c) = .ok id →
    x.setup.unit.constants.get? c = some pooled →
    ∃ ids, List.Forall₂ (fun e i => x.objects.idOf (x.setup.unit.constantValue e) = .ok i)
        pooled.value.base?.toList ids ∧
      x.factsAbout types "element_addr" id = ids.map fun i => [.object id, .object i]
  /-- Such facts are about nothing but constants. -/
  only : ∀ name ∈ ["constant", "const_element"],
    ∀ fact ∈ (x.generate types (.new .standard)).store.relation name, ∃ c id,
      fact.head? = some (.object id) ∧ ∀ v, x.objects.idOf v = .ok id ↔ v = .constant c

/-- In a description that succeeds the facts about constants give the graph of the constants,
however the module refers to them. -/
theorem constantsOnce_of_generate {s : Setup} (hb : s.models.Bundled)
    (hnew : (Extractor.new s).1 = .ok x)
    (hok : (x.generate types (.new .standard)).outcome = .ok ()) : x.ConstantsOnce types := by
  obtain rfl := setup_of_new hnew
  have hx : x.Succeeded types := ⟨hnew, hb, hok⟩
  obtain ⟨hblocks, -⟩ := hx.blocks_and_constants
  constructor
  case once =>
    intro c id hid
    obtain ⟨pooled, hpooled, hkind⟩ := hx.factsAbout_constant hid
    obtain ⟨text, htext⟩ := hx.factsAbout_valueType hid
    exact ⟨pooled, text, hpooled, hkind, htext⟩
  case ordered =>
    intro before fact after c id pooled d hsplit hid hhead hpooled hd hconstant
    have hfacts := hx.forall₂_constants
    rw [hsplit] at hfacts
    obtain ⟨front, c', back, hmarks, hfront, id', hid', hhead'⟩ := exists_split_of_forall₂ hfacts
    rw [hhead, Option.some.injEq, Term.object.injEq] at hhead'
    subst hhead'
    obtain rfl : c' = c := by
      have heq := hblocks.eq_of_idOf hid' hid
      simpa using heq
    have hchild : d ∈ x.setup.unit.constantChildren c' := by
      rwa [Module.constantChildren, hpooled]
    obtain ⟨earlier, hmem, child, hchild, hearlier⟩ := exists_right_of_mem_left hfront
      (Module.mem_of_filterMap_left? hmarks hchild hconstant)
    exact ⟨child, hchild, earlier, hmem, hearlier⟩
  case elements => exact fun c id pooled hid hpooled => hx.factsAbout_constElement hid hpooled
  case base => exact fun c id pooled hid hpooled => hx.factsAbout_elementAddr hid hpooled
  case only =>
    intro name hname fact hfact
    obtain ⟨c, id, hid, hhead⟩ := hx.exists_constant_of_mem hname hfact
    refine ⟨c, id, hhead, fun v => ⟨fun hv => hblocks.eq_of_idOf hv hid, ?_⟩⟩
    rintro rfl
    exact hid

/-- Two globals and an operand share constants, one of them an aggregate with a part that comes
twice. -/
def sharing : Setup where
  unit :=
    { name := "m"
      globals := [⟨"g", ⟨2⟩, some ⟨4⟩, .external, .default, false⟩,
        ⟨"h", ⟨0⟩, some ⟨3⟩, .external, .default, false⟩]
      functions := [.define "f" [] none [⟨.entry, [], .ret (some (.imm ⟨4⟩))⟩]]
      constants := (Module.fewConstants.push ⟨.elementAddr ⟨2⟩ ⟨1⟩ [1], ⟨0⟩⟩ (by decide)).push
        ⟨.aggregate ⟨2⟩ [⟨3⟩, ⟨2⟩, ⟨3⟩], ⟨2⟩⟩ (by decide) }
  config := .default
  models := ⟨.firstMatch, []⟩

theorem sharing_constantsOnce :
    sharing.models.Bundled ∧ ∃ x, (Extractor.new sharing).1 = .ok x ∧
      (x.generate (.ofList [.ptr, .int .i64, .array ⟨0⟩ 3]) (.new .standard)).outcome = .ok () ∧
      (x.generate (.ofList [.ptr, .int .i64, .array ⟨0⟩ 3]) (.new .standard)).store.relation
          "constant" =
        [[.object ⟨7⟩, .str "element_addr"], [.object ⟨8⟩, .str "aggregate"]] ∧
      (x.generate (.ofList [.ptr, .int .i64, .array ⟨0⟩ 3]) (.new .standard)).store.relation
          "const_element" =
        [[.object ⟨8⟩, .int 0, .object ⟨7⟩], [.object ⟨8⟩, .int 1, .object ⟨6⟩],
          [.object ⟨8⟩, .int 2, .object ⟨7⟩]] ∧
      x.ConstantsOnce (.ofList [.ptr, .int .i64, .array ⟨0⟩ 3]) := by
  have hb : sharing.models.Bundled := by simp [CallModels.Bundled, sharing]
  have hnew : ∃ x, (Extractor.new sharing).1 = .ok x ∧
      (x.generate (.ofList [.ptr, .int .i64, .array ⟨0⟩ 3]) (.new .standard)).outcome = .ok () ∧
      (x.generate (.ofList [.ptr, .int .i64, .array ⟨0⟩ 3]) (.new .standard)).store.relation
          "constant" =
        [[.object ⟨7⟩, .str "element_addr"], [.object ⟨8⟩, .str "aggregate"]] ∧
      (x.generate (.ofList [.ptr, .int .i64, .array ⟨0⟩ 3]) (.new .standard)).store.relation
          "const_element" =
        [[.object ⟨8⟩, .int 0, .object ⟨7⟩], [.object ⟨8⟩, .int 1, .object ⟨6⟩],
          [.object ⟨8⟩, .int 2, .object ⟨7⟩]] := ⟨_, rfl, by decide +kernel⟩
  obtain ⟨x, hx, hok, hkinds, helements⟩ := hnew
  exact ⟨hb, x, hx, hok, hkinds, helements, constantsOnce_of_generate hb hx hok⟩

end Extractor

end PointsTo
