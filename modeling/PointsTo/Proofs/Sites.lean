import Mathlib
import PointsTo.Proofs.PlainRows
import PointsTo.Proofs.Totality

/-!
# Allocation sites

Globals, functions, stack allocations and calls of allocators have memory. A description
says of each such site what its memory is and that the site holds the address of it. The
memory of a site lies in the block of the site, whatever the site was given, so memory is
never shared. The one other address that a description knows of is the null pointer's.
-/

namespace PointsTo

/-- A value with memory of its own. -/
structure Site where
  owner : Value
  memory : ObjectRef
  text : String
  owned : memory.owner? = some owner

namespace Site

def memoryRow (site : Site) : Row := ⟨.memoryObject, [site.memory, site.text]⟩

def addressRow (site : Site) : Row := ⟨.addressOf, [site.owner, site.memory]⟩

end Site

/-! ## The sites of a module -/

namespace Setup

variable {s : Setup}

/-- An instruction that is an allocation site: a stack allocation, or a call that owns an
object. -/
def instrSites (s : Setup) (place : Place) : Instr → List Value
  | .alloca .. => [.instruction place]
  | .invoke call => if s.callObjects place call = 0 then [] else [.instruction place]
  | _ => []

def blockSites (s : Setup) (f : FunctionId) (b : Block) : List Value :=
  b.instrs.zipIdx.flatMap fun (i, k) => s.instrSites ⟨f, b.label, k⟩ i

def functionSites (s : Setup) (f : FunctionId) (function : Function) : List Value :=
  .function f :: function.blocks.flatMap (s.blockSites f)

/-- The allocation sites of the module, in the order of the module. -/
def sites (s : Setup) : List Value :=
  (s.unit.globalList.map fun (g, _) => .global g) ++
    s.unit.functionList.flatMap fun (f, function) => s.functionSites f function

/-- The sites by the pieces of an outline. -/
def sitePieces (s : Setup) : Pieces Value where
  preamble := []
  global g := [.global g]
  function f _ := [.function f]
  block _ _ := []
  instr := s.instrSites
  terminator _ _ := []

theorem all_sitePieces (s : Setup) : s.sitePieces.all s.unit = s.sites := by
  simp only [Pieces.all, sitePieces, sites, functionSites, List.map_eq_flatMap, List.nil_append,
    List.append_nil, List.cons_append]
  rfl

theorem instrSites_sublist (place : Place) (i : Instr) :
    (s.instrSites place i).Sublist [.instruction place] := by
  unfold instrSites
  split
  · exact .refl _
  · split
    · exact List.nil_sublist _
    · exact .refl _
  · exact List.nil_sublist _

/-- Sites are different parts of the module. -/
theorem nodup_sites (hl : s.unit.Labelled) : s.sites.Nodup := by
  have hsub : (s.sitePieces.all s.unit).Sublist (valuePieces.all s.unit) :=
    Pieces.all_sublist s.unit (.refl _) (fun _ => .refl _) (fun _ _ => List.sublist_append_left _ _)
      (fun _ _ => List.nil_sublist _) instrSites_sublist fun _ _ => List.nil_sublist _
  rw [← all_sitePieces]
  exact (nodup_all_valuePieces hl).sublist hsub

end Setup

/-! ## Steps that describe sites -/

/-- The relations that say where memory is. -/
def Relation.ofMemory : List Relation := [memoryObject, addressOf]

/-- The memory and the addresses that the steps mention are those of the sites, which belong
to the values. -/
structure Allocates (steps : List Step) (sites : List Site) (owners : List Value) : Prop where
  memory : steps.filterMap (Step.row? "memory_object") = sites.map Site.memoryRow
  address : steps.filterMap (Step.row? "address_of") = sites.map Site.addressRow
  owners : sites.map Site.owner = owners

/-- The steps describe sites that belong to the values. -/
def Sited (steps : List Step) (owners : List Value) : Prop := ∃ sites, Allocates steps sites owners

theorem piecewise_sited : Setup.Piecewise Sited where
  nil := ⟨[], rfl, rfl, rfl⟩
  append := by
    rintro steps steps' owners owners' ⟨sites, h⟩ ⟨sites', h'⟩
    refine ⟨sites ++ sites', ?_, ?_, ?_⟩
    · rw [List.filterMap_append, h.memory, h'.memory, List.map_append]
    · rw [List.filterMap_append, h.address, h'.address, List.map_append]
    · rw [List.map_append, h.owners, h'.owners]

namespace Sited

variable {steps steps' : List Step} {owners : List Value} {rels : List Relation}
  {P : Value → Prop}

/-- Steps in other relations describe no site. -/
theorem of_describes (h : ∀ st ∈ steps, st.Describes rels P)
    (hrels : ∀ rel ∈ Relation.ofMemory, rel.name ∉ rels.map Relation.name) : Sited steps [] := by
  have hmemory := hrels .memoryObject List.mem_cons_self
  have haddress := hrels .addressOf (List.mem_cons_of_mem _ List.mem_cons_self)
  exact ⟨[], Step.rows_eq_nil fun st hst => (h st hst).avoids hmemory,
    Step.rows_eq_nil fun st hst => (h st hst).avoids haddress, rfl⟩

theorem before (h : Sited steps owners) (h' : Sited steps' []) : Sited (steps' ++ steps) owners :=
  piecewise_sited.append h' h

theorem after (h : Sited steps owners) (h' : Sited steps' []) :
    Sited (steps ++ steps') owners := by
  have hall := piecewise_sited.append h h'
  rwa [List.append_nil] at hall

end Sited

/-- Of all instructions only stack allocations and calls are about memory. -/
theorem Instr.name_notMem_allRelations {i : Instr} (halloca : ∀ d t c a, i ≠ .alloca d t c a)
    (hinvoke : ∀ call, i ≠ .invoke call) :
    ∀ rel ∈ Relation.ofMemory, rel.name ∉ i.allRelations.map Relation.name := by
  have hsub : i.allRelations ⊆ [.load, .store, .elementAddr, .phi, .move, .unknownSource] := by
    cases i with
    | alloca dest ty count alignment => exact absurd rfl (halloca _ _ _ _)
    | invoke call => exact absurd rfl (hinvoke _)
    | cast dest op ty value =>
      cases op <;> simp [allRelations, relations, guardedRelations, plainRelations]
    | _ => simp [allRelations, relations, guardedRelations, plainRelations]
  have hnames : ∀ rel ∈ Relation.ofMemory, rel.name ∉
      [Relation.load, .store, .elementAddr, .phi, .move, .unknownSource].map Relation.name := by
    decide
  exact fun rel hrel hmem => hnames rel hrel (List.map_subset _ hsub hmem)

namespace Setup

variable {s : Setup} {f : FunctionId} {function : Function} {b : Block}

/-- A call that owns an object has it as its memory. -/
theorem sited_describe {model : CallModel} {site : CallSite} {k : Nat}
    (hmodel : (∃ symbols, model = .heapAllocator symbols) ∨ model = .memoryCopy)
    (hk : model.recognize site = some k) (call : CallObjects) :
    Sited (model.describe site call) (if k = 0 then [] else [call.self]) := by
  rcases hmodel with ⟨symbols, rfl⟩ | rfl
  · obtain rfl := eq_one_of_heapAllocator hk
    exact ⟨[⟨call.self, .affiliated call.self 1, "heap", rfl⟩], rfl, rfl, rfl⟩
  · obtain rfl := eq_zero_of_memoryCopy hk
    simp only [CallModel.memoryCopy]
    split
    · split <;> exact ⟨[], rfl, rfl, rfl⟩
    · exact ⟨[], rfl, rfl, rfl⟩

theorem sited_callSteps (hl : s.unit.Labelled) (hb : s.models.Bundled) {call : Invoke} {k : Nat}
    (hi : s.unit.HasInstr f function b (.invoke call) k) (scope : Scope) :
    Sited (s.callSteps s.matchedCalls scope ⟨f, b.label, k⟩ call)
      (s.instrSites ⟨f, b.label, k⟩ (.invoke call)) := by
  have hlookup := lookup_matchedCalls hl hi
  cases hposition : s.callModel? ⟨f, b.label, k⟩ call with
  | none =>
    rw [instrSites, if_pos (callObjects_of_callModel?_none hposition)]
    have hnone : (s.matchedCalls.lookup ⟨f, b.label, k⟩).bind (s.models.models[·]?) = none := by
      rw [hlookup, hposition, Option.bind_none]
    have hnames : ∀ rel ∈ Relation.ofMemory,
        rel.name ∉ [Relation.callArg, .callReturn, .call].map Relation.name := by decide
    exact .of_describes (fun st hst => (mem_callSteps_iff.1 hst).describes_of_none hnone) hnames
  | some position =>
    obtain ⟨model, hmodel, hrec⟩ := recognize_of_callModel? hposition
    simp only [callSteps, hlookup, hposition, Option.bind_some, hmodel]
    have hdescribe := sited_describe (hb model (List.mem_of_getElem? hmodel)) hrec
      ⟨.instruction ⟨f, b.label, k⟩, scope.object s.unit call.function,
        call.args.map (scope.object s.unit)⟩
    have hremark : Sited [.remark (.handled (.instruction ⟨f, b.label, k⟩) model.name)] [] :=
      ⟨[], rfl, rfl, rfl⟩
    exact hdescribe.before hremark

theorem sited_effectSteps (hl : s.unit.Labelled) (hb : s.models.Bundled) {i : Instr} {k : Nat}
    (hi : s.unit.HasInstr f function b i k) (scope : Scope) :
    Sited (s.effectSteps s.matchedCalls scope ⟨f, b.label, k⟩ i)
      (s.instrSites ⟨f, b.label, k⟩ i) := by
  cases i with
  | alloca dest ty count alignment =>
    exact ⟨[⟨.instruction ⟨f, b.label, k⟩, .storage (.instruction ⟨f, b.label, k⟩), "stack", rfl⟩],
      rfl, rfl, rfl⟩
  | invoke call => exact sited_callSteps hl hb hi scope
  | _ =>
    exact .of_describes (fun st hst => (mem_effectSteps_iff.1 hst).describes hb)
      (Instr.name_notMem_allRelations (by simp) (by simp))

theorem sited_functionHead (f : FunctionId) (function : Function) :
    Sited (s.functionHead f function) [.function f] := by
  have hself : Sited [.row ⟨.function, [Value.function f, function.name]⟩,
      .row ⟨.memoryObject, [Value.function f, "function"]⟩,
      .row ⟨.addressOf, [Value.function f, Value.function f]⟩,
      .typed (.function f) .pointer] [.function f] :=
    ⟨[⟨.function f, .value (.function f), "function", rfl⟩], rfl, rfl, rfl⟩
  have hargument (k : Nat) (ty : TypeId) : Sited (s.argumentSteps f function k ty) [] := by
    unfold argumentSteps
    split <;> exact ⟨[], rfl, rfl, rfl⟩
  have harguments : Sited (function.params.zipIdx.flatMap fun e =>
      s.argumentSteps f function e.2 e.1.2) [] := by
    have h := piecewise_sited.flatMap (l := function.params.zipIdx) fun e _ =>
      hargument e.2 e.1.2
    rwa [List.flatMap_eq_nil_iff.2 fun _ _ => rfl] at h
  have hinterns : ∀ st ∈ (Scope.new f function).names.filterMap fun e => e.2.2.map Step.intern,
      st.Describes [] fun _ => True := by
    intro st hst
    obtain ⟨e, -, hst⟩ := List.mem_filterMap.1 hst
    obtain ⟨ty, -, rfl⟩ := Option.map_eq_some_iff.1 hst
    exact .intern
  have hentry : Sited [.remark (.emitting function.name function.body.size),
      .row ⟨.functionEntry, [Value.function f, Value.block f .entry]⟩] [] :=
    ⟨[], rfl, rfl, rfl⟩
  refine (hself.after harguments).after ?_
  split
  · exact ⟨[], rfl, rfl, rfl⟩
  · exact (Sited.of_describes hinterns (by decide)).before hentry

theorem sited_globalOutline (g : GlobalId) (global : Global) :
    Sited (s.globalOutline g global) [.global g] := by
  unfold globalOutline
  cases global.initializer <;>
    exact ⟨[⟨.global g, .storage (.global g), "global", rfl⟩], rfl, rfl, rfl⟩

theorem sited_instrOutline (hl : s.unit.Labelled) (hb : s.models.Bundled) {i : Instr} {k : Nat}
    (hi : s.unit.HasInstr f function b i k) (scope : Scope) (block : Value) :
    Sited (s.instrOutline s.matchedCalls scope ⟨f, b.label, k⟩ block i)
      (s.instrSites ⟨f, b.label, k⟩ i) := by
  have hhead : Sited (s.instrHead scope ⟨f, b.label, k⟩ block i) [] :=
    .of_describes (fun st hst => (mem_instrHead_iff.1 hst).describes) (by decide)
  exact (sited_effectSteps hl hb hi scope).before hhead

/-- An outline describes the sites of the module. -/
theorem sited_outline (hl : s.unit.Labelled) (hb : s.models.Bundled) :
    Sited (s.outline s.matchedCalls) s.sites := by
  rw [← s.all_sitePieces]
  refine piecewise_sited.outline s.sitePieces ?preamble
    (fun g global _ => sited_globalOutline g global)
    (fun f function _ => sited_functionHead f function) (fun f label => ⟨[], rfl, rfl, rfl⟩)
    (fun hi => sited_instrOutline hl hb hi _ _) fun _ => ?terminator
  case preamble =>
    exact .of_describes (fun st hst => (mem_preamble_iff.1 hst).describes) (by decide)
  case terminator =>
    exact .of_describes (fun st hst => (mem_terminatorOutline_iff.1 hst).describes) (by decide)

/-- Of all constants only the null pointer is said to point somewhere. -/
theorem MarkStep.null_of_address {mark : Mark} {r : Row} (h : s.MarkStep mark (.row r))
    (hname : r.relation.name = "address_of") :
    ∃ c pooled id, s.unit.constants.get? c = some pooled ∧ pooled.value = .null ∧
      s.config.specialId? nullObject = some id ∧
      r = ⟨.addressOf, [Value.constant c, ObjectRef.special id.index]⟩ := by
  cases h with
  | null hc hvalue hid => exact ⟨_, _, _, hc, hvalue, hid, rfl⟩
  | constant => exact absurd hname (by simp [Relation.constant])
  | element => exact absurd hname (by simp [Relation.constElement])
  | elementAddr => exact absurd hname (by simp [Relation.elementAddr])

end Setup

/-! ## Facts about sites -/

/-- Only one element has the key of an element, if keys do not repeat. -/
theorem filter_eq_singleton {α β : Type} [DecidableEq β] {key : α → β} {l : List α}
    (h : (l.map key).Nodup) {a : α} (ha : a ∈ l) : (l.filter fun b => key b = key a) = [a] := by
  have hperm : (l.filter fun b => key b = key a).Perm [a] := by
    rw [List.perm_ext_iff_of_nodup (h.of_map.filter _) (List.nodup_singleton a)]
    intro b
    simp only [List.mem_filter, decide_eq_true_eq, List.mem_singleton]
    constructor
    · rintro ⟨hb, heq⟩
      exact List.inj_on_of_nodup_map h hb ha heq
    · rintro rfl
      exact ⟨ha, rfl⟩
  exact List.perm_singleton.1 hperm

/-- The value that the object of a term belongs to. -/
def Term.owner? (x : ObjectTable Value) : Option Term → Option Value
  | some (.object id) => (x.mainValue id).toOption
  | _ => none

/-- Sites with different owners have different memory: it does not repeat in a column. -/
theorem nodup_column {t : Emission.Target} (hx : t.objects.Blocks) {sites : List Site}
    (hn : (sites.map Site.owner).Nodup) {row : Site → Row} {k : Nat}
    (hrow : ∀ site, (row site).cells[k]? = some (.object site.memory)) {facts : List Fact}
    (h : List.Forall₂ (Row.Becomes t) (sites.map row) facts) : (facts.map (·[k]?)).Nodup := by
  have howners : facts.map (fun fact => Term.owner? t.objects fact[k]?) =
      sites.map fun site => some site.owner := by
    rw [List.forall₂_map_left_iff] at h
    induction h with
    | nil => rfl
    | @cons site fact sites facts hbecomes _ ih =>
      obtain ⟨id, hid, hterm⟩ := hbecomes.exists_term (hrow site)
      have hmain := ObjectRef.mainValue_of_resolve hx site.owned hid
      rw [List.map_cons, List.map_cons, ih (List.nodup_cons.1 hn).2, hterm, Term.owner?, hmain]
      rfl
  have hsome : (sites.map fun site => some site.owner).Nodup := by
    rw [← Function.comp_def some Site.owner, ← List.map_map]
    exact hn.map (Option.some_injective _)
  have hnodup : ((facts.map (·[k]?)).map (Term.owner? t.objects)).Nodup := by
    rw [List.map_map]
    exact howners ▸ hsome
  exact hnodup.of_map

namespace Extractor

variable {x : Extractor} {types : TypeTable}

/-- The fact says that a null pointer of the module points to the special object for that. -/
def NullFact (x : Extractor) (fact : Fact) : Prop :=
  ∃ c pooled p o, x.setup.unit.constants.get? c = some pooled ∧ pooled.value = .null ∧
    x.objects.idOf (.constant c) = .ok p ∧ x.setup.config.specialId? "null" = some o ∧
    fact = [.object p, .object o]

/-- Memory in a store is that of the allocation sites. It is never shared, and one pointer
has the address. -/
structure SitesApart (x : Extractor) (store : FactStore) : Prop where
  /-- Each allocation site of the module has one memory object. -/
  sites : List.Forall₂ (fun v fact => ∃ o text, fact = [.object o, .str text] ∧
    x.objects.mainValue o = .ok v) x.setup.sites (store.relation "memory_object")
  /-- No object is the memory of two sites. -/
  distinct : ((store.relation "memory_object").map (·[0]?)).Nodup
  /-- The address of a memory object is held by the value that owns the object, and by
  nothing else. -/
  owned : ∀ fact ∈ store.relation "memory_object", ∃ o p text,
    fact = [.object o, .str text] ∧ x.objects.mainId o = .ok p ∧
      (store.relation "address_of").filter (fun f => f[1]? = some (.object o)) =
        [[.object p, .object o]]
  /-- All other addresses are those of null pointers. -/
  others : ∀ fact ∈ store.relation "address_of",
    (∃ o, fact[1]? = some (.object o) ∧ store.Occurs "memory_object" 0 o) ∨ x.NullFact fact

/-- Facts about the memory and the addresses of the sites of the module. The addresses are
those of the sites and, in between, those of null pointers. -/
structure SiteFacts (x : Extractor) (sites : List Site) (memory address own null : List Fact) :
    Prop where
  owners : sites.map Site.owner = x.setup.sites
  become_memory :
    List.Forall₂ (Row.Becomes ⟨x.objects, .new .standard⟩) (sites.map Site.memoryRow) memory
  become_own :
    List.Forall₂ (Row.Becomes ⟨x.objects, .new .standard⟩) (sites.map Site.addressRow) own
  interleaves : Interleaves own null address
  of_null : ∀ fact ∈ null, x.NullFact fact

namespace SiteFacts

variable {sites : List Site} {memory address own null : List Fact} {site : Site} {o p : ObjectId}

theorem nodup (h : x.SiteFacts sites memory address own null) (hl : x.setup.unit.Labelled) :
    (sites.map Site.owner).Nodup := by
  rw [h.owners]
  exact Setup.nodup_sites hl

theorem memory_mem (h : x.SiteFacts sites memory address own null) (hsite : site ∈ sites)
    (ho : site.memory.resolve x.objects = .ok o) : [.object o, .str site.text] ∈ memory := by
  obtain ⟨fact, hfact, hbecomes⟩ :=
    exists_right_of_mem_left h.become_memory (List.mem_map_of_mem hsite)
  obtain ⟨o', ho', rfl⟩ := hbecomes.eq_text
  obtain rfl : o = o' := Except.ok.inj (ho.symm.trans ho')
  exact hfact

theorem own_mem (h : x.SiteFacts sites memory address own null) (hsite : site ∈ sites)
    (ho : site.memory.resolve x.objects = .ok o) (hp : x.objects.idOf site.owner = .ok p) :
    [.object p, .object o] ∈ own := by
  obtain ⟨fact, hfact, hbecomes⟩ :=
    exists_right_of_mem_left h.become_own (List.mem_map_of_mem hsite)
  obtain ⟨p', o', hp', ho', rfl⟩ := hbecomes.eq_pair
  obtain rfl : p = p' := Except.ok.inj (hp.symm.trans (ObjectRef.resolve_value_eq_ok_iff.1 hp'))
  obtain rfl : o = o' := Except.ok.inj (ho.symm.trans ho')
  exact hfact

/-- The owner of a site holds the address of its memory, and nothing else does. -/
theorem filter_address (h : x.SiteFacts sites memory address own null) (hx : x.Registered)
    (hl : x.setup.unit.Labelled) (hsite : site ∈ sites) (ho : site.memory.resolve x.objects = .ok o)
    (hp : x.objects.idOf site.owner = .ok p) :
    address.filter (fun f => f[1]? = some (.object o)) = [[.object p, .object o]] := by
  -- Null pointers point to a special object, which is nobody's memory.
  have hnone : null.filter (fun f => f[1]? = some (.object o)) = [] := by
    rw [List.filter_eq_nil_iff]
    intro f hf heq
    obtain ⟨c, pooled, p', o', -, -, -, hspecial, rfl⟩ := h.of_null f hf
    obtain rfl : o' = o := by simpa using heq
    exact absurd (hx.special_le_of_resolve site.owned ho)
      (Nat.not_le.2 (Config.index_lt_of_specialId? hspecial))
  rw [h.interleaves.filter_left hnone]
  exact filter_eq_singleton (nodup_column hx.blocks (h.nodup hl) (fun _ => rfl) h.become_own)
    (h.own_mem hsite ho hp)

end SiteFacts

/-- What a description says of memory and addresses is about sites and null pointers. -/
theorem Registered.exists_siteFacts (hx : x.Registered) (hl : x.setup.unit.Labelled)
    (hb : x.setup.models.Bundled)
    (hok : (x.generate types (.new .standard)).outcome = .ok ()) :
    ∃ sites own null,
      x.SiteFacts sites ((x.generate types (.new .standard)).store.relation "memory_object")
        ((x.generate types (.new .standard)).store.relation "address_of") own null := by
  have hplan := x.setup.plan_interleaves x.matched
  obtain ⟨sites, hsites⟩ := Setup.sited_outline hl hb
  rw [← hx.matched] at hsites
  have hplain : ∀ rel ∈ Relation.ofMemory, ∀ st ∈ x.setup.plan x.matched,
      st.PlainIn rel.name := by
    have himplied : ∀ rel ∈ Relation.ofMemory, rel.name ∉ Relation.implied.map Relation.name := by
      decide
    exact fun rel hrel st hst => (Setup.regular_of_bundled hb hst).plainIn (himplied rel hrel)
  have hmemory := x.forall₂_becomes hok (hplain .memoryObject (by decide))
  have haddress := x.forall₂_becomes hok (hplain .addressOf (by decide))
  rw [show Relation.memoryObject.name = "memory_object" from rfl,
    Setup.rows_plan_outline (by decide), hsites.memory] at hmemory
  obtain ⟨own, null, hinterleaves, hown, hnull⟩ :=
    (hplan.filterMap (Step.row? "address_of")).forall₂ haddress
  rw [hsites.address] at hown
  refine ⟨sites, own, null, hsites.owners, hmemory, hown, hinterleaves, fun fact hfact => ?_⟩
  obtain ⟨r, hr, hbecomes⟩ := exists_left_of_mem_right hnull hfact
  obtain ⟨st, hst, hr⟩ := List.mem_filterMap.1 hr
  obtain ⟨rfl, hname⟩ := Step.row?_eq_some_iff.1 hr
  obtain ⟨mark, -, hst⟩ := List.mem_flatMap.1 hst
  obtain ⟨c, pooled, o, hc, hvalue, ho, rfl⟩ :=
    (Setup.mem_markSteps_iff.1 hst).null_of_address hname
  obtain ⟨p, o', hp, ho', rfl⟩ := hbecomes.eq_pair
  cases ho'
  exact ⟨c, pooled, p, o, hc, hvalue, ObjectRef.resolve_value_eq_ok_iff.1 hp, ho, rfl⟩

/-- However many objects the configuration gives to sites, the facts of a description that
succeeds keep the memory of different sites apart. -/
theorem sitesApart_of_generate {s : Setup} (hl : s.unit.Labelled) (hb : s.models.Bundled)
    (hnew : (Extractor.new s).1 = .ok x)
    (hok : (x.generate types (.new .standard)).outcome = .ok ()) :
    x.SitesApart (x.generate types (.new .standard)).store := by
  obtain ⟨rfl, hx⟩ := registered_of_new hl hnew
  obtain ⟨sites, own, null, hfacts⟩ := hx.exists_siteFacts hl hb hok
  constructor
  case sites =>
    rw [← hfacts.owners, List.forall₂_map_left_iff]
    refine (List.forall₂_map_left_iff.1 hfacts.become_memory).imp fun site fact hbecomes => ?_
    obtain ⟨o, ho, rfl⟩ := hbecomes.eq_text
    exact ⟨o, site.text, rfl, ObjectRef.mainValue_of_resolve hx.blocks site.owned ho⟩
  case distinct =>
    exact nodup_column hx.blocks (hfacts.nodup hl) (fun _ => rfl) hfacts.become_memory
  case owned =>
    intro fact hfact
    obtain ⟨r, hr, hbecomes⟩ := exists_left_of_mem_right hfacts.become_memory hfact
    obtain ⟨site, hsite, rfl⟩ := List.mem_map.1 hr
    obtain ⟨o, ho, rfl⟩ := hbecomes.eq_text
    obtain ⟨p, hp, hin⟩ := ObjectRef.exists_inBlock_of_resolve hx.blocks site.owned ho
    exact ⟨o, p, site.text, rfl, hx.blocks.inBlock_iff.1 hin,
      hfacts.filter_address hx hl hsite ho hp⟩
  case others =>
    intro fact hfact
    rcases hfacts.interleaves.mem_iff.1 hfact with hfact | hfact
    · obtain ⟨r, hr, hbecomes⟩ := exists_left_of_mem_right hfacts.become_own hfact
      obtain ⟨site, hsite, rfl⟩ := List.mem_map.1 hr
      obtain ⟨p, o, -, ho, rfl⟩ := hbecomes.eq_pair
      exact .inl ⟨o, rfl, _, hfacts.memory_mem hsite ho, rfl⟩
    · exact .inr (hfacts.of_null fact hfact)

theorem allocating_sites_apart :
    allocating.unit.Labelled ∧ allocating.models.Bundled ∧
      ∃ x, (Extractor.new allocating).1 = .ok x ∧
        (x.generate .empty (.new .standard)).outcome = .ok () ∧
        x.SitesApart (x.generate .empty (.new .standard)).store := by
  have hnew : ∃ x, (Extractor.new allocating).1 = .ok x := ⟨_, rfl⟩
  obtain ⟨x, hx⟩ := hnew
  have hok := outcome_allocating hx
  exact ⟨labelled_allocating, bundled_allocating, x, hx, hok,
    sitesApart_of_generate labelled_allocating bundled_allocating hx hok⟩

end Extractor

end PointsTo
