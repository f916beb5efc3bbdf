import Mathlib
import PointsTo.Proofs.Agreement
import PointsTo.Proofs.PairedRegistration
import PointsTo.Proofs.Renaming

/-!
# Objects under other names

Values are named by the labels of their blocks. Under other names a module asks for ids for
the values of the same parts in the same order, so an extractor gives the same ids to
corresponding values.
-/

namespace PointsTo

/-! ## Tables of other values -/

theorem lookup_map_key {α β γ : Type} [DecidableEq α] [DecidableEq β] {g : α → β}
    (hg : Function.Injective g) (l : List (α × γ)) (a : α) :
    (l.map fun e => (g e.1, e.2)).lookup (g a) = l.lookup a := by
  induction l with
  | nil => rfl
  | cons e rest ih =>
    obtain ⟨b, c⟩ := e
    rw [List.map_cons, List.lookup_cons, List.lookup_cons, ih]
    by_cases hab : a = b
    · simp [hab]
    · have hbeq : (a == b) = false := by simpa using hab
      have hbeq' : (g a == g b) = false := by simpa using hg.ne hab
      simp [hbeq, hbeq']

def Slot.map {V W : Type} (g : V → W) : Slot V → Slot W
  | .owning value affiliated => .owning (g value) affiliated
  | .affiliate base => .affiliate base

def ObjectError.map {V W : Type} (g : V → W) : ObjectError V → ObjectError W
  | .unregistered value => .unregistered (g value)
  | .outOfRange id first stop => .outOfRange id first stop
  | .affiliatedBase base => .affiliatedBase base
  | .notABase id => .notABase id
  | .affiliatedOverflow base offset reserved => .affiliatedOverflow base offset reserved

namespace ObjectTable

variable {V W : Type} [DecidableEq V] [DecidableEq W] {g : V → W}

/-- The table with other values in the place of its own. -/
def map (g : V → W) (x : ObjectTable V) : ObjectTable W where
  special := x.special
  slots := x.slots.map (Slot.map g)
  ids := x.ids.map fun e => (g e.1, e.2)

theorem find?_map (hg : Function.Injective g) (x : ObjectTable V) (v : V) :
    (x.map g).find? (g v) = x.find? v :=
  lookup_map_key hg x.ids v

/-- The values of the new table come from the old one. -/
theorem exists_of_find?_map (hg : Function.Injective g) {x : ObjectTable V} {w : W}
    {id : ObjectId} (h : (x.map g).find? w = some id) : ∃ v, w = g v ∧ x.find? v = some id := by
  obtain ⟨before, after, heq, -⟩ := List.lookup_eq_some_iff.1 h
  have hmem : (w, id) ∈ x.ids.map fun e => (g e.1, e.2) := by
    rw [show (x.ids.map fun e => (g e.1, e.2)) = before ++ (w, id) :: after from heq]
    simp
  obtain ⟨e, -, heq⟩ := List.mem_map.1 hmem
  obtain ⟨rfl, rfl⟩ := Prod.mk.inj heq
  exact ⟨e.1, rfl, by rwa [find?_map hg] at h⟩

theorem register_map (hg : Function.Injective g) (x : ObjectTable V) (v : V) (k : Nat) :
    ((x.map g).register (g v) k).2 = (x.register v k).2.map g := by
  unfold register
  rw [find?_map hg]
  cases x.find? v with
  | some id => rfl
  | none => simp [allocate, map, Slot.map, stop, size]

theorem contains_map (hg : Function.Injective g) (x : ObjectTable V) (v : V) :
    (x.map g).contains (g v) = x.contains v := by
  rw [contains, contains, find?_map hg]

/-- The ids of the new table are those of the old one. -/
theorem idOf_map_eq_ok_iff (hg : Function.Injective g) {x : ObjectTable V} {w : W}
    {id : ObjectId} : (x.map g).idOf w = .ok id ↔ ∃ v, w = g v ∧ x.idOf v = .ok id := by
  simp only [idOf_eq_ok_iff]
  constructor
  · exact exists_of_find?_map hg
  · rintro ⟨v, rfl, hv⟩
    rwa [find?_map hg]

theorem idOf_map (hg : Function.Injective g) (x : ObjectTable V) (v : V) :
    (x.map g).idOf (g v) = (x.idOf v).mapError (ObjectError.map g) := by
  unfold idOf
  rw [find?_map hg]
  cases x.find? v <;> rfl

omit [DecidableEq V] [DecidableEq W] in
theorem slot_map (x : ObjectTable V) (id : ObjectId) :
    (x.map g).slot id = ((x.slot id).map (Slot.map g)).mapError (ObjectError.map g) := by
  have hslots : (x.map g).slots = x.slots.map (Slot.map g) := rfl
  have hspecial : (x.map g).special = x.special := rfl
  have hstop : (x.map g).stop = x.stop := by simp [stop, size, map]
  unfold slot
  rw [hslots, hspecial, hstop, List.getElem?_map]
  split
  · cases x.slots[id.index - x.special]? <;> rfl
  · rfl

omit [DecidableEq V] [DecidableEq W] in
theorem affiliated_map (x : ObjectTable V) (id : ObjectId) (n : Nat) :
    (x.map g).affiliated id n = (x.affiliated id n).mapError (ObjectError.map g) := by
  unfold affiliated
  rw [slot_map]
  split
  · rfl
  · cases x.slot id with
    | error e => rfl
    | ok slot =>
      cases slot with
      | affiliate base => rfl
      | owning value reserved =>
        simp only [Except.map, Except.mapError, Slot.map]
        split <;> rfl

omit [DecidableEq V] [DecidableEq W] in
theorem storage_map (x : ObjectTable V) (id : ObjectId) :
    (x.map g).storage id = (x.storage id).mapError (ObjectError.map g) := by
  unfold storage
  rw [affiliated_map]
  cases x.affiliated id 1 with
  | ok o => rfl
  | error e =>
    cases e with
    | affiliatedOverflow base offset reserved => cases reserved <;> rfl
    | _ => rfl

end ObjectTable

/-! ### Objects of other values -/

namespace ObjectRef

variable {g : Value → Value} {x : ObjectTable Value}

theorem agree_value (hg : Function.Injective g) (v : Value) :
    ObjectRef.Agree id x (x.map g) (.value v) (.value (g v)) := by
  rw [ObjectRef.Agree, resolve, resolve, ObjectTable.idOf_map hg]
  cases x.idOf v with
  | ok _ => exact .ok rfl
  | error _ => exact .error trivial

theorem agree_storage (hg : Function.Injective g) (v : Value) :
    ObjectRef.Agree id x (x.map g) (.storage v) (.storage (g v)) := by
  rw [ObjectRef.Agree, resolve, resolve, ObjectTable.idOf_map hg]
  cases x.idOf v with
  | error _ => exact .error trivial
  | ok owner =>
    simp only [Except.mapError, Except.bind, ObjectTable.storage_map]
    cases x.storage owner with
    | ok _ => exact .ok rfl
    | error _ => exact .error trivial

theorem agree_affiliated (hg : Function.Injective g) (v : Value) (k : Nat) :
    ObjectRef.Agree id x (x.map g) (.affiliated v k) (.affiliated (g v) k) := by
  rw [ObjectRef.Agree, resolve, resolve, ObjectTable.idOf_map hg]
  cases x.idOf v with
  | error _ => exact .error trivial
  | ok owner =>
    simp only [Except.mapError, Except.bind, ObjectTable.affiliated_map]
    cases x.affiliated owner k with
    | ok _ => exact .ok rfl
    | error _ => exact .error trivial

theorem agree_special (k : Nat) : ObjectRef.Agree id x (x.map g) (.special k) (.special k) :=
  .ok rfl

theorem agree_missing (fault fault' : Fault) :
    ObjectRef.Agree id x (x.map g) (.missing fault) (.missing fault') :=
  .error trivial

end ObjectRef

/-! ## Values under other names -/

namespace Renaming

variable (R : Renaming)

def place (i : Place) : Place := { i with block := R.label i.function i.block }

def value : Value → Value
  | .block f label => .block f (R.label f label)
  | .instruction i => .instruction (R.place i)
  | .terminator f label => .terminator f (R.label f label)
  | v => v

variable {R}

theorem place_injective (h : ∀ f, Function.Injective (R.label f)) : Function.Injective R.place := by
  rintro ⟨f, l, k⟩ ⟨f', l', k'⟩ heq
  simp only [place, Place.mk.injEq] at heq
  obtain ⟨rfl, hl, rfl⟩ := heq
  rw [h f hl]

theorem value_injective (h : ∀ f, Function.Injective (R.label f)) : Function.Injective R.value := by
  intro v w heq
  cases v <;> cases w <;> simp only [value, reduceCtorEq, Value.block.injEq,
    Value.instruction.injEq, Value.terminator.injEq] at heq ⊢
  · exact heq
  · exact heq
  · exact heq
  · obtain ⟨rfl, hl⟩ := heq
    exact ⟨rfl, h _ hl⟩
  · exact place_injective h heq
  · obtain ⟨rfl, hl⟩ := heq
    exact ⟨rfl, h _ hl⟩
  · exact heq

@[simp] theorem value_constantValue (m : Module) (c : ConstId) :
    R.value (m.constantValue c) = m.constantValue c := by
  unfold Module.constantValue
  split <;> rfl

end Renaming

/-! ## Calls under other names -/

/-- What the bundled models look at when they recognise a call. -/
theorem CallModels.Bundled.recognize_congr {models : CallModels} (h : models.Bundled)
    {model : CallModel} (hmodel : model ∈ models.models) {site site' : CallSite}
    (hname : site'.calleeName? = site.calleeName?)
    (hdest : site'.invoke.dest.isSome = site.invoke.dest.isSome)
    (hargs : site'.invoke.args.length = site.invoke.args.length) :
    model.recognize site' = model.recognize site := by
  rcases h model hmodel with ⟨symbols, rfl⟩ | rfl
  · simp only [CallModel.heapAllocator, hname]
    cases site.calleeName? with
    | none => rfl
    | some callee =>
      cases hd : site.invoke.dest <;> cases hd' : site'.invoke.dest <;> simp [hd, hd'] at hdest ⊢
  · simp only [CallModel.memoryCopy, hname, hargs]

/-- A call is resolved alike if the bundled models see the same of it. -/
theorem CallModels.Bundled.both_resolve {models : CallModels} (h : models.Bundled)
    {site site' : CallSite} (hname : site'.calleeName? = site.calleeName?)
    (hdest : site'.invoke.dest.isSome = site.invoke.dest.isSome)
    (hargs : site'.invoke.args.length = site.invoke.args.length) :
    Both Eq (fun _ _ => True) (models.resolve site) (models.resolve site') := by
  have hcandidates : models.candidates site' = models.candidates site := by
    apply List.filterMap_congr
    rintro ⟨model, position⟩ hmem
    have hmodel : model ∈ models.models := List.fst_mem_of_mem_zipIdx hmem
    simp only [h.recognize_congr hmodel hname hdest hargs]
  rw [CallModels.resolve_eq_answer, CallModels.resolve_eq_answer, hcandidates]
  rcases models.candidates site with _ | ⟨first, _ | ⟨second, rest⟩⟩
  · exact .ok rfl
  · exact .ok rfl
  · by_cases hpolicy : models.policy = .firstMatch
    · simp only [CallModels.answer, hpolicy, if_true]
      exact .ok rfl
    · simp only [CallModels.answer, hpolicy, if_false]
      exact .error trivial

/-! ## Registration under other names -/

def Setup.rename (R : Renaming) (s : Setup) : Setup := { s with unit := s.unit.rename R }

def Invoke.renameAt (R : Renaming) (f : FunctionId) (call : Invoke) : Invoke :=
  call.rename (R.register f) (R.label f)

def Request.rename (R : Renaming) : Request → Request
  | .enter function => .enter function
  | .value v affiliated => .value (R.value v) affiliated
  | .call i invoke => .call (R.place i) (invoke.renameAt R i.function)
  | .constant c => .constant c

namespace Setup

variable {R : Renaming} {s : Setup}

theorem calleeName?_rename (R : Renaming) (m : Module) (i : Place) (invoke : Invoke) :
    (CallSite.new (m.rename R) (R.place i) (invoke.renameAt R i.function)).calleeName? =
      (CallSite.new m i invoke).calleeName? := by
  have hconstants : (m.rename R).constants = m.constants := rfl
  have hfunction (f : FunctionId) :
      ((m.rename R).function? f).map Function.name = (m.function? f).map Function.name := by
    rw [Module.function?_rename, Option.map_map]
    rfl
  obtain ⟨callee, args, dest, ty⟩ := invoke
  cases callee with
  | imm c =>
    simp only [CallSite.new, CallSite.calleeName?, Invoke.renameAt, Invoke.rename, Operand.rename,
      hconstants]
    split
    next f hf => simpa [Function.comp_def] using hfunction f
    next => rfl
  | reg r => rfl
  | label l => rfl

theorem both_resolve_rename (hb : s.models.Bundled) (i : Place) (invoke : Invoke) :
    Both Eq (fun _ _ => True) (s.models.resolve (.new s.unit i invoke))
      (s.models.resolve (.new (s.unit.rename R) (R.place i) (invoke.renameAt R i.function))) := by
  apply hb.both_resolve (calleeName?_rename R s.unit i invoke)
  · exact Option.isSome_map
  · exact List.length_map _

theorem instrRequests_rename (f : FunctionId) (l : Label) (k : Nat) (i : Instr) :
    (s.rename R).instrRequests ⟨f, R.label f l, k⟩ (i.rename (R.register f) (R.label f)) =
      (s.instrRequests ⟨f, l, k⟩ i).map (Request.rename R) := by
  have hconstants : (i.rename (R.register f) (R.label f)).operands.filterMap Operand.constant? =
      i.operands.filterMap Operand.constant? := by
    simp [List.filterMap_map]
  have hmap (ids : List ConstId) :
      (constantRequests ids).map (Request.rename R) = constantRequests ids := by
    simp [constantRequests, Request.rename]
  rw [instrRequests, instrRequests, List.map_cons, hconstants, hmap]
  cases i <;> rfl

theorem blockRequests_rename (f : FunctionId) (b : Block) :
    (s.rename R).blockRequests f (b.rename (R.register f) (R.label f)) =
      (s.blockRequests f b).map (Request.rename R) := by
  have hconstants : (b.terminator.operands.map
      (Operand.rename (R.register f) (R.label f))).filterMap Operand.constant? =
        b.terminator.operands.filterMap Operand.constant? := by
    simp [List.filterMap_map]
  simp only [blockRequests, Block.rename, List.zipIdx_map, List.flatMap_map, Prod.map_fst,
    Prod.map_snd, id_eq, instrRequests_rename, Terminator.operands_rename,
    Terminator.caseValues_rename, hconstants, List.map_append, List.map_cons, List.map_flatMap,
    List.cons_append]
  simp [Request.rename, Renaming.value, constantRequests, Function.comp_def]

theorem functionRequests_rename (h : R.Faithful s.unit) {f : FunctionId} {function : Function}
    (hf : (f, function) ∈ s.unit.functionList) :
    (s.rename R).functionRequests f (function.rename (R.register f) (R.label f)) =
      (s.functionRequests f function).map (Request.rename R) := by
  have harguments :
      ((function.rename (R.register f) (R.label f)).params.zipIdx.map fun e =>
        Request.value (.argument f e.2) 0) =
      (function.params.zipIdx.map fun e => Request.value (.argument f e.2) 0).map
        (Request.rename R) := by
    simp [Function.rename, List.zipIdx_map, Function.comp_def, Request.rename, Renaming.value]
  simp only [functionRequests, Function.blocks_rename (h.order_keys hf), List.flatMap_map,
    blockRequests_rename, List.map_append, List.map_cons, List.map_flatMap, harguments]
  rfl

/-- A module under other names asks for the same ids. -/
theorem requests_rename (h : R.Faithful s.unit) :
    (s.rename R).requests = s.requests.map (Request.rename R) := by
  have hglobals : (s.rename R).unit.globalList = s.unit.globalList := rfl
  have hinitializers : (s.rename R).unit.globals = s.unit.globals := rfl
  have hconfig : (s.rename R).config = s.config := rfl
  have hbodies : ((s.rename R).unit.functionList.flatMap fun e =>
      (s.rename R).functionRequests e.1 e.2) =
        (s.unit.functionList.flatMap fun e => s.functionRequests e.1 e.2).map
          (Request.rename R) := by
    rw [rename, Module.functionList_rename, List.flatMap_map, List.map_flatMap]
    apply List.flatMap_congr
    intro e he
    exact functionRequests_rename h he
  have hfunctions : ((s.rename R).unit.functionList.map fun e =>
      Request.value (.function e.1) 0) =
        (s.unit.functionList.map fun e => Request.value (.function e.1) 0).map
          (Request.rename R) := by
    rw [rename, Module.functionList_rename, List.map_map, List.map_map]
    rfl
  simp only [requests, hglobals, hinitializers, hconfig, hbodies, hfunctions, List.map_append]
  simp [Request.rename, Renaming.value, constantRequests, Function.comp_def]

end Setup

namespace Registering

variable {R : Renaming} {r r' : Registering}

/-- The pass over the renamed module has come as far. -/
structure Renamed (R : Renaming) (r r' : Registering) : Prop where
  objects : r'.objects = r.objects.map R.value
  matched : r'.matched = r.matched.map fun e => (R.place e.1, e.2)

theorem Renamed.register (hR : ∀ f, Function.Injective (R.label f)) (h : r.Renamed R r')
    (v : Value) (k : Nat) : (r.register v k).Renamed R (r'.register (R.value v) k) where
  objects := by
    rw [objects_register, objects_register, h.objects,
      ObjectTable.register_map (Renaming.value_injective hR)]
  matched := h.matched

theorem Renamed.note (h : r.Renamed R r') (notices notices' : List Notice) :
    (r.note notices).Renamed R (r'.note notices') :=
  ⟨h.objects, h.matched⟩

theorem Renamed.setMatched (hR : ∀ f, Function.Injective (R.label f)) (h : r.Renamed R r')
    (i : Place) (position : Nat) :
    (r.setMatched i position).Renamed R (r'.setMatched (R.place i) position) where
  objects := h.objects
  matched := by
    have hplace (j : Place) : (R.place j != R.place i) = (j != i) := by
      rw [bne, bne, Bool.not_eq_eq_eq_not, Bool.not_not]
      exact (Renaming.place_injective hR).beq_eq
    simp [Registering.setMatched, h.matched, List.filter_map, Function.comp_def, hplace]

theorem Renamed.constant (hR : ∀ f, Function.Injective (R.label f)) (m : Module) (depth : Nat)
    (h : r.Renamed R r') (c : ConstId) :
    (r.constant m depth c).Renamed R (r'.constant (m.rename R) depth c) := by
  have hvalue (c : ConstId) : (m.rename R).constantValue c = R.value (m.constantValue c) :=
    (Renaming.value_constantValue m c).symm
  have hchildren (c : ConstId) :
      (m.rename R).constantChildren (id c) = (m.constantChildren c).map id := (List.map_id _).symm
  -- Constants have no names: both walks pass over the same ones and register the same values.
  refine constant_of_keeps (P := Renamed R) (π := id) (L := fun _ => True)
    (fun _ _ _ _ => trivial) (fun c _ => hchildren c) (fun r r' c h _ => ?_)
    (fun r r' c h _ => ?_) depth trivial h
  · rw [id, hvalue, h.objects, ObjectTable.contains_map (Renaming.value_injective hR)]
  · rw [id, hvalue]
    exact h.register hR _ 0

/-- One request, settled for the module and for the renamed one. -/
theorem Renamed.request {s : Setup} (hR : ∀ f, Function.Injective (R.label f))
    (hb : s.models.Bundled) (h : r.Renamed R r') (q : Request) :
    Paired (Renamed R) (r.request s q) (r'.request (s.rename R) (q.rename R)) := by
  cases q with
  | enter function => exact ⟨.ok trivial, h.note _ _⟩
  | value v k => exact ⟨.ok trivial, h.register hR v k⟩
  | constant c => exact ⟨.ok trivial, h.constant hR s.unit _ c⟩
  | call i invoke =>
    exact paired_call (fun _ _ _ _ h => h.note _ _) (fun _ _ _ h => h.setMatched hR i _)
      (fun _ _ k h => h.register hR (.instruction i) k) (Setup.both_resolve_rename hb i invoke) h

end Registering

/-- The second extractor describes the renamed module with the ids of the first. -/
structure Extractor.Renamed (R : Renaming) (x y : Extractor) : Prop where
  setup : y.setup = x.setup.rename R
  objects : y.objects = x.objects.map R.value
  matched : y.matched = x.matched.map fun e => (R.place e.1, e.2)
  memo : y.memo = x.memo

/-- A module can be registered under other names exactly if it can be under its own. -/
theorem Extractor.both_new {R : Renaming} {s : Setup} (h : R.Faithful s.unit)
    (hb : s.models.Bundled) :
    Both (Extractor.Renamed R) (fun _ _ => True) (Extractor.new s).1
      (Extractor.new (s.rename R)).1 := by
  have hverify : (s.rename R).unit.verify = .ok () ↔ s.unit.verify = .ok () := by
    rw [Module.verify_eq_ok_iff, Module.verify_eq_ok_iff]
    exact Module.checked_rename_iff h
  have hstart : Registering.Renamed R ⟨.new s.config.specialCount, [], #[]⟩
      ⟨.new s.config.specialCount, [], #[]⟩ := ⟨rfl, rfl⟩
  have hrequests : List.Forall₂ (fun q q' => q' = q.rename R) s.requests (s.rename R).requests := by
    rw [Setup.requests_rename h, List.forall₂_map_right_iff, List.forall₂_same]
    exact fun _ _ => rfl
  have hstep (r r' : Registering) (q q' : Request) (hr : r.Renamed R r') (hq : q' = q.rename R) :
      Registering.Paired (Registering.Renamed R) (r.request s q) (r'.request (s.rename R) q') :=
    hq ▸ hr.request h.label hb q
  have hconfig : (s.rename R).config.specialObjects = s.config.specialObjects := rfl
  refine (both_new_of_paired hconfig hverify
    (Registering.paired_settle hstep hrequests hstart)).mono ?_
  rintro x y ⟨r, r', hrenamed, rfl, rfl⟩
  exact ⟨rfl, hrenamed.objects, hrenamed.matched, rfl⟩

end PointsTo
