import Mathlib
import PointsTo.Proofs.RenamedObjects

/-!
# Descriptions under other names

The plan for a module under other names says the same, step by step, of corresponding
values; only types that enter ahead of the blocks of a function may come in another order.
Since corresponding values have the same ids, the facts are the same.
-/

namespace PointsTo

namespace Renaming

variable {R : Renaming} {x : ObjectTable Value}

/-- The second steps say of the values under other names what the first say. -/
def Same (R : Renaming) (x : ObjectTable Value) : List Step → List Step → Prop :=
  List.Forall₂ (Step.Agree id x (x.map R.value))

theorem Same.append {steps steps' rest rest' : List Step} (h : R.Same x steps steps')
    (hrest : R.Same x rest rest') : R.Same x (steps ++ rest) (steps' ++ rest') :=
  List.rel_append h hrest

theorem Same.rows {rows rows' : List Row}
    (h : List.Forall₂ (Row.Agree id x (x.map R.value)) rows rows') :
    R.Same x (rows.map .row) (rows'.map .row) :=
  List.rel_map (fun _ _ hr => .row hr) h

end Renaming

namespace Setup

open Renaming

variable {R : Renaming} {x : ObjectTable Value} {s : Setup}

/-! ## Constants -/

theorem visit_rename (R : Renaming) (m : Module) (depth : Nat) :
    (m.rename R).visit depth = m.visit depth := by
  induction depth with
  | zero => rfl
  | succ depth ih =>
    funext marks c
    rw [Module.visit, Module.visit, ih]
    rfl

theorem constantSteps_rename (R : Renaming) (s : Setup) (c : ConstId) :
    (s.rename R).constantSteps c = s.constantSteps c := by
  have hvisit : Tour.visit (s.unit.rename R) c = Tour.visit s.unit c := by
    unfold Tour.visit
    rw [visit_rename]
    rfl
  exact congrArg (fun visit => do let marks ← visit; return marks.flatMap s.markSteps) hvisit

theorem agree_constantValue (hR : Function.Injective R.value) (m : Module) (c : ConstId) :
    ObjectRef.Agree id x (x.map R.value) (.value (m.constantValue c))
      (.value (m.constantValue c)) := by
  have hvalue := ObjectRef.agree_value (x := x) hR (m.constantValue c)
  rwa [value_constantValue] at hvalue

theorem same_shapeRows (hR : Function.Injective R.value) (c : ConstId) (value : Const) :
    List.Forall₂ (Row.Agree id x (x.map R.value)) (s.shapeRows c value) (s.shapeRows c value) := by
  have hself : Cell.Agree id x (x.map R.value) (Value.constant c) (Value.constant c) :=
    .object (ObjectRef.agree_value hR (.constant c))
  rw [List.forall₂_same]
  intro r hr
  cases value with
  | aggregate ty elements =>
    obtain ⟨e, -, rfl⟩ := List.mem_map.1 hr
    exact ⟨rfl, .cons hself (.cons (.int _) (.cons (.object (agree_constantValue hR _ _)) .nil))⟩
  | elementAddr base indices ty =>
    rw [List.mem_singleton.1 hr]
    exact ⟨rfl, .cons hself (.cons (.object (agree_constantValue hR _ _)) .nil)⟩
  | null =>
    simp only [shapeRows] at hr
    split at hr
    · rw [List.mem_singleton.1 hr]
      exact ⟨rfl, .cons hself (.cons (.object (ObjectRef.agree_special _)) .nil)⟩
    · cases hr
  | _ => cases hr

theorem same_markSteps (hR : Function.Injective R.value) (mark : Mark) :
    R.Same x (s.markSteps mark) (s.markSteps mark) := by
  cases mark with
  | enter c =>
    refine .cons (.need (ObjectRef.agree_value hR (.constant c))) (.cons ?_ .nil)
    split
    · exact .remark _ _
    · exact .need (ObjectRef.agree_missing _ _)
  | leave c =>
    have hself : ObjectRef.Agree id x (x.map R.value) (.value (.constant c))
        (.value (.constant c)) :=
      ObjectRef.agree_value hR (.constant c)
    simp only [markSteps]
    split
    · refine .cons (.row ⟨rfl, .cons (.object hself) (.cons (.str _) .nil)⟩)
        (.cons (.typed _ hself) ?_)
      exact Same.append (Same.rows (same_shapeRows hR c _)) (.cons (.visited c c) .nil)
    · exact .nil

theorem agree_constantSteps (hR : Function.Injective R.value) (c : ConstId) :
    Tour.Agree (R.Same x) (s.constantSteps c) ((s.rename R).constantSteps c) := by
  rw [constantSteps_rename]
  refine fun marks => ⟨rfl, List.forall₂_same.2 ?_⟩
  intro st hst
  obtain ⟨mark, -, hst⟩ := List.mem_flatMap.1 hst
  exact List.forall₂_same.1 (same_markSteps hR mark) st hst

end Setup

/-! ## Operands -/

namespace Renaming

variable {R : Renaming} {x : ObjectTable Value} {m : Module} {f : FunctionId} {function : Function}

/-- The registers of a function under other names. -/
def scope (R : Renaming) (f : FunctionId) (function : Function) : Scope :=
  Scope.new f (function.rename (R.register f) (R.label f))

theorem definitionType?_rename (hρ : Function.Injective (R.label f)) (d : Definition) :
    Scope.definitionType? (function.rename (R.register f) (R.label f)) (d.rename (R.label f)) =
      Scope.definitionType? function d := by
  cases d with
  | param k => simp [Definition.rename, Scope.definitionType?, Function.rename, Function.comp_def]
  | instr l k =>
    simp only [Definition.rename, Scope.definitionType?, Function.get?_body_rename hρ]
    cases function.body.get? l with
    | none => rfl
    | some b => simp [Block.rename, Option.bind_map]

theorem value_ofDefinition (f : FunctionId) (d : Definition) :
    R.value (.ofDefinition f d) = .ofDefinition f (d.rename (R.label f)) := by
  cases d <;> rfl

/-- A register is defined by the value that corresponds, with the same type. -/
theorem lookup_scope (h : R.Faithful m) (hf : (f, function) ∈ m.functionList) (r : Register) :
    (R.scope f function).names.lookup (R.register f r) =
      ((Scope.new f function).names.lookup r).map fun e => (R.value e.1, e.2) := by
  rw [scope, Scope.lookup_new, Scope.lookup_new,
    Function.definitions_get?_rename (h.register f) (h.order_keys hf), Option.map_map,
    Option.map_map]
  congr 1
  funext d
  simp only [Function.comp_def, definitionType?_rename (h.label f), value_ofDefinition]

theorem agree_object (h : R.Faithful m) (hf : (f, function) ∈ m.functionList) (o : Operand) :
    ObjectRef.Agree id x (x.map R.value) ((Scope.new f function).object m o)
      ((R.scope f function).object (m.rename R) (o.rename (R.register f) (R.label f))) := by
  have hR := value_injective h.label
  cases o with
  | reg r =>
    rw [Operand.rename, Scope.object, Scope.object, lookup_scope h hf]
    cases (Scope.new f function).names.lookup r with
    | none => exact ObjectRef.agree_missing _ _
    | some e => exact ObjectRef.agree_value hR e.1
  | imm c => exact Setup.agree_constantValue hR m c
  | label l => exact ObjectRef.agree_value hR (.block f l)

theorem typeOf?_rename (h : R.Faithful m) (hf : (f, function) ∈ m.functionList) (o : Operand) :
    (R.scope f function).typeOf? (m.rename R) (o.rename (R.register f) (R.label f)) =
      (Scope.new f function).typeOf? m o := by
  cases o with
  | reg r =>
    rw [Operand.rename, Scope.typeOf?, Scope.typeOf?, lookup_scope h hf]
    cases (Scope.new f function).names.lookup r <;> rfl
  | imm c => rfl
  | label l => rfl

theorem same_ifPointer (h : R.Faithful m) (hf : (f, function) ∈ m.functionList) (o : Operand)
    {rows rows' : List Row} (hrows : List.Forall₂ (Row.Agree id x (x.map R.value)) rows rows') :
    R.Same x ((Scope.new f function).ifPointer m o rows)
      ((R.scope f function).ifPointer (m.rename R) (o.rename (R.register f) (R.label f))
        rows') := by
  rw [Scope.ifPointer, Scope.ifPointer, typeOf?_rename h hf]
  split
  · exact .cons (.ifPointer _ hrows) .nil
  · exact .nil

end Renaming

namespace Setup

open Renaming

variable {R : Renaming} {x : ObjectTable Value} {s : Setup} {f : FunctionId} {function : Function}

theorem agree_operandSteps (h : R.Faithful s.unit) (hf : (f, function) ∈ s.unit.functionList)
    (user : Value) (operands : List Operand) :
    Tour.Agree (R.Same x) (s.operandSteps (Scope.new f function) user operands)
      ((s.rename R).operandSteps (R.scope f function) (R.value user)
        (operands.map (Operand.rename (R.register f) (R.label f)))) := by
  have hR := value_injective h.label
  rw [operandSteps, operandSteps, List.zipIdx_map]
  refine Tour.Agree.collect .nil (fun _ _ _ _ => Same.append) ?_
  rw [List.forall₂_map_right_iff, List.forall₂_same]
  rintro ⟨o, k⟩ -
  have hrow : R.Same x [.row ⟨.operand, [user, k, (Scope.new f function).object s.unit o]⟩]
      [.row ⟨.operand, [R.value user, k, (R.scope f function).object (s.unit.rename R)
        (o.rename (R.register f) (R.label f))]⟩] :=
    .cons (.row ⟨rfl, .cons (.object (ObjectRef.agree_value hR user))
      (.cons (.int k) (.cons (.object (agree_object h hf o)) .nil))⟩) .nil
  cases o with
  | imm c => exact (agree_constantSteps hR c).map fun _ _ hl => hl.append hrow
  | reg r => exact Tour.agree_pure hrow
  | label l => exact Tour.agree_pure hrow

theorem agree_caseSteps (hR : Function.Injective R.value) (user : Value) (start : Nat)
    (cases : List ConstId) :
    Tour.Agree (R.Same x) (s.caseSteps user start cases)
      ((s.rename R).caseSteps (R.value user) start cases) := by
  refine Tour.Agree.collect .nil (fun _ _ _ _ => Same.append) ?_
  rw [List.forall₂_same]
  rintro ⟨c, k⟩ -
  refine (agree_constantSteps hR c).map fun _ _ hl => hl.append ?_
  exact .cons (.row ⟨rfl, .cons (.object (ObjectRef.agree_value hR user)) (.cons (.int (start + k))
    (.cons (.object (agree_constantValue hR s.unit c)) .nil))⟩) .nil

/-! ## Instructions -/

theorem same_unknownSourceSteps (hR : Function.Injective R.value) (v : Value)
    (origin : String) :
    R.Same x (s.unknownSourceSteps v origin)
      ((s.rename R).unknownSourceSteps (R.value v) origin) := by
  have hconfig : (s.rename R).config = s.config := rfl
  simp only [unknownSourceSteps, hconfig]
  split
  · exact .cons (.remark _ _) (.cons (.row ⟨rfl, .cons (.object (ObjectRef.agree_value hR v))
      (.cons (.object (ObjectRef.agree_special _)) .nil)⟩) .nil)
  · exact .cons (.remark _ _) .nil

theorem same_generalCallSteps (h : R.Faithful s.unit) (hf : (f, function) ∈ s.unit.functionList)
    (self : Value) (invoke : Invoke) :
    R.Same x (s.generalCallSteps (Scope.new f function) self invoke)
      ((s.rename R).generalCallSteps (R.scope f function) (R.value self)
        (invoke.renameAt R f)) := by
  have hR := value_injective h.label
  have hself : Cell.Agree id x (x.map R.value) self (R.value self) :=
    .object (ObjectRef.agree_value hR self)
  refine .cons (.row ⟨rfl, .cons hself (.cons (.object (agree_object h hf _)) .nil)⟩) ?_
  refine Same.append ?_ ?_
  · simp only [Invoke.renameAt, Invoke.rename, List.zipIdx_map, List.flatMap_map]
    refine List.rel_flatMap (R := Eq) (List.forall₂_same.2 fun _ _ => rfl) ?_
    rintro ⟨o, k⟩ _ rfl
    exact same_ifPointer h hf o (.cons ⟨rfl, .cons hself (.cons (.int k)
      (.cons (.object (agree_object h hf o)) .nil))⟩ .nil)
  · simp only [Invoke.renameAt, Invoke.rename]
    split
    · exact .cons (.ifPointer _ (.cons ⟨rfl, .cons hself .nil⟩ .nil)) .nil
    · exact .nil

/-- What the bundled models say of a call under other names. -/
theorem same_describe (h : R.Faithful s.unit) (hb : s.models.Bundled)
    (hf : (f, function) ∈ s.unit.functionList) {model : CallModel}
    (hmodel : model ∈ s.models.models) (place : Place) (invoke : Invoke) :
    R.Same x
      (model.describe (.new s.unit place invoke) ⟨.instruction place,
        (Scope.new f function).object s.unit invoke.function,
        invoke.args.map ((Scope.new f function).object s.unit)⟩)
      (model.describe (.new (s.unit.rename R) (R.place place) (invoke.renameAt R f))
        ⟨.instruction (R.place place),
          (R.scope f function).object (s.unit.rename R) (invoke.renameAt R f).function,
          (invoke.renameAt R f).args.map ((R.scope f function).object (s.unit.rename R))⟩) := by
  have hR := value_injective h.label
  have hself : Cell.Agree id x (x.map R.value) (Value.instruction place)
      (Value.instruction (R.place place)) :=
    .object (ObjectRef.agree_value hR (.instruction place))
  rcases hb model hmodel with ⟨symbols, rfl⟩ | rfl
  · have hobject : Cell.Agree id x (x.map R.value) (ObjectRef.affiliated (.instruction place) 1)
        (ObjectRef.affiliated (.instruction (R.place place)) 1) :=
      .object (ObjectRef.agree_affiliated hR (.instruction place) 1)
    exact .cons (.row ⟨rfl, .cons hself (.cons hobject .nil)⟩)
      (.cons (.row ⟨rfl, .cons hobject (.cons (.str _) .nil)⟩)
        (.cons (.row ⟨rfl, .cons hself (.cons hobject .nil)⟩) .nil))
  · obtain ⟨callee, args, dest, ty⟩ := invoke
    match args with
    | [] => exact .nil
    | [_] => exact .nil
    | destination :: source :: _ =>
      have hdestination := Cell.Agree.object (agree_object (x := x) h hf destination)
      have hsource := Cell.Agree.object (agree_object (x := x) h hf source)
      have hcells := List.Forall₂.cons hself (.cons hdestination (.cons hsource .nil))
      cases dest with
      | none => exact .cons (.row ⟨rfl, hcells⟩) .nil
      | some r =>
        exact .cons (.row ⟨rfl, hcells⟩)
          (.cons (.row ⟨rfl, .cons hself (.cons hdestination .nil)⟩) .nil)

theorem same_callSteps (h : R.Faithful s.unit) (hb : s.models.Bundled)
    (hf : (f, function) ∈ s.unit.functionList) (matched : MatchedCalls) (place : Place)
    (invoke : Invoke) :
    R.Same x (s.callSteps matched (Scope.new f function) place invoke)
      ((s.rename R).callSteps (matched.map fun e => (R.place e.1, e.2)) (R.scope f function)
        (R.place place) (invoke.renameAt R f)) := by
  have hmodels : (s.rename R).models = s.models := rfl
  simp only [callSteps, hmodels, lookup_map_key (place_injective h.label)]
  split
  next model hmodel =>
    obtain ⟨position, -, hposition⟩ := Option.bind_eq_some_iff.1 hmodel
    have hdescribe := same_describe (x := x) h hb hf (List.mem_of_getElem? hposition) place invoke
    exact .cons (.remark _ _) hdescribe
  next => exact same_generalCallSteps h hf (.instruction place) invoke

theorem same_effectSteps (h : R.Faithful s.unit) (hb : s.models.Bundled)
    (hf : (f, function) ∈ s.unit.functionList) (matched : MatchedCalls) (place : Place)
    (i : Instr) :
    R.Same x (s.effectSteps matched (Scope.new f function) place i)
      ((s.rename R).effectSteps (matched.map fun e => (R.place e.1, e.2)) (R.scope f function)
        (R.place place) (i.rename (R.register f) (R.label f))) := by
  have hR := value_injective h.label
  have hself : Cell.Agree id x (x.map R.value) (Value.instruction place)
      (Value.instruction (R.place place)) :=
    .object (ObjectRef.agree_value hR (.instruction place))
  have hstorage : Cell.Agree id x (x.map R.value) (ObjectRef.storage (.instruction place))
      (ObjectRef.storage (.instruction (R.place place))) :=
    .object (ObjectRef.agree_storage hR (.instruction place))
  have hobject (o : Operand) := Cell.Agree.object (agree_object (x := x) h hf o)
  cases i with
  | alloca dest ty count alignment =>
    exact .cons (.row ⟨rfl, .cons hstorage (.cons (.str _) .nil)⟩)
      (.cons (.row ⟨rfl, .cons hstorage (.cons (.typeText ty) .nil)⟩)
        (.cons (.row ⟨rfl, .cons hself (.cons hstorage .nil)⟩) .nil))
  | load dest ty addr access =>
    exact .cons (.ifPointer _ (.cons ⟨rfl, .cons hself (.cons (hobject addr) .nil)⟩ .nil)) .nil
  | store addr value access =>
    exact same_ifPointer h hf value
      (.cons ⟨rfl, .cons hself (.cons (hobject addr) (.cons (hobject value) .nil))⟩ .nil)
  | elementPtr dest ty base indices =>
    exact .cons (.row ⟨rfl, .cons hself (.cons (hobject base) .nil)⟩) .nil
  | phi dest ty incoming =>
    refine .cons (.ifPointer _ ?_) .nil
    rw [List.map_map, List.forall₂_map_left_iff, List.forall₂_map_right_iff, List.forall₂_same]
    rintro ⟨l, o⟩ -
    exact ⟨rfl, .cons hself (.cons (.object (ObjectRef.agree_value hR (.block f l)))
      (.cons (hobject o) .nil))⟩
  | select dest condition ifTrue ifFalse ty =>
    exact .cons (.ifPointer _ (.cons ⟨rfl, .cons hself (.cons (hobject ifTrue) .nil)⟩
      (.cons ⟨rfl, .cons hself (.cons (hobject ifFalse) .nil)⟩ .nil))) .nil
  | cast dest op ty value =>
    cases op with
    | bitcast =>
      exact .cons (.ifPointer _ (.cons ⟨rfl, .cons hself (.cons (hobject value) .nil)⟩ .nil)) .nil
    | intToPtr => exact same_unknownSourceSteps hR (.instruction place) "inttoptr"
    | _ => exact .nil
  | invoke call => exact same_callSteps h hb hf matched place call
  | _ => exact .nil

theorem agree_instrSteps (h : R.Faithful s.unit) (hb : s.models.Bundled)
    (hf : (f, function) ∈ s.unit.functionList) (matched : MatchedCalls) (l : Label) (k : Nat)
    (i : Instr) :
    Tour.Agree (R.Same x)
      (s.instrSteps matched (Scope.new f function) ⟨f, l, k⟩ (.block f l) i)
      ((s.rename R).instrSteps (matched.map fun e => (R.place e.1, e.2)) (R.scope f function)
        ⟨f, R.label f l, k⟩ (.block f (R.label f l)) (i.rename (R.register f) (R.label f))) := by
  have hR := value_injective h.label
  have hself := ObjectRef.agree_value (x := x) hR (.instruction ⟨f, l, k⟩)
  have hoperands := agree_operandSteps (x := x) h hf (.instruction ⟨f, l, k⟩) i.operands
  rw [instrSteps, instrSteps, Instr.operands_rename, Instr.resultType?_rename,
    Instr.opcode_rename]
  refine hoperands.map fun _ _ hl => ?_
  refine Same.append (Same.append ?_ hl) (same_effectSteps h hb hf matched ⟨f, l, k⟩ i)
  refine .cons (.row ⟨rfl, .cons (.object hself) (.cons (.str _)
    (.cons (.object (ObjectRef.agree_value hR (.block f l))) .nil))⟩) ?_
  rw [List.forall₂_map_left_iff, List.forall₂_map_right_iff, List.forall₂_same]
  exact fun ty _ => .typed ty hself

/-! ## Blocks -/

theorem ordered_map {ρ : Label → Label} {labels : List Label}
    (h : ∀ a ∈ labels, ∀ b ∈ labels, compare (ρ a) (ρ b) = compare a b) :
    Label.ordered (labels.map ρ) = (Label.ordered labels).map ρ := by
  have hentries := Table.entries_ofList_map (ρ := ρ) (fun u : Unit => u)
    (l := labels.map fun l => (l, ())) (by simpa using h)
  simp only [List.map_map] at hentries
  simp only [Label.ordered, Table.keys, List.map_map, Function.comp_def] at hentries ⊢
  rw [hentries, List.map_map]
  rfl

theorem same_successorRows (h : R.Faithful s.unit) (hf : (f, function) ∈ s.unit.functionList)
    {b : Block} (hb : b ∈ function.blocks) :
    R.Same x ((successorRows f (.block f b.label) b.terminator).map .row)
      ((successorRows f (.block f (R.label f b.label))
        (b.terminator.rename (R.register f) (R.label f))).map .row) := by
  have hR := value_injective h.label
  have hmem : ∀ l ∈ b.terminator.successors, l ∈ function.labels := by
    intro l hl
    refine List.mem_append_right _ (List.mem_flatMap.2 ⟨b, hb, ?_⟩)
    exact List.mem_append_left _ (List.mem_cons_of_mem _ (List.mem_append_right _ hl))
  have hordered := ordered_map fun a ha b hb => h.order _ hf a (hmem a ha) b (hmem b hb)
  apply Same.rows
  rw [successorRows, successorRows, Terminator.successors_rename, hordered, List.map_map,
    List.forall₂_map_left_iff, List.forall₂_map_right_iff, List.forall₂_same]
  intro l _
  exact ⟨rfl, .cons (.object (ObjectRef.agree_value hR (.block f b.label)))
    (.cons (.object (ObjectRef.agree_value hR (.block f l))) .nil)⟩

theorem same_returnSteps (h : R.Faithful s.unit) (hf : (f, function) ∈ s.unit.functionList)
    (t : Terminator) :
    R.Same x (s.returnSteps (Scope.new f function) t)
      ((s.rename R).returnSteps (R.scope f function)
        (t.rename (R.register f) (R.label f))) := by
  have hR := value_injective h.label
  cases t with
  | ret value =>
    cases value with
    | none => exact .nil
    | some o =>
      exact same_ifPointer h hf o
        (.cons ⟨rfl, .cons (.object (ObjectRef.agree_value hR (.function f)))
          (.cons (.object (agree_object h hf o)) .nil)⟩ .nil)
  | _ => exact .nil

theorem agree_terminatorSteps (h : R.Faithful s.unit) (hf : (f, function) ∈ s.unit.functionList)
    {b : Block} (hb : b ∈ function.blocks) :
    Tour.Agree (R.Same x) (s.terminatorSteps (Scope.new f function) b.label b.terminator)
      ((s.rename R).terminatorSteps (R.scope f function) (R.label f b.label)
        (b.terminator.rename (R.register f) (R.label f))) := by
  have hR := value_injective h.label
  have hself := ObjectRef.agree_value (x := x) hR (.terminator f b.label)
  have hoperands := agree_operandSteps (x := x) h hf (.terminator f b.label) b.terminator.operands
  have hcases := agree_caseSteps (x := x) (s := s) hR (.terminator f b.label)
    b.terminator.operands.length b.terminator.caseValues
  rw [terminatorSteps, terminatorSteps, Terminator.operands_rename, Terminator.caseValues_rename,
    Terminator.opcode_rename, List.length_map]
  refine hoperands.map₂ (fun _ _ _ _ hl hcases => ?_) hcases
  refine Same.append (Same.append (Same.append (.cons (.row ?_) hl) ?_) ?_) hcases
  · exact ⟨rfl, .cons (.object hself) (.cons (.str _)
      (.cons (.object (ObjectRef.agree_value hR (.block f b.label))) .nil))⟩
  · exact same_successorRows h hf hb
  · exact same_returnSteps h hf b.terminator

theorem agree_blockSteps (h : R.Faithful s.unit) (hb : s.models.Bundled)
    (hf : (f, function) ∈ s.unit.functionList) (matched : MatchedCalls) {b : Block}
    (hblock : b ∈ function.blocks) :
    Tour.Agree (R.Same x) (s.blockSteps matched (Scope.new f function) b)
      ((s.rename R).blockSteps (matched.map fun e => (R.place e.1, e.2)) (R.scope f function)
        (b.rename (R.register f) (R.label f))) := by
  have hR := value_injective h.label
  have hinstrs : Tour.Agree (R.Same x)
      (Tour.collect b.instrs.zipIdx fun e =>
        s.instrSteps matched (Scope.new f function) ⟨f, b.label, e.2⟩ (.block f b.label) e.1)
      (Tour.collect (b.rename (R.register f) (R.label f)).instrs.zipIdx fun e =>
        (s.rename R).instrSteps (matched.map fun e => (R.place e.1, e.2)) (R.scope f function)
          ⟨f, R.label f b.label, e.2⟩ (.block f (R.label f b.label)) e.1) := by
    refine Tour.Agree.collect .nil (fun _ _ _ _ => Same.append) ?_
    rw [Block.rename, List.zipIdx_map, List.forall₂_map_right_iff, List.forall₂_same]
    exact fun e _ => agree_instrSteps h hb hf matched b.label e.2 e.1
  have hterminator := agree_terminatorSteps (x := x) h hf hblock
  refine hinstrs.map₂ (fun _ _ _ _ hl ht => ?_) hterminator
  refine Same.append (.cons (.row ⟨rfl, ?_⟩) hl) ht
  exact .cons (.object (ObjectRef.agree_value hR (.block f b.label)))
    (.cons (.object (ObjectRef.agree_value hR (.function f))) .nil)

/-! ## Functions -/

theorem same_argumentSteps (h : R.Faithful s.unit) (hf : (f, function) ∈ s.unit.functionList)
    (k : Nat) (ty : TypeId) :
    R.Same x (s.argumentSteps f function k ty)
      ((s.rename R).argumentSteps f (function.rename (R.register f) (R.label f)) k ty) := by
  have hR := value_injective h.label
  have hself := ObjectRef.agree_value (x := x) hR (.argument f k)
  have hadmits : (s.rename R).config.freeArguments.admits
      (function.rename (R.register f) (R.label f)) = s.config.freeArguments.admits function := by
    simp only [FreeArguments.admits, Function.isDeclaration_rename (h.order_keys hf)]
    rfl
  rw [argumentSteps, argumentSteps, FreeArguments.isFree, FreeArguments.isFree, hadmits]
  refine .cons (.row ⟨rfl, ?_⟩) (.cons (.typed _ hself) ?_)
  · exact .cons (.object (ObjectRef.agree_value hR (.function f)))
      (.cons (.int k) (.cons (.object hself) .nil))
  · split
    · exact .cons (.ifPointer _ (.cons ⟨rfl, .cons (.object hself) .nil⟩ .nil)) .nil
    · exact .nil

/-- The types of the registers of a function. -/
def typesOf (scope : Scope) : List StaticType := scope.names.filterMap (·.2.2)

theorem mem_typesOf_new {ty : StaticType} :
    ty ∈ typesOf (Scope.new f function) ↔
      ∃ r d, function.definitions.get? r = some d ∧
        Scope.definitionType? function d = some ty := by
  simp [typesOf, Scope.new, Table.get?_eq_some_iff]

theorem mem_typesOf_rename (h : R.Faithful s.unit) (hf : (f, function) ∈ s.unit.functionList)
    {ty : StaticType} :
    ty ∈ typesOf (Scope.new f function) ↔ ty ∈ typesOf (R.scope f function) := by
  have hget := Function.definitions_get?_rename (h.register f) (h.order_keys hf)
  rw [mem_typesOf_new, scope, mem_typesOf_new]
  constructor
  · rintro ⟨r, d, hd, hty⟩
    refine ⟨R.register f r, d.rename (R.label f), ?_, ?_⟩
    · rw [hget, hd]
      rfl
    · rw [definitionType?_rename (h.label f), hty]
  · rintro ⟨r', d', hd, hty⟩
    -- Every name in the renamed function is the new name of a register.
    have hmem : (r', d') ∈ (function.rename (R.register f) (R.label f)).definitionList :=
      Table.mem_of_get?_ofList hd
    rw [Function.definitionList_rename (h.order_keys hf)] at hmem
    obtain ⟨e, -, heq⟩ := List.mem_map.1 hmem
    obtain ⟨rfl, -⟩ := Prod.mk.inj heq
    rw [hget] at hd
    obtain ⟨d, hold, rfl⟩ := Option.map_eq_some_iff.1 hd
    rw [definitionType?_rename (h.label f)] at hty
    exact ⟨e.1, d, hold, hty⟩

/-- Types enter ahead of the blocks in the order of the registers, which may be another. -/
theorem agree_bodySteps {store : FactStore} (h : R.Faithful s.unit) (hb : s.models.Bundled)
    (hf : (f, function) ∈ s.unit.functionList) (matched : MatchedCalls) :
    Tour.Agree (Emit.StepsAgree id x (x.map R.value) store Emit.HasPointer Emit.HasPointer)
      (s.bodySteps matched f function)
      ((s.rename R).bodySteps (matched.map fun e => (R.place e.1, e.2)) f
        (function.rename (R.register f) (R.label f))) := by
  have hR := value_injective h.label
  have hblocks : Tour.Agree (R.Same x)
      (Tour.collect function.blocks (s.blockSteps matched (Scope.new f function)))
      (Tour.collect (function.rename (R.register f) (R.label f)).blocks
        ((s.rename R).blockSteps (matched.map fun e => (R.place e.1, e.2))
          (R.scope f function))) := by
    refine Tour.Agree.collect .nil (fun _ _ _ _ => Same.append) ?_
    rw [Function.blocks_rename (h.order_keys hf), List.forall₂_map_right_iff, List.forall₂_same]
    exact fun b hblock => agree_blockSteps h hb hf matched hblock
  -- The entry is found by its label and not by its place, so its name has to stay.
  have hentry : R.value (.block f .entry) = .block f .entry :=
    congrArg (Value.block f) (h.entry _ hf)
  have hinterns (scope : Scope) :
      (scope.names.filterMap fun e => e.2.2.map Step.intern) = (typesOf scope).map .intern := by
    rw [typesOf, List.map_filterMap]
  have hhead : R.Same x
      [.remark (.emitting function.name function.body.size),
        .row ⟨.functionEntry, [Value.function f, Value.block f .entry]⟩]
      [.remark (.emitting function.name
          (function.rename (R.register f) (R.label f)).body.size),
        .row ⟨.functionEntry, [Value.function f, Value.block f .entry]⟩] := by
    refine .cons (.remark _ _) (.cons (.row ⟨rfl, ?_⟩) .nil)
    refine .cons (.object (ObjectRef.agree_value hR (.function f))) (.cons (.object ?_) .nil)
    have hagree := ObjectRef.agree_value (x := x) hR (.block f .entry)
    rwa [hentry] at hagree
  refine hblocks.map fun _ _ hl => ?_
  rw [hinterns, hinterns]
  have hfirst := Emit.stepsAgree_of_forall₂ store Emit.hasPointer_resolve hhead
  have hlast := Emit.stepsAgree_of_forall₂ store Emit.hasPointer_resolve hl
  exact (hfirst.append (Emit.stepsAgree_interns (mem_typesOf_rename h hf))).append hlast

theorem same_arguments (h : R.Faithful s.unit) (hf : (f, function) ∈ s.unit.functionList) :
    R.Same x (function.params.zipIdx.flatMap fun e => s.argumentSteps f function e.2 e.1.2)
      ((function.rename (R.register f) (R.label f)).params.zipIdx.flatMap fun e =>
        (s.rename R).argumentSteps f (function.rename (R.register f) (R.label f)) e.2 e.1.2) := by
  have hparams : (function.rename (R.register f) (R.label f)).params =
      function.params.map fun p => (R.register f p.1, p.2) := rfl
  rw [hparams, List.zipIdx_map, List.flatMap_map]
  refine List.rel_flatMap (R := Eq) (List.forall₂_same.2 fun _ _ => rfl) ?_
  rintro e _ rfl
  exact same_argumentSteps h hf e.2 e.1.2

/-- What is said of a function before its type. -/
def functionStart (f : FunctionId) (name : String) : List Step :=
  [.row ⟨.function, [Value.function f, name]⟩,
    .row ⟨.memoryObject, [Value.function f, "function"]⟩,
    .row ⟨.addressOf, [Value.function f, Value.function f]⟩]

theorem same_functionStart (hR : Function.Injective R.value) (f : FunctionId)
    (name : String) : R.Same x (functionStart f name) (functionStart f name) := by
  have hself := ObjectRef.agree_value (x := x) hR (.function f)
  exact .cons (.row ⟨rfl, .cons (.object hself) (.cons (.str _) .nil)⟩)
    (.cons (.row ⟨rfl, .cons (.object hself) (.cons (.str _) .nil)⟩)
      (.cons (.row ⟨rfl, .cons (.object hself) (.cons (.object hself) .nil)⟩) .nil))

/-- The type of the function enters the table of types before those of its registers. -/
theorem agree_functionSteps {store : FactStore} (h : R.Faithful s.unit) (hb : s.models.Bundled)
    (hf : (f, function) ∈ s.unit.functionList) (matched : MatchedCalls) :
    Tour.Agree
      (Emit.StepsAgree id x (x.map R.value) store (fun _ => True) fun _ => True)
      (s.functionSteps matched f function)
      ((s.rename R).functionSteps (matched.map fun e => (R.place e.1, e.2)) f
        (function.rename (R.register f) (R.label f))) := by
  have hR := value_injective h.label
  have hself := ObjectRef.agree_value (x := x) hR (.function f)
  have hhead := Emit.stepsAgree_of_forall₂ store (K := fun _ => True) (fun _ _ _ => trivial)
    (same_functionStart (x := x) hR f function.name)
  have harguments := Emit.stepsAgree_of_forall₂ store Emit.hasPointer_resolve
    (same_arguments (x := x) h hf)
  have hstart := (hhead.append (Emit.stepsAgree_typed_pointer hself)).append harguments
  simp only [functionSteps, Function.isDeclaration_rename (h.order_keys hf)]
  split
  · have hdeclaration : R.Same x [.row ⟨.functionDecl, [Value.function f]⟩]
        [.row ⟨.functionDecl, [Value.function f]⟩] :=
      .cons (.row ⟨rfl, .cons (.object hself) .nil⟩) .nil
    have hlast := Emit.stepsAgree_of_forall₂ store Emit.hasPointer_resolve hdeclaration
    exact Tour.agree_pure (hstart.append hlast).weaken
  · exact (agree_bodySteps h hb hf matched).map fun _ _ hl => (hstart.append hl).weaken

/-! ## Modules -/

/-- What is said of a global before its initializer. -/
def globalHead (g : GlobalId) (global : Global) : List Step :=
  [.row ⟨.global, [Value.global g, global.name]⟩,
    .typed (.global g) .pointer,
    .row ⟨.memoryObject, [ObjectRef.storage (.global g), "global"]⟩,
    .row ⟨.objectType, [ObjectRef.storage (.global g), .typeText global.ty]⟩,
    .row ⟨.addressOf, [Value.global g, ObjectRef.storage (.global g)]⟩]

theorem same_globalHead (hR : Function.Injective R.value) (g : GlobalId)
    (global : Global) : R.Same x (globalHead g global) (globalHead g global) := by
  have hself := ObjectRef.agree_value (x := x) hR (.global g)
  have hstorage := ObjectRef.agree_storage (x := x) hR (.global g)
  exact .cons (.row ⟨rfl, .cons (.object hself) (.cons (.str _) .nil)⟩)
    (.cons (.typed _ hself)
      (.cons (.row ⟨rfl, .cons (.object hstorage) (.cons (.str _) .nil)⟩)
        (.cons (.row ⟨rfl, .cons (.object hstorage) (.cons (.typeText _) .nil)⟩)
          (.cons (.row ⟨rfl, .cons (.object hself) (.cons (.object hstorage) .nil)⟩) .nil))))

theorem agree_globalSteps (hR : Function.Injective R.value) (g : GlobalId)
    (global : Global) :
    Tour.Agree (R.Same x) (s.globalSteps g global) ((s.rename R).globalSteps g global) := by
  have hhead := same_globalHead (x := x) hR g global
  simp only [globalSteps]
  cases global.initializer with
  | none => exact Tour.agree_pure (hhead.append .nil)
  | some c =>
    have hrow : R.Same x
        [.row ⟨.globalInit, [ObjectRef.storage (.global g), s.unit.constantValue c]⟩]
        [.row ⟨.globalInit, [ObjectRef.storage (.global g), s.unit.constantValue c]⟩] :=
      .cons (.row ⟨rfl, .cons (.object (ObjectRef.agree_storage hR (.global g)))
        (.cons (.object (agree_constantValue hR s.unit c)) .nil)⟩) .nil
    exact (agree_constantSteps hR c).map fun _ _ hl => hhead.append (hl.append hrow)

/-- The plans of a module and of the renamed one say the same. -/
theorem stepsAgree_plan (store : FactStore) (h : R.Faithful s.unit) (hb : s.models.Bundled)
    (matched : MatchedCalls) :
    Emit.StepsAgree id x (x.map R.value) store (fun _ => True) (fun _ => True)
      (s.plan matched) ((s.rename R).plan (matched.map fun e => (R.place e.1, e.2))) := by
  have hR := value_injective h.label
  have hglobals : Tour.Agree (R.Same x)
      (Tour.collect s.unit.globalList fun e => s.globalSteps e.1 e.2)
      (Tour.collect (s.rename R).unit.globalList fun e => (s.rename R).globalSteps e.1 e.2) := by
    refine Tour.Agree.collect .nil (fun _ _ _ _ => Same.append) ?_
    exact List.forall₂_same.2 fun e _ => agree_globalSteps hR e.1 e.2
  have hfunctions : Tour.Agree
      (Emit.StepsAgree id x (x.map R.value) store (fun _ => True) fun _ => True)
      (Tour.collect s.unit.functionList fun e => s.functionSteps matched e.1 e.2)
      (Tour.collect (s.rename R).unit.functionList fun e =>
        (s.rename R).functionSteps (matched.map fun e => (R.place e.1, e.2)) e.1 e.2) := by
    refine Tour.Agree.collect (fun _ _ he => ⟨trivial, he⟩) (fun _ _ _ _ => .append) ?_
    rw [rename, Module.functionList_rename, List.forall₂_map_right_iff, List.forall₂_same]
    exact fun e he => agree_functionSteps h hb he matched
  have hspecial : R.Same x
      (s.config.specialObjects.zipIdx.map fun e =>
        Step.row ⟨.specialObject, [ObjectRef.special e.2, e.1]⟩)
      (s.config.specialObjects.zipIdx.map fun e =>
        Step.row ⟨.specialObject, [ObjectRef.special e.2, e.1]⟩) := by
    refine List.rel_map (R := Eq) ?_ (List.forall₂_same.2 fun _ _ => rfl)
    rintro e _ rfl
    exact .row ⟨rfl, .cons (.object (ObjectRef.agree_special _)) (.cons (.str _) .nil)⟩
  have hname : R.Same x [.row ⟨.moduleName, [s.unit.name]⟩] [.row ⟨.moduleName, [s.unit.name]⟩] :=
    .cons (.row ⟨rfl, .cons (.str _) .nil⟩) .nil
  have hplan : Tour.Agree
      (Emit.StepsAgree id x (x.map R.value) store (fun _ => True) fun _ => True)
      (s.planTour matched)
      ((s.rename R).planTour (matched.map fun e => (R.place e.1, e.2))) := by
    refine hglobals.map₂ (fun _ _ _ _ hl hk => ?_) hfunctions
    have hsteps := Emit.stepsAgree_of_forall₂ store (K := fun _ => True)
      (fun _ _ _ => trivial) (hspecial.append (hname.append hl))
    exact hsteps.append hk
  exact (hplan []).2

end Setup

namespace Extractor

/-- Extractors of a module under two names append the same facts, and succeed in the same
cases. -/
theorem Renamed.generate {R : Renaming} {x y : Extractor} (hxy : x.Renamed R y)
    (h : R.Faithful x.setup.unit) (hb : x.setup.models.Bundled) (types : TypeTable)
    (store : FactStore) :
    (y.generate types store).store = (x.generate types store).store ∧
      ((y.generate types store).outcome = .ok () ↔ (x.generate types store).outcome = .ok ()) := by
  have hsteps := Setup.stepsAgree_plan (x := x.objects) store h hb x.matched
  rw [← hxy.setup, ← hxy.objects, ← hxy.matched] at hsteps
  exact generate_of_stepsAgree hxy.memo hsteps types

end Extractor

end PointsTo
