import Mathlib
import PointsTo.Proofs.Agreement
import PointsTo.Proofs.Facts
import PointsTo.Proofs.PairedRegistration
import PointsTo.Proofs.Principal
import PointsTo.Proofs.Stores

/-!
# Other numbers of objects

A configuration says how many objects stack allocations and globals own. As long as they own
some, the numbers move ids around and change nothing else: values keep their order, and what
a plan names are values and first objects, which move with them.
-/

namespace PointsTo

/-! ## Tables with other numbers of objects -/

namespace ObjectTable

variable {V : Type} [DecidableEq V] {x y : ObjectTable V} {v w : V} {a b c d : ObjectId}

/-- The tables have the same values in the same order, and the same of them own objects. -/
structure Alike (x y : ObjectTable V) : Prop where
  special : y.special = x.special
  left : x.Blocks
  right : y.Blocks
  owners : List.Forall₂ (fun o o' => o'.1 = o.1 ∧ (o'.2 = 0 ↔ o.2 = 0)) x.owners y.owners

theorem alike_new (special : Nat) : (new special : ObjectTable V).Alike (new special) :=
  ⟨rfl, blocks_new special, blocks_new special, .nil⟩

theorem Alike.values_eq (h : x.Alike y) : y.owners.map Prod.fst = x.owners.map Prod.fst := by
  have hmap : List.Forall₂ Eq (y.owners.map Prod.fst) (x.owners.map Prod.fst) :=
    List.forall₂_map_left_iff.2 (List.forall₂_map_right_iff.2
      (h.owners.flip.imp fun _ _ ho => ho.1))
  exact List.forall₂_eq_eq_eq ▸ hmap

theorem Alike.contains_eq (h : x.Alike y) (v : V) : y.contains v = x.contains v := by
  rw [Bool.eq_iff_iff, h.right.contains_iff, h.left.contains_iff, h.values_eq]

theorem Alike.register (h : x.Alike y) (v : V) {k k' : Nat} (hk : k' = 0 ↔ k = 0) :
    (x.register v k).2.Alike (y.register v k').2 := by
  have hcontains := h.contains_eq v
  cases hx : x.find? v with
  | some a =>
    have hy : (y.find? v).isSome := by simpa [contains, hx] using hcontains
    obtain ⟨b, hb⟩ := Option.isSome_iff_exists.1 hy
    rw [register_of_find? hx, register_of_find? hb]
    exact h
  | none =>
    have hy : y.find? v = none := by simpa [contains, hx] using hcontains
    rw [register_of_find?_none hx, register_of_find?_none hy]
    refine ⟨h.special, h.left.extended hx k, h.right.extended hy k', ?_⟩
    rw [owners_extended, owners_extended]
    exact List.rel_append h.owners (.cons ⟨rfl, hk⟩ .nil)

/-- A value is in both tables or in neither, and owns objects in both or in neither. -/
theorem Alike.idOf_cases (h : x.Alike y) (v : V) :
    (∃ e e', x.idOf v = .error e ∧ y.idOf v = .error e') ∨
      ∃ a b k k', x.idOf v = .ok a ∧ y.idOf v = .ok b ∧ x.slot a = .ok (.owning v k) ∧
        y.slot b = .ok (.owning v k') ∧ (k' = 0 ↔ k = 0) := by
  cases hv : x.idOf v with
  | error e =>
    have hx : x.contains v ≠ true := fun hc => by
      obtain ⟨a, ha⟩ := contains_iff_idOf.1 hc
      cases ha.symm.trans hv
    cases hv' : y.idOf v with
    | error e' => exact .inl ⟨e, e', rfl, rfl⟩
    | ok b => exact absurd (h.contains_eq v ▸ contains_iff_idOf.2 ⟨b, hv'⟩) hx
  | ok a =>
    obtain ⟨k, hk⟩ := (h.left.find?_iff v a).1 (idOf_eq_ok_iff.1 hv)
    obtain ⟨⟨v', k'⟩, hmem, rfl, hzero⟩ :=
      exists_right_of_mem_left h.owners (mem_owners_iff.2 ⟨a, hk⟩)
    obtain ⟨b, hb⟩ := mem_owners_iff.1 hmem
    have hid : y.idOf v' = .ok b := idOf_eq_ok_iff.2 ((h.right.find?_iff _ b).2 ⟨k', hb⟩)
    exact .inr ⟨a, b, k, k', rfl, hid, hk, hb, hzero⟩

/-- Values keep their order. -/
theorem Alike.index_lt (h : x.Alike y) (hv : x.idOf v = .ok a) (hw : x.idOf w = .ok c)
    (hv' : y.idOf v = .ok b) (hw' : y.idOf w = .ok d) (hlt : a.index < c.index) :
    b.index < d.index := by
  have hmem {v : V} {a : ObjectId} (hv : x.idOf v = .ok a) : v ∈ x.owners.map Prod.fst :=
    h.left.contains_iff.1 (contains_iff_idOf.2 ⟨a, hv⟩)
  have hall (l : List V) : l.filter (fun _ => true) = l := by simp
  obtain ⟨before, after, heq⟩ := List.append_of_mem (hmem hw)
  have hsplit := hmem hv
  rw [heq, List.mem_append, List.mem_cons] at hsplit
  rcases hsplit with hbefore | rfl | hafter
  · exact h.right.index_lt ((hall _).trans (h.values_eq.trans heq)) hbefore hv' hw'
  · cases hv.symm.trans hw
    exact absurd hlt (lt_irrefl _)
  · obtain ⟨between, rest, rfl⟩ := List.append_of_mem hafter
    have heq' : x.owners.map Prod.fst = (before ++ w :: between) ++ v :: rest := by simpa using heq
    have hlt' := h.left.index_lt ((hall _).trans heq') (by simp) hw hv
    omega

/-! ## Ids carried over -/

/-- The block of a value ends before the next value. -/
theorem Blocks.add_lt (h : x.Blocks) {k n : Nat}
    (ha : x.slot a = .ok (.owning v k)) (hc : x.slot c = .ok (.owning w n))
    (hlt : a.index < c.index) : a.index + k < c.index := by
  by_contra hge
  have hslot := (h.owned_iff ha c).2 ⟨hlt, by omega⟩
  cases hc.symm.trans hslot

/-- The id in the second table of what has an id in the first: an object keeps its place in
the block of its value. -/
def carry (x y : ObjectTable V) (id : ObjectId) : ObjectId :=
  match x.mainId id, x.mainValue id with
  | .ok base, .ok v =>
    match y.find? v with
    | some base' => ⟨base'.index + (id.index - base.index)⟩
    | none => id
  | _, _ => id

theorem carry_of_lt {id : ObjectId} (h : id.index < x.special) : x.carry y id = id := by
  have hslot : x.slot id = .error (.outOfRange id x.special x.stop) := if_neg (by omega)
  simp [carry, mainId, hslot, Except.map]

theorem Blocks.carry_of_slot (h : x.Blocks) {k n : Nat} (ha : x.slot a = .ok (.owning v k))
    (hn : n ≤ k) (hb : y.idOf v = .ok b) : x.carry y ⟨a.index + n⟩ = ⟨b.index + n⟩ := by
  have hin : x.InBlock a ⟨a.index + n⟩ := ⟨v, k, ha, Nat.le_add_right _ _, by simpa using hn⟩
  simp [carry, h.inBlock_iff.1 hin, h.mainValue_of_inBlock ha hin, idOf_eq_ok_iff.1 hb]

theorem Blocks.carry_self (h : x.Blocks) {k : Nat} (ha : x.slot a = .ok (.owning v k))
    (hb : y.idOf v = .ok b) : x.carry y a = b :=
  h.carry_of_slot ha (Nat.zero_le k) hb

omit [DecidableEq V] in
/-- The first object of a value. -/
theorem affiliated_one {k : Nat} (ha : x.slot a = .ok (.owning v k)) :
    x.affiliated a 1 =
      if k = 0 then .error (.affiliatedOverflow a 1 k) else .ok ⟨a.index + 1⟩ := by
  rcases Nat.eq_zero_or_pos k with rfl | hk
  · simp [affiliated, ha]
  · simp [affiliated, ha, hk.ne', Nat.succ_le_of_lt hk]

omit [DecidableEq V] in
theorem storage_eq {k : Nat} (ha : x.slot a = .ok (.owning v k)) :
    x.storage a = if k = 0 then .ok a else .ok ⟨a.index + 1⟩ := by
  rw [storage, affiliated_one ha]
  rcases Nat.eq_zero_or_pos k with rfl | hk
  · rfl
  · simp [hk.ne']

/-- A special id, the id of a value, or that of the first object that a value owns. -/
def Named (x : ObjectTable V) (id : ObjectId) : Prop :=
  id.index < x.special ∨
    ∃ v base, x.idOf v = .ok base ∧ (id = base ∨ x.affiliated base 1 = .ok id)

/-- A special id, the id of a value, or that of an object that its value owns in the second
table too. -/
def Kept (x y : ObjectTable V) (id : ObjectId) : Prop :=
  id.index < x.special ∨
    ∃ v base base', x.idOf v = .ok base ∧ y.idOf v = .ok base' ∧
      (id = base ∨ ∃ n id', x.affiliated base n = .ok id ∧ y.affiliated base' n = .ok id')

theorem Alike.kept_of_named (h : x.Alike y) {id : ObjectId} (hid : x.Named id) : x.Kept y id := by
  rcases hid with hlt | ⟨v, base, hbase, hid⟩
  · exact .inl hlt
  · rcases h.idOf_cases v with ⟨e, -, he, -⟩ | ⟨a, b, k, k', ha, hb, hk, hk', hzero⟩
    · cases hbase.symm.trans he
    · cases hbase.symm.trans ha
      refine .inr ⟨v, base, b, hbase, hb, hid.imp_right fun hfirst => ?_⟩
      have hpos : 1 ≤ k := ((affiliated_iff_of_slot hk).1 hfirst).2.1
      exact ⟨1, _, hfirst, (affiliated_iff_of_slot hk').2 ⟨Nat.one_pos, by omega, rfl⟩⟩

/-- A kept id that is not special stands in the blocks that its value has in both tables. -/
theorem Alike.kept_cases (h : x.Alike y) {id : ObjectId} (hid : x.Kept y id) :
    (id.index < x.special ∧ x.carry y id = id) ∨
      ∃ v a b k k' n, x.slot a = .ok (.owning v k) ∧ y.slot b = .ok (.owning v k') ∧
        x.idOf v = .ok a ∧ y.idOf v = .ok b ∧ n ≤ k ∧ n ≤ k' ∧ id = ⟨a.index + n⟩ ∧
        x.carry y id = ⟨b.index + n⟩ := by
  rcases hid with hlt | ⟨v, base, base', hbase, hbase', hid⟩
  · exact .inl ⟨hlt, carry_of_lt hlt⟩
  · rcases h.idOf_cases v with ⟨e, -, he, -⟩ | ⟨a, b, k, k', ha, hb, hk, hk', -⟩
    · cases hbase.symm.trans he
    · cases hbase.symm.trans ha
      cases hbase'.symm.trans hb
      rcases hid with rfl | ⟨n, id', hn, hn'⟩
      · exact .inr ⟨v, id, base', k, k', 0, hk, hk', ha, hb, Nat.zero_le k, Nat.zero_le k', rfl,
          h.left.carry_self hk hb⟩
      · obtain ⟨-, hle, rfl⟩ := (affiliated_iff_of_slot hk).1 hn
        obtain ⟨-, hle', -⟩ := (affiliated_iff_of_slot hk').1 hn'
        exact .inr ⟨v, base, base', k, k', n, hk, hk', ha, hb, hle, hle', rfl,
          h.left.carry_of_slot hk hle hb⟩

/-- Kept ids keep their order. -/
theorem Alike.carry_lt (h : x.Alike y) {id id' : ObjectId} (hid : x.Kept y id)
    (hid' : x.Kept y id') (hlt : id.index < id'.index) :
    (x.carry y id).index < (x.carry y id').index := by
  rcases h.kept_cases hid with
      ⟨hs, heq⟩ | ⟨v, a, b, k, l, n, ha, hb, hv, hv', hk, hl, rfl, heq⟩ <;>
    rcases h.kept_cases hid' with
      ⟨hs', heq'⟩ | ⟨w, c, d, k', l', n', hc, hd, hw, hw', hk', hl', rfl, heq'⟩ <;>
    rw [heq, heq']
  · exact hlt
  · have hle := (lt_stop_of_slot hd).1
    rw [h.special] at hle
    simp only
    omega
  · have hle := (lt_stop_of_slot ha).1
    simp only at hlt
    omega
  · simp only at hlt ⊢
    rcases lt_trichotomy a.index c.index with hac | hac | hac
    · have hbd := h.index_lt hv hw hv' hw' hac
      have hend := h.right.add_lt hb hd hbd
      omega
    · obtain rfl : a = c := by
        cases a
        cases c
        simpa using hac
      cases ha.symm.trans hc
      cases hv'.symm.trans hw'
      omega
    · have hend := h.left.add_lt hc ha hac
      omega

end ObjectTable

/-- Principal objects have ids that correspond. -/
theorem ObjectTable.Alike.agree {x y : ObjectTable Value} (h : x.Alike y) {o : ObjectRef}
    (ho : o.Principal x.special) : o.Agree (x.carry y) x y o := by
  cases ho with
  | special hlt => exact .ok (carry_of_lt hlt).symm
  | missing fault => exact .error trivial
  | value v =>
    rcases h.idOf_cases v with ⟨e, e', hx, hy⟩ | ⟨a, b, k, k', hx, hy, ha, hb, hzero⟩
    · simp only [ObjectRef.Agree, ObjectRef.resolve, hx, hy]
      exact .error trivial
    · simp only [ObjectRef.Agree, ObjectRef.resolve, hx, hy]
      exact .ok (h.left.carry_self ha hy).symm
  | storage v =>
    rcases h.idOf_cases v with ⟨e, e', hx, hy⟩ | ⟨a, b, k, k', hx, hy, ha, hb, hzero⟩
    · simp only [ObjectRef.Agree, ObjectRef.resolve, hx, hy]
      exact .error trivial
    · simp only [ObjectRef.Agree, ObjectRef.resolve, hx, hy, Except.bind, storage_eq ha,
        storage_eq hb, hzero]
      split
      · exact .ok (h.left.carry_self ha hy).symm
      next hk => exact .ok (h.left.carry_of_slot ha (Nat.pos_of_ne_zero hk) hy).symm
  | first v =>
    rcases h.idOf_cases v with ⟨e, e', hx, hy⟩ | ⟨a, b, k, k', hx, hy, ha, hb, hzero⟩
    · simp only [ObjectRef.Agree, ObjectRef.resolve, hx, hy]
      exact .error trivial
    · simp only [ObjectRef.Agree, ObjectRef.resolve, hx, hy, Except.bind, affiliated_one ha,
        affiliated_one hb, hzero]
      split
      · exact .error trivial
      next hk => exact .ok (h.left.carry_of_slot ha (Nat.pos_of_ne_zero hk) hy).symm

/-! ## Steps about principal objects -/

section Steps

variable {φ : ObjectId → ObjectId} {x y : ObjectTable Value} {P : ObjectRef → Prop}

theorem Row.Over.agree (h : ∀ o, P o → ObjectRef.Agree φ x y o o) {r : Row} (hr : r.Over P) :
    r.Agree φ x y r := by
  refine ⟨rfl, List.forall₂_same.2 fun cell hcell => ?_⟩
  cases cell with
  | object o => exact .object (h o (hr _ hcell))
  | int n => exact .int n
  | str s => exact .str s
  | typeText t => exact .typeText t

/-- A step says the same with both tables if its objects are the same. -/
theorem Step.Over.agree (h : ∀ o, P o → ObjectRef.Agree φ x y o o) {st : Step} (hst : st.Over P) :
    st.Agree φ x y st := by
  cases st with
  | row r => exact .row (Row.Over.agree h hst)
  | typed v ty => exact .typed ty (h _ hst)
  | intern ty => exact .intern ty
  | ifPointer ty rows =>
    exact .ifPointer ty (List.forall₂_same.2 fun r hr => Row.Over.agree h (hst r hr))
  | need o => exact .need (h o hst)
  | remark r => exact .remark r r
  | visited c => exact .visited c c
  | acts choose => exact hst.elim

end Steps

/-! ## Registration with other numbers of objects -/

namespace Setup

/-- The setup with other numbers of objects for stack allocations and globals. -/
def withObjects (s : Setup) (alloca global : Nat) : Setup :=
  { s with config := { s.config with allocaObjects := alloca, globalObjects := global } }

/-- The plan does not depend on how many objects values own. -/
theorem plan_withObjects (s : Setup) (alloca global : Nat) (matched : MatchedCalls) :
    (s.withObjects alloca global).plan matched = s.plan matched := rfl

end Setup

/-- The requests are the same, but for the number of objects that a value gets. -/
inductive Request.Alike : Request → Request → Prop
  | refl (q : Request) : Alike q q
  | value (v : Value) {k k' : Nat} (hk : k' = 0 ↔ k = 0) : Alike (.value v k) (.value v k')

namespace Setup

variable {s : Setup} {alloca global : Nat}

theorem alike_instrRequests (ha : alloca = 0 ↔ s.config.allocaObjects = 0) (place : Place)
    (i : Instr) :
    List.Forall₂ Request.Alike (s.instrRequests place i)
      ((s.withObjects alloca global).instrRequests place i) := by
  refine .cons ?_ (List.forall₂_same.2 fun q _ => .refl q)
  cases i with
  | alloca dest ty count alignment => exact .value _ ha
  | _ => exact .refl _

theorem alike_blockRequests (ha : alloca = 0 ↔ s.config.allocaObjects = 0) (f : FunctionId)
    (b : Block) :
    List.Forall₂ Request.Alike (s.blockRequests f b)
      ((s.withObjects alloca global).blockRequests f b) := by
  refine .cons (.refl _) (List.rel_append ?_ (List.forall₂_same.2 fun q _ => .refl q))
  refine List.rel_flatMap (R := Eq) (List.forall₂_same.2 fun _ _ => rfl) ?_
  rintro e _ rfl
  exact alike_instrRequests ha _ e.1

theorem alike_requests (ha : alloca = 0 ↔ s.config.allocaObjects = 0)
    (hg : global = 0 ↔ s.config.globalObjects = 0) :
    List.Forall₂ Request.Alike s.requests (s.withObjects alloca global).requests := by
  have hsame (l : List Request) : List.Forall₂ Request.Alike l l :=
    List.forall₂_same.2 fun q _ => .refl q
  have hglobals : List.Forall₂ Request.Alike
      (s.unit.globalList.map fun e => Request.value (.global e.1) s.config.globalObjects)
      (s.unit.globalList.map fun e => Request.value (.global e.1) global) := by
    refine List.rel_map (R := Eq) ?_ (List.forall₂_same.2 fun _ _ => rfl)
    rintro e _ rfl
    exact .value _ hg
  have hbodies : List.Forall₂ Request.Alike
      (s.unit.functionList.flatMap fun e => s.functionRequests e.1 e.2)
      (s.unit.functionList.flatMap fun e =>
        (s.withObjects alloca global).functionRequests e.1 e.2) := by
    refine List.rel_flatMap (R := Eq) (List.forall₂_same.2 fun _ _ => rfl) ?_
    rintro e _ rfl
    refine List.rel_append (hsame _) ?_
    refine List.rel_flatMap (R := Eq) (List.forall₂_same.2 fun _ _ => rfl) ?_
    rintro b _ rfl
    exact alike_blockRequests ha e.1 b
  exact List.rel_append (List.rel_append (List.rel_append hglobals (hsame _)) (hsame _)) hbodies

end Setup

namespace Registering

variable {r r' : Registering}

/-- The passes have come as far, with other numbers of objects. -/
structure Alike (r r' : Registering) : Prop where
  objects : r.objects.Alike r'.objects
  matched : r'.matched = r.matched

theorem Alike.register (h : r.Alike r') (v : Value) {k k' : Nat} (hk : k' = 0 ↔ k = 0) :
    (r.register v k).Alike (r'.register v k') :=
  ⟨h.objects.register v hk, h.matched⟩

theorem Alike.constant (h : r.Alike r') (m : Module) (depth : Nat) (c : ConstId) :
    (r.constant m depth c).Alike (r'.constant m depth c) := by
  have hchildren (c : ConstId) : m.constantChildren (id c) = (m.constantChildren c).map id :=
    (List.map_id _).symm
  exact constant_of_keeps (P := Alike) (π := id) (L := fun _ => True) (fun _ _ _ _ => trivial)
    (fun c _ => hchildren c) (fun _ _ c h _ => h.objects.contains_eq (m.constantValue c))
    (fun _ _ c h _ => h.register (m.constantValue c) Iff.rfl) depth trivial h

theorem Alike.request {s : Setup} (alloca global : Nat) (h : r.Alike r') {q q' : Request}
    (hq : q.Alike q') :
    Paired Alike (r.request s q) (r'.request (s.withObjects alloca global) q') := by
  cases hq with
  | value v hk => exact ⟨.ok trivial, h.register v hk⟩
  | refl =>
    cases q with
    | enter function => exact ⟨.ok trivial, h.objects, h.matched⟩
    | value v k => exact ⟨.ok trivial, h.register v Iff.rfl⟩
    | constant c => exact ⟨.ok trivial, h.constant s.unit _ c⟩
    | call i invoke =>
      have hresolve : Both Eq (fun _ _ => True) (s.models.resolve (.new s.unit i invoke))
          (s.models.resolve (.new s.unit i invoke)) := by
        cases s.models.resolve (.new s.unit i invoke) with
        | error _ => exact .error trivial
        | ok _ => exact .ok rfl
      refine paired_call (fun _ _ _ _ h => ⟨h.objects, h.matched⟩) (fun r r' position h => ?_)
        (fun _ _ k h => h.register (.instruction i) Iff.rfl) hresolve h
      exact ⟨h.objects, by simp [setMatched, h.matched]⟩

end Registering

/-! ## Facts with other numbers of objects -/

/-- The ids of principal objects are named. -/
theorem ObjectTable.named_of_resolve {x : ObjectTable Value} {o : ObjectRef} {id : ObjectId}
    (ho : o.Principal x.special) (hid : o.resolve x = .ok id) : x.Named id := by
  cases ho with
  | special hlt =>
    cases hid
    exact .inl hlt
  | missing fault => cases hid
  | value v => exact .inr ⟨v, id, ObjectRef.resolve_value_eq_ok_iff.1 hid, .inl rfl⟩
  | storage v =>
    rw [ObjectRef.resolve] at hid
    cases hbase : x.idOf v with
    | error e => simp [hbase, Except.bind, Except.mapError] at hid
    | ok base =>
      refine .inr ⟨v, base, hbase, ?_⟩
      simp only [hbase, Except.bind, storage] at hid
      split at hid
      · cases hid
        exact .inl rfl
      · refine .inr ?_
        cases hfirst : x.affiliated base 1 <;> simp_all [Except.mapError]
  | first v =>
    rw [ObjectRef.resolve] at hid
    cases hbase : x.idOf v with
    | error e => simp [hbase, Except.bind, Except.mapError] at hid
    | ok base =>
      refine .inr ⟨v, base, hbase, .inr ?_⟩
      cases hfirst : x.affiliated base 1 <;> simp_all [Except.bind, Except.mapError]

theorem Entry.fact?_mapId (φ : ObjectId → ObjectId) (name : String) (e : Entry) :
    (e.mapId φ).fact? name = (e.fact? name).map (List.map (Term.mapId φ)) := by
  by_cases hname : e.relation.name = name <;> simp [Entry.fact?, Entry.mapId, hname]

namespace Extractor

variable {s : Setup} {alloca global : Nat} {x y : Extractor}

/-- An object of a fact is one that the plan names. -/
theorem forall_object_of_over {P : ObjectRef → Prop} {Q : ObjectId → Prop}
    (hplan : ∀ st ∈ x.setup.plan x.matched, st.Over P)
    (hQ : ∀ o id, P o → o.resolve x.objects = .ok id → Q id) (types : TypeTable)
    (store : FactStore) :
    ∀ e ∈ (x.run types store).entries.toList, ∀ id, .object id ∈ e.fact → Q id := by
  classical
  -- A map that moves all other ids leaves the facts as they are.
  have hagree (o : ObjectRef) (ho : P o) :
      ObjectRef.Agree (fun id => if Q id then id else ⟨id.index + 1⟩) x.objects x.objects o o := by
    unfold ObjectRef.Agree
    cases hid : o.resolve x.objects with
    | error e => exact .error trivial
    | ok id => exact .ok (if_pos (hQ o id ho hid)).symm
  have hsteps : Emit.StepsAgree (fun id => if Q id then id else ⟨id.index + 1⟩) x.objects x.objects
      store (fun _ => True) (fun _ => True) (x.setup.plan x.matched) (x.setup.plan x.matched) :=
    Emit.stepsAgree_of_forall₂ _ (fun _ _ _ => trivial)
      (List.forall₂_same.2 fun st hst => (hplan st hst).agree hagree)
  have hentries := (run_of_stepsAgree rfl hsteps types).1
  intro e he id hid
  have hfixed : e.mapId (fun id => if Q id then id else ⟨id.index + 1⟩) = e :=
    (List.map_inj_left.1 ((List.map_id _).trans hentries) e he).symm
  have hfact := List.map_inj_left.1 ((congrArg Entry.fact hfixed).trans (List.map_id _).symm) _ hid
  by_contra hne
  simp only [Term.mapId, hne, if_false, id_eq, Term.object.injEq] at hfact
  have hindex : id.index + 1 = id.index := congrArg ObjectId.index hfact
  omega

/-- A module can be registered with other numbers of objects in the same cases. -/
theorem both_new_withObjects (ha : alloca = 0 ↔ s.config.allocaObjects = 0)
    (hg : global = 0 ↔ s.config.globalObjects = 0) :
    Both (fun x y => x.setup = s ∧ y.setup = s.withObjects alloca global ∧
        x.objects.Alike y.objects ∧ y.matched = x.matched ∧ y.memo = x.memo) (fun _ _ => True)
      (Extractor.new s).1 (Extractor.new (s.withObjects alloca global)).1 := by
  have hconfig :
      (s.withObjects alloca global).config.specialObjects = s.config.specialObjects := rfl
  have hstart : Registering.Alike ⟨.new s.config.specialCount, [], #[]⟩
      ⟨.new s.config.specialCount, [], #[]⟩ := ⟨ObjectTable.alike_new _, rfl⟩
  have hsettle := Registering.paired_settle
    (fun _ _ _ _ hr hq => Registering.Alike.request (s := s) alloca global hr hq)
    (Setup.alike_requests ha hg) hstart
  refine (both_new_of_paired hconfig Iff.rfl hsettle).mono ?_
  rintro x y ⟨r, r', halike, rfl, rfl⟩
  exact ⟨rfl, rfl, halike.objects, halike.matched, rfl⟩

/-- The map sends ids of the first extractor to those of the second, in order. The further
objects of a value have no counterpart, and so no order to keep, if it owns fewer of them
there. -/
structure Carries (x y : Extractor) (φ : ObjectId → ObjectId) : Prop where
  special : ∀ id, id.index < x.setup.config.specialCount → φ id = id
  value : ∀ v id', y.objects.idOf v = .ok id' ↔ ∃ id, x.objects.idOf v = .ok id ∧ id' = φ id
  first : ∀ v base, x.objects.idOf v = .ok base → ∀ id',
    y.objects.affiliated (φ base) 1 = .ok id' ↔
      ∃ id, x.objects.affiliated base 1 = .ok id ∧ id' = φ id
  further : ∀ v base, x.objects.idOf v = .ok base → ∀ n id id',
    x.objects.affiliated base n = .ok id → y.objects.affiliated (φ base) n = .ok id' → id' = φ id
  increasing : ∀ id id', x.objects.Kept y.objects id → x.objects.Kept y.objects id' →
    id.index < id'.index → (φ id).index < (φ id').index
  named : ∀ id, x.objects.Named id → x.objects.Kept y.objects id

theorem carries_carry (h : x.objects.Alike y.objects)
    (hspecial : x.objects.special = x.setup.config.specialCount) :
    x.Carries y (x.objects.carry y.objects) where
  special id hid := ObjectTable.carry_of_lt (hspecial ▸ hid)
  value v id' := by
    rcases h.idOf_cases v with ⟨e, e', hx, hy⟩ | ⟨a, b, k, k', hx, hy, ha, hb, -⟩
    · simp [hx, hy]
    · simp [hx, hy, h.left.carry_self ha hy, eq_comm]
  first v base hbase id' := by
    rcases h.idOf_cases v with ⟨e, e', hx, hy⟩ | ⟨a, b, k, k', hx, hy, ha, hb, hzero⟩
    · cases hbase.symm.trans hx
    · cases hbase.symm.trans hx
      rw [h.left.carry_self ha hy, ObjectTable.affiliated_one ha, ObjectTable.affiliated_one hb]
      by_cases hk : k = 0
      · simp [hk, hzero.2 hk]
      · have hk' : k' ≠ 0 := fun h => hk (hzero.1 h)
        simp [hk, hk', h.left.carry_of_slot ha (Nat.pos_of_ne_zero hk) hy, eq_comm]
  further v base hbase n id id' hid hid' := by
    rcases h.idOf_cases v with ⟨e, e', hx, hy⟩ | ⟨a, b, k, k', hx, hy, ha, hb, -⟩
    · cases hbase.symm.trans hx
    · cases hbase.symm.trans hx
      rw [h.left.carry_self ha hy] at hid'
      obtain ⟨-, hle, rfl⟩ := (ObjectTable.affiliated_iff_of_slot ha).1 hid
      obtain ⟨-, -, rfl⟩ := (ObjectTable.affiliated_iff_of_slot hb).1 hid'
      exact (h.left.carry_of_slot ha hle hy).symm
  increasing id id' := h.carry_lt
  named id := h.kept_of_named

/-- How many objects stack allocations and globals own does not matter, as long as they own
some. With other numbers the module can be registered in the same cases, and ids move by a map
that keeps special ids and the order of all ids that have a counterpart: those of values, of the
first objects they own, and of further objects as far as they are there in both. The facts
have only ids of the first two kinds and special ids, and those of the second description are
those of the first with their ids moved, relation by relation and in order. -/
theorem generate_withObjects (hb : s.models.Bundled)
    (hs : 1 ≤ s.config.allocaObjects ∧ 1 ≤ s.config.globalObjects)
    (h : 1 ≤ alloca ∧ 1 ≤ global) :
    ((∃ y, (Extractor.new (s.withObjects alloca global)).1 = .ok y) ↔
        ∃ x, (Extractor.new s).1 = .ok x) ∧
      ∀ x y, (Extractor.new s).1 = .ok x →
        (Extractor.new (s.withObjects alloca global)).1 = .ok y →
        ∃ φ, x.Carries y φ ∧ ∀ types schema,
          ((y.generate types (.new schema)).outcome = .ok () ↔
            (x.generate types (.new schema)).outcome = .ok ()) ∧
          ∀ name,
            (y.generate types (.new schema)).store.relation name =
              ((x.generate types (.new schema)).store.relation name).map
                (List.map (Term.mapId φ)) ∧
            ∀ fact ∈ (x.generate types (.new schema)).store.relation name,
              ∀ id, .object id ∈ fact → x.objects.Named id := by
  have hboth := both_new_withObjects (show alloca = 0 ↔ s.config.allocaObjects = 0 by omega)
    (show global = 0 ↔ s.config.globalObjects = 0 by omega)
  refine ⟨hboth.exists_ok_iff, fun x y hx hy => ?_⟩
  have hspecial := special_of_new hx
  rw [hx, hy] at hboth
  obtain ⟨rfl, hsetup, halike, hmatched, hmemo⟩ := hboth.of_ok
  refine ⟨x.objects.carry y.objects, carries_carry halike hspecial, fun types schema => ?_⟩
  have hprincipal : ∀ st ∈ x.setup.plan x.matched,
      st.Over (ObjectRef.Principal x.objects.special) := by
    rw [hspecial]
    exact Setup.principal_plan hb
  have hsteps : Emit.StepsAgree (x.objects.carry y.objects) x.objects y.objects (.new schema)
      (fun _ => True) (fun _ => True) (x.setup.plan x.matched) (y.setup.plan y.matched) := by
    rw [hsetup, hmatched, Setup.plan_withObjects]
    exact Emit.stepsAgree_of_forall₂ _ (fun _ _ _ => trivial)
      (List.forall₂_same.2 fun st hst => (hprincipal st hst).agree fun o => halike.agree)
  obtain ⟨hentries, houtcome⟩ := run_of_stepsAgree hmemo hsteps types
  refine ⟨houtcome, fun name => ⟨?_, fun fact hfact id hid => ?_⟩⟩
  · rw [relation_generate, relation_generate, hentries, List.filterMap_map, List.map_filterMap]
    exact List.filterMap_congr fun e _ => Entry.fact?_mapId _ name e
  · rw [relation_generate] at hfact
    obtain ⟨e, he, -, rfl⟩ := FactStore.mem_filterMap_fact?.1 hfact
    exact forall_object_of_over hprincipal (fun o id => ObjectTable.named_of_resolve) types
      (.new schema) e he id hid

/-- The allocation and the global of the sample own three and two objects. -/
theorem allocating_withObjects :
    allocating.models.Bundled ∧
      (1 ≤ allocating.config.allocaObjects ∧ 1 ≤ allocating.config.globalObjects) ∧
      ∃ x y φ, (Extractor.new allocating).1 = .ok x ∧
        (Extractor.new (allocating.withObjects 3 2)).1 = .ok y ∧ x.Carries y φ ∧
        ((y.generate .empty (.new .standard)).outcome = .ok () ↔
          (x.generate .empty (.new .standard)).outcome = .ok ()) ∧
        ∀ name,
          (y.generate .empty (.new .standard)).store.relation name =
            ((x.generate .empty (.new .standard)).store.relation name).map
              (List.map (Term.mapId φ)) ∧
          ∀ fact ∈ (x.generate .empty (.new .standard)).store.relation name,
            ∀ id, .object id ∈ fact → x.objects.Named id := by
  have hobjects : 1 ≤ allocating.config.allocaObjects ∧ 1 ≤ allocating.config.globalObjects := by
    decide
  obtain ⟨hiff, hgenerate⟩ := generate_withObjects (s := allocating) bundled_allocating hobjects
    (show 1 ≤ 3 ∧ 1 ≤ 2 by decide)
  have hnew : ∃ x, (Extractor.new allocating).1 = .ok x := ⟨_, rfl⟩
  obtain ⟨x, hx⟩ := hnew
  obtain ⟨y, hy⟩ := hiff.2 ⟨x, hx⟩
  obtain ⟨φ, hcarries, hfacts⟩ := hgenerate x y hx hy
  exact ⟨bundled_allocating, hobjects, x, y, φ, hx, hy, hcarries, hfacts .empty .standard⟩

/-- No map keeps the order of all ids if values own fewer objects there. The global is followed by
two objects of its own and the function, then by one object and the function. -/
theorem not_increasing_withObjects :
    ∃ x y, (Extractor.new (allocating.withObjects 3 2)).1 = .ok x ∧
      (Extractor.new (allocating.withObjects 1 1)).1 = .ok y ∧
      ¬ ∃ φ : ObjectId → ObjectId,
        (∀ id id', id'.index < x.objects.stop → id.index < id'.index →
          (φ id).index < (φ id').index) ∧
        (∀ v id, x.objects.idOf v = .ok id → y.objects.idOf v = .ok (φ id)) ∧
        ∀ v base id, x.objects.idOf v = .ok base → x.objects.affiliated base 1 = .ok id →
          y.objects.affiliated (φ base) 1 = .ok (φ id) := by
  refine ⟨_, _, rfl, rfl, ?_⟩
  rintro ⟨φ, hincreasing, hvalue, hfirst⟩
  have hglobal : φ ⟨2⟩ = ⟨2⟩ := (Except.ok.inj (hvalue (.global ⟨0⟩) ⟨2⟩ rfl)).symm
  have hobject : φ ⟨3⟩ = ⟨3⟩ := by
    have h := hfirst (.global ⟨0⟩) ⟨2⟩ ⟨3⟩ rfl rfl
    rw [hglobal] at h
    exact (Except.ok.inj h).symm
  have hfunction : φ ⟨5⟩ = ⟨4⟩ := (Except.ok.inj (hvalue (.function ⟨0⟩) ⟨5⟩ rfl)).symm
  -- Nothing is left for the second object of the global.
  have hafter : (φ ⟨3⟩).index < (φ ⟨4⟩).index := hincreasing ⟨3⟩ ⟨4⟩ (by decide) (by decide)
  have hbefore : (φ ⟨4⟩).index < (φ ⟨5⟩).index := hincreasing ⟨4⟩ ⟨5⟩ (by decide) (by decide)
  simp only [hobject, hfunction] at hafter hbefore
  omega

end Extractor

end PointsTo
