import Mathlib
import PointsTo.Proofs.ObjectBlocks

/-!
# Owners in id order

The values of a table in id order, each with the number of objects it owns. Values that
are registered once each, in some order, get increasing ids in that order: each block
begins where the one before it ends.
-/

namespace PointsTo

/-- The value that owns a slot, and how many objects it owns besides. -/
def Slot.owner? {V : Type} : Slot V → Option (V × Nat)
  | .owning v k => some (v, k)
  | .affiliate _ => none

namespace ObjectTable

variable {V : Type}

/-- The registered values and what they own, in id order. -/
def owners (x : ObjectTable V) : List (V × Nat) := x.slots.filterMap Slot.owner?

@[simp] theorem owners_new (special : Nat) : (new special : ObjectTable V).owners = [] := rfl

@[simp] theorem owners_extended (x : ObjectTable V) (v : V) (k : Nat) :
    (x.extended v k).owners = x.owners ++ [(v, k)] := by
  have hrest : (List.replicate k (.affiliate ⟨x.stop⟩ : Slot V)).filterMap Slot.owner? = [] := by
    rw [List.filterMap_eq_nil_iff]
    intro s hs
    rw [List.eq_of_mem_replicate hs]
    rfl
  unfold owners extended allocate
  rw [List.filterMap_append, List.filterMap_cons, hrest]
  rfl

theorem mem_owners_iff {x : ObjectTable V} {v : V} {k : Nat} :
    (v, k) ∈ x.owners ↔ ∃ id, x.slot id = .ok (.owning v k) := by
  unfold owners
  rw [List.mem_filterMap]
  constructor
  · rintro ⟨s, hs, hv⟩
    cases s with
    | affiliate b => cases hv
    | owning w n =>
      cases hv
      obtain ⟨i, hi⟩ := List.mem_iff_getElem?.1 hs
      exact ⟨⟨x.special + i⟩, slot_eq_ok_iff.2 ⟨by simp, by simpa using hi⟩⟩
  · rintro ⟨id, hid⟩
    exact ⟨_, List.mem_of_getElem? (slot_eq_ok_iff.1 hid).2, rfl⟩

variable [DecidableEq V]

theorem registerAll_append (x : ObjectTable V) (calls calls' : List (V × Nat)) :
    x.registerAll (calls ++ calls') = (x.registerAll calls).registerAll calls' := by
  simp [registerAll]

theorem registerAll_cons (x : ObjectTable V) (call : V × Nat) (calls : List (V × Nat)) :
    x.registerAll (call :: calls) = (x.register call.1 call.2).2.registerAll calls := rfl

theorem Blocks.contains_iff {x : ObjectTable V} (h : x.Blocks) {v : V} :
    x.contains v = true ↔ v ∈ x.owners.map Prod.fst := by
  simp only [contains, Option.isSome_iff_exists, h.find?_iff, List.mem_map, Prod.exists,
    exists_and_right, exists_eq_right, mem_owners_iff]
  exact exists_comm

/-- Values that are new stay so when another value is registered. -/
theorem new_of_extended {x : ObjectTable V} {v : V} {k : Nat} {values : List V} (hv : v ∉ values)
    (hnew : ∀ w ∈ values, x.contains w = false) :
    ∀ w ∈ values, (x.extended v k).contains w = false := by
  intro w hw
  have hne : w ≠ v := fun e => hv (e ▸ hw)
  simpa [contains, find?_extended, hne] using hnew w hw

/-- Values that are new and differ from each other are owners in the order they came. -/
theorem owners_registerAll {x : ObjectTable V} {calls : List (V × Nat)}
    (hnodup : (calls.map Prod.fst).Nodup)
    (hnew : ∀ v ∈ calls.map Prod.fst, x.contains v = false) :
    (x.registerAll calls).owners = x.owners ++ calls := by
  induction calls generalizing x with
  | nil => simp [registerAll]
  | cons call calls ih =>
    rw [List.map_cons, List.nodup_cons] at hnodup
    rw [List.map_cons, List.forall_mem_cons] at hnew
    have hnone : x.find? call.1 = none := by simpa [contains] using hnew.1
    rw [registerAll_cons, register_of_find?_none hnone,
      ih hnodup.2 (new_of_extended hnodup.1 hnew.2), owners_extended]
    simp

/-- Values that are new and differ from each other are owners in the order they came, whatever
else is registered in between. -/
theorem filter_owners_registerAll {x : ObjectTable V} {calls : List (V × Nat)} {p : V → Bool}
    (hnodup : ((calls.map Prod.fst).filter p).Nodup)
    (hnew : ∀ v ∈ (calls.map Prod.fst).filter p, x.contains v = false) :
    ((x.registerAll calls).owners.map Prod.fst).filter p =
      (x.owners.map Prod.fst).filter p ++ (calls.map Prod.fst).filter p := by
  induction calls generalizing x with
  | nil => simp [registerAll]
  | cons call calls ih =>
    rw [registerAll_cons]
    by_cases hp : p call.1 = true
    · rw [List.map_cons, List.filter_cons_of_pos hp] at hnodup hnew ⊢
      rw [List.nodup_cons] at hnodup
      rw [List.forall_mem_cons] at hnew
      have hnone : x.find? call.1 = none := by simpa [contains] using hnew.1
      rw [register_of_find?_none hnone, ih hnodup.2 (new_of_extended hnodup.1 hnew.2),
        owners_extended]
      simp [hp]
    · rw [List.map_cons, List.filter_cons_of_neg hp] at hnodup hnew ⊢
      cases hcall : x.find? call.1 with
      | some id =>
        rw [register_of_find? hcall]
        exact ih hnodup hnew
      | none =>
        have hnotin : call.1 ∉ (calls.map Prod.fst).filter p :=
          fun hmem => hp (List.mem_filter.1 hmem).2
        rw [register_of_find?_none hcall, ih hnodup (new_of_extended hnotin hnew),
          owners_extended]
        simp [hp]

/-! ## Ids in order -/

omit [DecidableEq V] in
theorem mem_toList_iff {x : ObjectTable V} {id : ObjectId} {s : Slot V} :
    (id, s) ∈ x.toList ↔ x.slot id = .ok s := by
  obtain ⟨n⟩ := id
  unfold toList
  rw [slot_eq_ok_iff, List.mem_map]
  constructor
  · rintro ⟨⟨s', i⟩, hi, heq⟩
    obtain ⟨rfl, rfl⟩ : x.special + i = n ∧ s' = s := by simpa using heq
    exact ⟨by simp, by simpa using List.mk_mem_zipIdx_iff_getElem?.1 hi⟩
  · rintro ⟨hle, hs⟩
    refine ⟨(s, n - x.special), List.mk_mem_zipIdx_iff_getElem?.2 hs, ?_⟩
    simp [Nat.add_sub_cancel' hle]

/-- The ids of the values with some property, in id order. -/
def idsOf (x : ObjectTable V) (p : V → Bool) : List ObjectId :=
  x.toList.filterMap fun (id, s) => s.owner?.bind fun (v, _) => if p v then some id else none

omit [DecidableEq V] in
theorem toList_pairwise (x : ObjectTable V) :
    x.toList.Pairwise fun a b => a.1.index < b.1.index := by
  unfold toList
  rw [List.pairwise_map]
  have hrange := List.pairwise_lt_range' (s := 0) (n := x.slots.length) 1 (by decide)
  have hmap : x.slots.zipIdx.map Prod.snd = List.range' 0 x.slots.length := by simp
  rw [← hmap, List.pairwise_map] at hrange
  exact hrange.imp fun {a b} h => by simpa using h

omit [DecidableEq V] in
theorem idsOf_pairwise (x : ObjectTable V) (p : V → Bool) :
    (x.idsOf p).Pairwise fun a b => a.index < b.index := by
  unfold idsOf
  rw [List.pairwise_filterMap]
  refine x.toList_pairwise.imp fun {a b} hlt id hid id' hid' => ?_
  have ha : a.1 = id := by
    obtain ⟨v, -, hv⟩ := Option.bind_eq_some_iff.1 hid
    exact Option.some.inj (Option.ite_none_right_eq_some.1 hv).2
  have hb : b.1 = id' := by
    obtain ⟨v, -, hv⟩ := Option.bind_eq_some_iff.1 hid'
    exact Option.some.inj (Option.ite_none_right_eq_some.1 hv).2
  rwa [← ha, ← hb]

/-- The ids in order are those of the owners in order. -/
theorem Blocks.idsOf_eq {x : ObjectTable V} (h : x.Blocks) (p : V → Bool) :
    (x.idsOf p).map Except.ok = ((x.owners.map Prod.fst).filter p).map x.idOf := by
  have hslots : x.slots = x.toList.map Prod.snd := by simp [toList, Function.comp_def]
  unfold idsOf owners
  rw [hslots, List.filterMap_map, List.map_filterMap, List.map_filterMap,
    ← List.filterMap_eq_filter, List.filterMap_filterMap, List.map_filterMap]
  refine List.filterMap_congr fun e he => ?_
  obtain ⟨id, s⟩ := e
  have hs := mem_toList_iff.1 he
  cases s with
  | affiliate b => rfl
  | owning v k =>
    have hid : x.idOf v = .ok id := idOf_eq_ok_iff.2 ((h.find?_iff v id).2 ⟨k, hs⟩)
    by_cases hp : p v <;> simp [Slot.owner?, hp, hid, Option.guard]

/-- Owners stand in the order of their ids. -/
theorem Blocks.owners_pairwise {x : ObjectTable V} (h : x.Blocks) :
    (x.owners.map Prod.fst).Pairwise fun v w =>
      ∀ i j, x.idOf v = .ok i → x.idOf w = .ok j → i.index < j.index := by
  have hids := h.idsOf_eq fun _ => true
  rw [List.filter_true] at hids
  have hpairs : ((x.idsOf fun _ => true).map Except.ok).Pairwise
      fun (a b : Except (ObjectError V) ObjectId) =>
        ∀ i j, a = .ok i → b = .ok j → i.index < j.index := by
    rw [List.pairwise_map]
    refine (x.idsOf_pairwise _).imp fun {a b} hlt i j hi hj => ?_
    cases hi
    cases hj
    exact hlt
  rwa [hids, List.pairwise_map] at hpairs

/-- Of two values, the one that was registered first has the smaller id. -/
theorem Blocks.index_lt {x : ObjectTable V} (h : x.Blocks) {p : V → Bool} {before after : List V}
    {v w : V} (hvalues : (x.owners.map Prod.fst).filter p = before ++ v :: after)
    (hw : w ∈ before) {i j : ObjectId} (hi : x.idOf w = .ok i) (hj : x.idOf v = .ok j) :
    i.index < j.index := by
  have hpairs := h.owners_pairwise.filter p
  rw [hvalues, List.pairwise_append] at hpairs
  exact hpairs.2.2 w hw v List.mem_cons_self i j hi hj

/-! ## Where blocks begin -/

omit [DecidableEq V] in
theorem stop_allocate (x : ObjectTable V) (v : V) (k : Nat) (base : ObjectId) :
    (x.allocate v k base).stop = x.stop + (k + 1) := by
  simp [allocate, stop, size]
  omega

/-- A value keeps its id whatever is registered after it. -/
theorem find?_registerAll_of_find? {x : ObjectTable V} {v : V} {id : ObjectId}
    (h : x.find? v = some id) (calls : List (V × Nat)) :
    (x.registerAll calls).find? v = some id := by
  induction calls generalizing x with
  | nil => exact h
  | cons call calls ih =>
    rw [registerAll_cons]
    refine ih ?_
    cases hcall : x.find? call.1 with
    | some id' => rwa [register_of_find? hcall]
    | none =>
      have hne : v ≠ call.1 := by
        rintro rfl
        rw [hcall] at h
        cases h
      rw [register_of_find?_none hcall, find?_extended, if_neg hne, h]

/-- Of values that are new and differ from each other, each has its block right after those
of the values before it. -/
theorem find?_registerAll {x : ObjectTable V} {calls : List (V × Nat)}
    (hnodup : (calls.map Prod.fst).Nodup)
    (hnew : ∀ v ∈ calls.map Prod.fst, x.contains v = false) {n : Nat} {v : V} {k : Nat}
    (hn : calls[n]? = some (v, k)) :
    (x.registerAll calls).find? v =
      some ⟨x.stop + ((calls.take n).map fun call => call.2 + 1).sum⟩ := by
  induction calls generalizing x n with
  | nil => simp at hn
  | cons call calls ih =>
    rw [List.map_cons, List.nodup_cons] at hnodup
    rw [List.map_cons, List.forall_mem_cons] at hnew
    have hnone : x.find? call.1 = none := by simpa [contains] using hnew.1
    rw [registerAll_cons, register_of_find?_none hnone]
    cases n with
    | zero =>
      obtain rfl : call = (v, k) := by simpa using hn
      refine find?_registerAll_of_find? ?_ calls
      rw [find?_extended, if_pos rfl]
      simp
    | succ n =>
      rw [ih hnodup.2 (new_of_extended hnodup.1 hnew.2) (by simpa using hn), extended,
        stop_allocate]
      simp only [List.take_succ_cons, List.map_cons, List.sum_cons, Nat.add_assoc]

end ObjectTable

end PointsTo
