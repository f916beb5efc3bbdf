import Mathlib
import PointsTo.ObjectTable

/-!
# Blocks of object ids

Whatever is registered, in whatever order, the allocated ids of a table fall into
blocks: the id of a value, followed by the ids of what it owns. The map from values to
ids and the slots are two views of these blocks, and neither knows more than the other.
-/

namespace PointsTo.ObjectTable

variable {V : Type}

/-! ## Slots -/

theorem slot_eq_ok_iff {x : ObjectTable V} {id : ObjectId} {s : Slot V} :
    x.slot id = .ok s ↔ x.special ≤ id.index ∧ x.slots[id.index - x.special]? = some s := by
  unfold slot
  by_cases h : x.special ≤ id.index
  · simp only [h, if_true, true_and]
    cases x.slots[id.index - x.special]? <;> simp
  · simp [h]

/-- Exactly the valid ids have a slot. -/
theorem isValid_iff {x : ObjectTable V} {id : ObjectId} :
    x.isValid id = true ↔ ∃ s, x.slot id = .ok s := by
  simp only [isValid, Bool.and_eq_true, decide_eq_true_eq, slot_eq_ok_iff]
  simp only [stop, size]
  constructor
  · rintro ⟨h, hlt⟩
    exact ⟨_, h, List.getElem?_eq_getElem (by omega)⟩
  · rintro ⟨s, h, hs⟩
    have hlt := (List.getElem?_eq_some_iff.1 hs).1
    omega

theorem lt_stop_of_slot {x : ObjectTable V} {id : ObjectId} {s : Slot V} (h : x.slot id = .ok s) :
    x.special ≤ id.index ∧ id.index < x.stop := by
  simpa [isValid] using isValid_iff.2 ⟨s, h⟩

/-- A table with one more block at its end. -/
def extended (x : ObjectTable V) (v : V) (k : Nat) : ObjectTable V := x.allocate v k ⟨x.stop⟩

/-- The slots of an extended table: the old ones, and those of the new block. -/
theorem slot_extended {x : ObjectTable V} {v : V} {k : Nat} {id : ObjectId} {s : Slot V} :
    (x.extended v k).slot id = .ok s ↔
      x.slot id = .ok s ∨ (id = ⟨x.stop⟩ ∧ s = .owning v k) ∨
        (x.stop < id.index ∧ id.index ≤ x.stop + k ∧ s = .affiliate ⟨x.stop⟩) := by
  obtain ⟨n⟩ := id
  simp only [slot_eq_ok_iff, extended, allocate, stop, size, ObjectId.mk.injEq]
  rcases Nat.lt_trichotomy n (x.special + x.slots.length) with h | rfl | h
  · by_cases hn : x.special ≤ n
    · rw [List.getElem?_append_left (by omega)]
      simp only [hn, true_and]
      constructor
      · exact .inl
      · rintro (h' | ⟨h', -⟩ | ⟨h', -⟩)
        · exact h'
        · omega
        · omega
    · simp only [hn, false_and, false_or, false_iff]
      rintro (⟨h', -⟩ | ⟨h', -⟩)
      · omega
      · omega
  · simp [eq_comm]
  · have hn : x.special ≤ n := by omega
    have hold : x.slots[n - x.special]? = none := List.getElem?_eq_none (by omega)
    obtain ⟨j, rfl⟩ : ∃ j, n = x.special + x.slots.length + (j + 1) :=
      ⟨n - (x.special + x.slots.length) - 1, by omega⟩
    have hj : x.special + x.slots.length + (j + 1) - x.special = x.slots.length + (j + 1) := by
      omega
    rw [hold, hj, List.getElem?_append_right (by omega), Nat.add_sub_cancel_left,
      List.getElem?_cons_succ, List.getElem?_replicate]
    split <;> simp [eq_comm] <;> omega

variable [DecidableEq V]

theorem find?_extended (x : ObjectTable V) (v w : V) (k : Nat) :
    (x.extended v k).find? w = if w = v then some ⟨x.stop⟩ else x.find? w := by
  by_cases h : w = v
  · simp [find?, extended, allocate, h]
  · have hb : (w == v) = false := by simpa using h
    simp [find?, extended, allocate, List.lookup_cons, hb, h]

theorem idOf_eq_ok_iff {x : ObjectTable V} {v : V} {id : ObjectId} :
    x.idOf v = .ok id ↔ x.find? v = some id := by
  unfold idOf
  cases x.find? v <;> simp

/-- What registering does: nothing for a value that is known, else one more block. -/
theorem register_of_find? {x : ObjectTable V} {v : V} {id : ObjectId} (h : x.find? v = some id)
    (k : Nat) : x.register v k = (id, x) := by
  simp [register, h]

theorem register_of_find?_none {x : ObjectTable V} {v : V} (h : x.find? v = none) (k : Nat) :
    x.register v k = (⟨x.stop⟩, x.extended v k) := by
  simp [register, h, extended]

/-! ## The invariant -/

/-- The blocks of a table. Values and owning slots correspond, what follows an owning
slot is as many slots of its own as it counts, and no other slot is owned. -/
structure Blocks (x : ObjectTable V) : Prop where
  find?_iff : ∀ v id, x.find? v = some id ↔ ∃ k, x.slot id = .ok (.owning v k)
  owned_iff : ∀ {b v k}, x.slot b = .ok (.owning v k) →
    ∀ id, x.slot id = .ok (.affiliate b) ↔ b.index < id.index ∧ id.index ≤ b.index + k
  exists_owner : ∀ {p b}, x.slot p = .ok (.affiliate b) → ∃ v k, x.slot b = .ok (.owning v k)

theorem blocks_new (special : Nat) : (new special : ObjectTable V).Blocks := by
  constructor <;> simp [find?, new, slot_eq_ok_iff]

theorem Blocks.slot_of_find?_none {x : ObjectTable V} (h : x.Blocks) {v : V}
    (hv : x.find? v = none) (id : ObjectId) (k : Nat) : x.slot id ≠ .ok (.owning v k) := by
  intro hs
  have hf : x.find? v = some id := (h.find?_iff v id).2 ⟨k, hs⟩
  rw [hv] at hf
  cases hf

theorem Blocks.eq_of_idOf {x : ObjectTable V} (h : x.Blocks) {v w : V} {id : ObjectId}
    (hv : x.idOf v = .ok id) (hw : x.idOf w = .ok id) : v = w := by
  obtain ⟨k, hk⟩ := (h.find?_iff v id).1 (idOf_eq_ok_iff.1 hv)
  obtain ⟨n, hn⟩ := (h.find?_iff w id).1 (idOf_eq_ok_iff.1 hw)
  rw [hk] at hn
  cases hn
  rfl

theorem Blocks.extended {x : ObjectTable V} (h : x.Blocks) {v : V} (hv : x.find? v = none)
    (k : Nat) : (x.extended v k).Blocks where
  find?_iff := by
    intro w id
    rw [find?_extended]
    simp only [slot_extended]
    by_cases hw : w = v
    · subst hw
      have hold := h.slot_of_find?_none hv id
      simp [hold, eq_comm]
    · simp [hw, h.find?_iff]
  owned_iff := by
    intro b w n hb id
    rw [slot_extended] at hb
    rw [slot_extended]
    rcases hb with hb | ⟨rfl, hb⟩ | ⟨-, -, hb⟩
    · have hlt := (lt_stop_of_slot hb).2
      have hne : b ≠ ⟨x.stop⟩ := fun e => by simp [e] at hlt
      simp [h.owned_iff hb, hne]
    · cases hb
      have hold : x.slot id ≠ .ok (.affiliate ⟨x.stop⟩) := by
        intro hid
        obtain ⟨w, n, hs⟩ := h.exists_owner hid
        exact absurd (lt_stop_of_slot hs).2 (lt_irrefl _)
      simp [hold]
    · cases hb
  exists_owner := by
    intro p b hp
    simp only [slot_extended] at hp ⊢
    rcases hp with hp | ⟨-, hp⟩ | ⟨-, -, hp⟩
    · obtain ⟨w, n, hs⟩ := h.exists_owner hp
      exact ⟨w, n, .inl hs⟩
    · cases hp
    · cases hp
      exact ⟨v, k, .inr (.inl ⟨rfl, rfl⟩)⟩

/-- Registering keeps the blocks, also when a value comes again with another count. -/
theorem Blocks.register {x : ObjectTable V} (h : x.Blocks) (v : V) (k : Nat) :
    (x.register v k).2.Blocks := by
  cases hv : x.find? v with
  | some id => rwa [register_of_find? hv]
  | none =>
    rw [register_of_find?_none hv]
    exact h.extended hv k

/-- Register values in order, each with what it owns. -/
def registerAll (x : ObjectTable V) (calls : List (V × Nat)) : ObjectTable V :=
  calls.foldl (fun x call => (x.register call.1 call.2).2) x

theorem Blocks.registerAll {x : ObjectTable V} (h : x.Blocks) (calls : List (V × Nat)) :
    (x.registerAll calls).Blocks := by
  induction calls generalizing x with
  | nil => exact h
  | cons call rest ih => exact ih (h.register call.1 call.2)

@[simp] theorem special_register (x : ObjectTable V) (v : V) (k : Nat) :
    (x.register v k).2.special = x.special := by
  unfold register
  split <;> rfl

@[simp] theorem special_registerAll (x : ObjectTable V) (calls : List (V × Nat)) :
    (x.registerAll calls).special = x.special := by
  induction calls generalizing x with
  | nil => rfl
  | cons call rest ih =>
    rw [registerAll, List.foldl_cons, ← registerAll, ih, special_register]

theorem contains_register {x : ObjectTable V} {v w : V} {k : Nat} :
    (x.register v k).2.contains w = true ↔ w = v ∨ x.contains w = true := by
  unfold contains
  cases hv : x.find? v with
  | some id =>
    rw [register_of_find? hv]
    constructor
    · exact .inr
    · rintro (rfl | h)
      · simp [hv]
      · exact h
  | none =>
    rw [register_of_find?_none hv, find?_extended]
    by_cases hw : w = v <;> simp [hw]

/-- The values that have an id are those that were registered. -/
theorem contains_registerAll {x : ObjectTable V} {calls : List (V × Nat)} {w : V} :
    (x.registerAll calls).contains w = true ↔ w ∈ calls.map Prod.fst ∨ x.contains w = true := by
  induction calls generalizing x with
  | nil => simp [registerAll]
  | cons call rest ih =>
    rw [registerAll, List.foldl_cons, ← registerAll, ih, contains_register, List.map_cons,
      List.mem_cons]
    tauto

theorem contains_iff_idOf {x : ObjectTable V} {v : V} :
    x.contains v = true ↔ ∃ id, x.idOf v = .ok id := by
  simp only [contains, idOf_eq_ok_iff, Option.isSome_iff_exists]

/-! ## Owners -/

omit [DecidableEq V] in
theorem value?_eq_ok_iff {x : ObjectTable V} {id : ObjectId} {v : V} :
    x.value? id = .ok (some v) ↔ ∃ k, x.slot id = .ok (.owning v k) := by
  unfold value?
  rcases x.slot id with e | ⟨w, k⟩ | b <;> simp [Except.map]

/-- The id lies in the block of the value at `b`. -/
def InBlock (x : ObjectTable V) (b id : ObjectId) : Prop :=
  ∃ v k, x.slot b = .ok (.owning v k) ∧ b.index ≤ id.index ∧ id.index ≤ b.index + k

/-- An id in a block is the value's own or that of an object it owns. -/
theorem Blocks.inBlock_iff {x : ObjectTable V} (h : x.Blocks) {b id : ObjectId} :
    x.InBlock b id ↔ x.mainId id = .ok b := by
  unfold mainId
  constructor
  · rintro ⟨v, k, hb, hle, hge⟩
    rcases Nat.eq_or_lt_of_le hle with heq | hlt
    · have hid : id = b := by cases b; cases id; simp_all
      rw [hid, hb]
      rfl
    · rw [(h.owned_iff hb id).2 ⟨hlt, hge⟩]
      rfl
  · intro hm
    rcases hs : x.slot id with e | ⟨v, k⟩ | base
    · simp [hs, Except.map] at hm
    · obtain rfl : id = b := by simpa [hs, Except.map] using hm
      exact ⟨v, k, hs, le_refl _, Nat.le_add_right _ _⟩
    · obtain rfl : base = b := by simpa [hs, Except.map] using hm
      obtain ⟨v, k, hb⟩ := h.exists_owner hs
      obtain ⟨hlt, hge⟩ := (h.owned_iff hb id).1 hs
      exact ⟨v, k, hb, hlt.le, hge⟩

/-- The valid ids are divided among the blocks. -/
theorem Blocks.isValid_iff_existsUnique {x : ObjectTable V} (h : x.Blocks) {id : ObjectId} :
    x.isValid id = true ↔ ∃! b, x.InBlock b id := by
  simp only [h.inBlock_iff]
  rw [isValid_iff]
  unfold mainId
  constructor
  · rintro ⟨s, hs⟩
    cases s with
    | owning v k => exact ⟨id, by simp [hs, Except.map], by simp [hs, Except.map]⟩
    | affiliate base => exact ⟨base, by simp [hs, Except.map], by simp [hs, Except.map]⟩
  · rintro ⟨b, hb, -⟩
    rcases hs : x.slot id with e | s
    · simp [hs, Except.map] at hb
    · exact ⟨s, rfl⟩

/-- The main value of an id is the value of its block. -/
theorem Blocks.mainValue_of_inBlock {x : ObjectTable V} (h : x.Blocks) {b id : ObjectId} {v : V}
    {k : Nat} (hb : x.slot b = .ok (.owning v k)) (hid : x.InBlock b id) :
    x.mainValue id = .ok v := by
  simp [mainValue, h.inBlock_iff.1 hid, hb]

omit [DecidableEq V] in
theorem slot_eq_error {x : ObjectTable V} {id : ObjectId} {e : ObjectError V}
    (h : x.slot id = .error e) : e = .outOfRange id x.special x.stop := by
  unfold slot at h
  split at h
  · split at h
    · cases h
    · exact (Except.error.inj h).symm
  · exact (Except.error.inj h).symm

omit [DecidableEq V] in
theorem mainValue_of_not_isValid {x : ObjectTable V} {id : ObjectId}
    (h : ¬ x.isValid id = true) :
    x.mainValue id = .error (.outOfRange id x.special x.stop) := by
  rcases hs : x.slot id with e | s
  · obtain rfl := slot_eq_error hs
    simp [mainValue, mainId, hs, Except.map]
  · exact absurd (isValid_iff.2 ⟨s, hs⟩) h

omit [DecidableEq V] in
/-- An offset leads from a value to an object if it is one of as many as the value owns. -/
theorem affiliated_eq_ok_iff {x : ObjectTable V} {b id : ObjectId} {n : Nat} :
    x.affiliated b n = .ok id ↔
      ∃ v k, x.slot b = .ok (.owning v k) ∧ 0 < n ∧ n ≤ k ∧ id = ⟨b.index + n⟩ := by
  unfold affiliated
  rcases Nat.eq_zero_or_pos n with rfl | hn
  · simp
  · rcases x.slot b with e | ⟨v, k⟩ | base
    · simp [hn.ne']
    · by_cases hk : n ≤ k <;> simp [hn, hn.ne', hk, eq_comm]
    · simp [hn.ne']

omit [DecidableEq V] in
theorem affiliated_iff_of_slot {x : ObjectTable V} {b id : ObjectId} {v : V} {k n : Nat}
    (hb : x.slot b = .ok (.owning v k)) :
    x.affiliated b n = .ok id ↔ 0 < n ∧ n ≤ k ∧ id = ⟨b.index + n⟩ := by
  simp [affiliated_eq_ok_iff, hb]

omit [DecidableEq V] in
/-- What a value owns lies in its block. -/
theorem inBlock_of_affiliated {x : ObjectTable V} {b id : ObjectId} {n : Nat}
    (h : x.affiliated b n = .ok id) : x.InBlock b id := by
  obtain ⟨v, k, hs, -, hle, rfl⟩ := affiliated_eq_ok_iff.1 h
  exact ⟨v, k, hs, Nat.le_add_right _ _, Nat.add_le_add_left hle _⟩

omit [DecidableEq V] in
/-- So does the memory of an allocation site. -/
theorem inBlock_of_storage {x : ObjectTable V} {b id : ObjectId} (h : x.storage b = .ok id) :
    x.InBlock b id := by
  unfold storage at h
  split at h
  next b' n he =>
    cases h
    rcases hs : x.slot b with e | ⟨v, k⟩ | base
    · obtain rfl := slot_eq_error hs
      simp [affiliated, hs] at he
    · exact ⟨v, k, hs, le_rfl, Nat.le_add_right _ _⟩
    · simp [affiliated, hs] at he
  next => exact inBlock_of_affiliated h

/-- The main value of an id exists for exactly the valid ids; else the id is out of
range. -/
theorem Blocks.mainValue_cases {x : ObjectTable V} (h : x.Blocks) (id : ObjectId) :
    (x.isValid id = true ∧ ∃ v, x.mainValue id = .ok v) ∨
      (¬ x.isValid id = true ∧ x.mainValue id = .error (.outOfRange id x.special x.stop)) := by
  by_cases hid : x.isValid id = true
  · obtain ⟨b, hb, -⟩ := h.isValid_iff_existsUnique.1 hid
    obtain ⟨v, k, hs, hrange⟩ := hb
    exact .inl ⟨hid, v, h.mainValue_of_inBlock hs ⟨v, k, hs, hrange⟩⟩
  · exact .inr ⟨hid, mainValue_of_not_isValid hid⟩

/-- The ids from `special` on, divided into blocks: one for each of the `values`, an owning
slot followed by exactly the slots of what the value owns. -/
structure Partition (x : ObjectTable V) (special : Nat) (values : List V) : Prop where
  /-- Values and owning slots correspond, so the two look-ups are inverse to each other. -/
  idOf_iff_slot : ∀ v id, x.idOf v = .ok id ↔ ∃ k, x.slot id = .ok (.owning v k)
  idOf_iff_value : ∀ v id, x.idOf v = .ok id ↔ x.value? id = .ok (some v)
  /-- What a value owns are the slots right after its own. -/
  owned : ∀ b v k, x.slot b = .ok (.owning v k) → ∀ id,
    x.slot id = .ok (.affiliate b) ↔ b.index + 1 ≤ id.index ∧ id.index ≤ b.index + k
  /-- No slot is owned by anything else. -/
  owner : ∀ p b, x.slot p = .ok (.affiliate b) →
    ∃ v k, x.slot b = .ok (.owning v k) ∧ b.index + 1 ≤ p.index ∧ p.index ≤ b.index + k
  /-- There is a block for each of the values and for no other. -/
  registered : ∀ v, (∃ id, x.idOf v = .ok id) ↔ v ∈ values
  range : ∀ id, x.isValid id = true ↔ special ≤ id.index ∧ id.index < special + x.size
  /-- Every valid id lies in exactly one block, and no other id lies in one. -/
  divided : ∀ id, x.isValid id = true ↔ ∃! b, x.InBlock b id
  /-- Every valid id leads to the value of its block. -/
  mainValue_iff : ∀ id, (∃ v, x.mainValue id = .ok v) ↔ x.isValid id = true
  mainValue_ne : ∀ id main, x.mainValue id ≠ .error (.notABase main)

/-- Any sequence of registrations, with repetitions and whatever counts, leaves a table
whose allocated ids are divided into the blocks of the registered values. -/
theorem registerAll_partition (special : Nat) (calls : List (V × Nat)) :
    ((new special : ObjectTable V).registerAll calls).Partition special (calls.map Prod.fst) := by
  have h : ((new special : ObjectTable V).registerAll calls).Blocks :=
    (blocks_new special).registerAll calls
  constructor
  case idOf_iff_slot =>
    intro v id
    rw [idOf_eq_ok_iff, h.find?_iff]
  case idOf_iff_value =>
    intro v id
    rw [idOf_eq_ok_iff, h.find?_iff, value?_eq_ok_iff]
  case owned =>
    intro b v k hb id
    exact h.owned_iff hb id
  case owner =>
    intro p b hp
    obtain ⟨v, k, hb⟩ := h.exists_owner hp
    exact ⟨v, k, hb, (h.owned_iff hb p).1 hp⟩
  case registered =>
    intro v
    rw [← contains_iff_idOf, contains_registerAll]
    simp [contains, find?, new]
  case range =>
    intro id
    simp [isValid, stop, new]
  case divided =>
    intro id
    exact h.isValid_iff_existsUnique
  case mainValue_iff =>
    intro id
    rcases h.mainValue_cases id with ⟨hid, hv⟩ | ⟨hid, he⟩
    · exact iff_of_true hv hid
    · exact iff_of_false (by simp [he]) hid
  case mainValue_ne =>
    intro id main he
    rcases h.mainValue_cases id with ⟨-, v, hv⟩ | ⟨-, hout⟩
    · simp [hv] at he
    · simp [hout] at he

end PointsTo.ObjectTable
