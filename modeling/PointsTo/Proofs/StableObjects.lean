import Mathlib
import PointsTo.Proofs.ObjectOwners

/-!
# Answers that stay

What a table has answered it goes on answering, whatever is registered after. Of the
registrations of one value only the first counts: the others give its id back and change
nothing, so a table is the one that the first registrations make.

## Main definitions

* `ObjectTable.Keeps y x`: `y` has every answer that `x` has.
* `ObjectTable.firstCalls calls`: the calls for values that no call before them is for.
-/

namespace PointsTo.ObjectTable

variable {V : Type} {x y : ObjectTable V}

/-! ## Answers read off the slots -/

/-- The first table has the slots of the second, under the same ids. -/
def HasSlots (y x : ObjectTable V) : Prop := ∀ id s, x.slot id = .ok s → y.slot id = .ok s

namespace HasSlots

theorem map_slot (h : y.HasSlots x) {α : Type} {f : Slot V → α} {id : ObjectId} {a : α}
    (ha : (x.slot id).map f = .ok a) : (y.slot id).map f = .ok a := by
  cases hs : x.slot id with
  | error e =>
    rw [hs] at ha
    cases ha
  | ok s =>
    rw [h id s hs]
    rwa [hs] at ha

theorem value? (h : y.HasSlots x) {id : ObjectId} {found : Option V}
    (hfound : x.value? id = .ok found) : y.value? id = .ok found :=
  h.map_slot hfound

theorem mainId (h : y.HasSlots x) {id main : ObjectId} (hmain : x.mainId id = .ok main) :
    y.mainId id = .ok main :=
  h.map_slot hmain

theorem affiliated (h : y.HasSlots x) {base id : ObjectId} {offset : Nat}
    (hid : x.affiliated base offset = .ok id) : y.affiliated base offset = .ok id := by
  obtain ⟨v, k, hs, hoffset⟩ := affiliated_eq_ok_iff.1 hid
  exact affiliated_eq_ok_iff.2 ⟨v, k, h base _ hs, hoffset⟩

theorem mainValue (h : y.HasSlots x) {id : ObjectId} {v : V} (hv : x.mainValue id = .ok v) :
    y.mainValue id = .ok v := by
  unfold ObjectTable.mainValue at hv ⊢
  cases hmain : x.mainId id with
  | error e =>
    rw [hmain] at hv
    cases hv
  | ok main =>
    rw [h.mainId hmain]
    rw [hmain] at hv
    cases hs : x.slot main with
    | error e => simp [hs] at hv
    | ok s => simpa [h main s hs, hs] using hv

end HasSlots

variable [DecidableEq V]

/-! ## Answers after more registrations -/

/-- Registering leaves the slots that are there. -/
theorem hasSlots_register (x : ObjectTable V) (v : V) (k : Nat) :
    (x.register v k).2.HasSlots x := by
  intro id s hs
  cases hv : x.find? v with
  | some base => rwa [register_of_find? hv]
  | none =>
    rw [register_of_find?_none hv]
    exact slot_extended.2 (.inl hs)

theorem hasSlots_registerAll (x : ObjectTable V) (calls : List (V × Nat)) :
    (x.registerAll calls).HasSlots x := by
  induction calls generalizing x with
  | nil => exact fun _ _ hs => hs
  | cons call calls ih =>
    intro id s hs
    exact ih _ id s (x.hasSlots_register call.1 call.2 id s hs)

/-- The first table has every answer that the second has. -/
structure Keeps (y x : ObjectTable V) : Prop where
  idOf (v : V) (id : ObjectId) : x.idOf v = .ok id → y.idOf v = .ok id
  slot (id : ObjectId) (s : Slot V) : x.slot id = .ok s → y.slot id = .ok s
  value? (id : ObjectId) (found : Option V) : x.value? id = .ok found → y.value? id = .ok found
  affiliated (base : ObjectId) (offset : Nat) (id : ObjectId) :
    x.affiliated base offset = .ok id → y.affiliated base offset = .ok id
  mainId (id main : ObjectId) : x.mainId id = .ok main → y.mainId id = .ok main
  mainValue (id : ObjectId) (v : V) : x.mainValue id = .ok v → y.mainValue id = .ok v

theorem keeps_registerAll (x : ObjectTable V) (calls : List (V × Nat)) :
    (x.registerAll calls).Keeps x where
  idOf _ _ h := idOf_eq_ok_iff.2 (find?_registerAll_of_find? (idOf_eq_ok_iff.1 h) calls)
  slot := x.hasSlots_registerAll calls
  value? _ _ := (x.hasSlots_registerAll calls).value?
  affiliated _ _ _ := (x.hasSlots_registerAll calls).affiliated
  mainId _ _ := (x.hasSlots_registerAll calls).mainId
  mainValue _ _ := (x.hasSlots_registerAll calls).mainValue

/-! ## First registrations -/

/-- The calls for values that no call before them is for. -/
def firstCalls : List (V × Nat) → List (V × Nat)
  | [] => []
  | call :: rest => call :: (firstCalls rest).filter fun later => later.1 ≠ call.1

/-- Calls for a value that is registered make no difference. -/
theorem registerAll_filter_ne {v : V} (h : x.contains v = true) (calls : List (V × Nat)) :
    x.registerAll (calls.filter fun call => call.1 ≠ v) = x.registerAll calls := by
  -- The table is any that has the value: calls for other values change the table.
  induction calls generalizing x with
  | nil => rfl
  | cons call rest ih =>
    by_cases hv : call.1 = v
    · obtain ⟨id, hid⟩ := Option.isSome_iff_exists.1 h
      rw [List.filter_cons_of_neg (by simpa using hv), registerAll_cons, hv,
        register_of_find? hid, ih h]
    · rw [List.filter_cons_of_pos (by simpa using hv), registerAll_cons, registerAll_cons]
      exact ih (contains_register.2 (.inr h))

/-- The first calls for each value do all that the calls do. -/
theorem registerAll_firstCalls (x : ObjectTable V) (calls : List (V × Nat)) :
    x.registerAll (firstCalls calls) = x.registerAll calls := by
  induction calls generalizing x with
  | nil => rfl
  | cons call rest ih =>
    have hcall : (x.register call.1 call.2).2.contains call.1 = true :=
      contains_register.2 (.inl rfl)
    rw [firstCalls, registerAll_cons, registerAll_cons, registerAll_filter_ne hcall, ih]

/-- A table that was made by calls to `register` has its answers for good. -/
structure Settled (x : ObjectTable V) (special : Nat) (calls : List (V × Nat)) : Prop where
  /-- No answer changes, whatever is registered after. -/
  keeps (later : List (V × Nat)) : (x.registerAll later).Keeps x
  registered : ∀ v ∈ calls.map Prod.fst, ∃ id, x.idOf v = .ok id
  /-- A value that is registered again keeps its id, whatever count comes with it. -/
  again (v : V) (id : ObjectId) : x.idOf v = .ok id → ∀ k, x.register v k = (id, x)
  /-- Only the first call for each value counts, those that come later among them. -/
  first (later : List (V × Nat)) :
    x.registerAll later = (new special).registerAll (firstCalls (calls ++ later))

/-- Identities are stable under any registrations, with repetitions and whatever counts. -/
theorem registerAll_settled (special : Nat) (calls : List (V × Nat)) :
    ((new special : ObjectTable V).registerAll calls).Settled special calls where
  keeps := keeps_registerAll _
  registered v hv := contains_iff_idOf.1 (contains_registerAll.2 (.inl hv))
  again v id hid k := register_of_find? (idOf_eq_ok_iff.1 hid) k
  first later := by rw [registerAll_firstCalls, registerAll_append]

end PointsTo.ObjectTable
