import Mathlib
import PointsTo.Builder
import PointsTo.Proofs.TypeTables

/-!
# Requests for types

Types are asked for by what they are, or in short: the type of pointers, and the integer type of a
width. A table that was filled by such requests, in any order and whether or not the types have
their parts in it, has each type once. So an id stands for its type for good, ids are equal if the
types are, and they leave no gaps.

## Main definitions

* `TypeRequest`: what can be asked for; `TypeRequest.ty` is the type.
* `Build.requests`: the ids of types that are asked for one after the other.
-/

namespace PointsTo

/-! ## One request -/

/-- A request for the id of a type. -/
inductive TypeRequest
  | type (ty : Ty)
  | pointer
  | int (bits : Nat)

namespace TypeRequest

/-- The type that is asked for. There are integer types for the widths from 1 to 8388607; other
widths stand for the nearest of these. -/
def ty : TypeRequest → Ty
  | .type ty => ty
  | .pointer => .ptr
  | .int bits => .int (.clamp bits)

def build : TypeRequest → Build TypeId
  | .type ty => Build.type ty
  | .pointer => Build.pointer
  | .int bits => Build.int bits

/-- A request interns the type that is asked for. -/
theorem run_build (r : TypeRequest) (b : Builder) :
    r.build.run.run b = (.ok (b.types.intern r.ty).1,
      { b.note (b.types.internNotices r.ty) with types := (b.types.intern r.ty).2 }) := by
  cases r <;> rfl

/-- A type that is there is not interned again. -/
theorem run_build_of_find? {r : TypeRequest} {b : Builder} {id : TypeId}
    (h : b.types.find? r.ty = some id) : r.build.run.run b = (.ok id, b) := by
  rw [run_build, TypeTable.intern_of_find? h, TypeTable.internNotices, h]
  simp [Builder.note]

end TypeRequest

/-! ## Any requests -/

namespace Build

/-- The ids of types that are asked for one after the other. -/
def requests : List TypeRequest → Build (List TypeId)
  | [] => pure []
  | r :: rest => return (← r.build) :: (← requests rest)

theorem run_bind_of_ok {α β : Type} {x : Build α} {f : α → Build β} {b b' : Builder} {a : α}
    (h : x.run.run b = (.ok a, b')) : (x >>= f).run.run b = (f a).run.run b' := by
  rw [ExceptT.run_bind, StateT.run_bind, h]
  rfl

/-- From one table to another by requests that were answered with `ids`. -/
structure Answered (t : TypeTable) (requests : List TypeRequest) (ids : List TypeId)
    (t' : TypeTable) : Prop where
  extends_start : t'.Extends t
  mem_iff (ty : Ty) : ty ∈ t'.types ↔ ty ∈ t.types ∨ ty ∈ requests.map TypeRequest.ty
  named : List.Forall₂ (fun r id => t'.get? id = some r.ty) requests ids

/-- Ids stand for their types in all tables that grow from the table. -/
theorem named_of_extends {t t' : TypeTable} {requests : List TypeRequest} {ids : List TypeId}
    (h : List.Forall₂ (fun r id => t.get? id = some r.ty) requests ids) (hext : t'.Extends t) :
    List.Forall₂ (fun r id => t'.get? id = some r.ty) requests ids :=
  h.imp fun _ _ hget => (hext.get?_of_lt (TypeTable.lt_size_of_get? hget)).trans hget

/-- Requests are all answered, from any table. -/
theorem exists_run_requests (requests : List TypeRequest) (b : Builder) :
    ∃ ids b', (Build.requests requests).run.run b = (.ok ids, b') ∧
      Answered b.types requests ids b'.types := by
  induction requests generalizing b with
  | nil => exact ⟨[], b, rfl, .refl b.types, by simp, .nil⟩
  | cons r rest ih =>
    -- Of the builder after the first request only the table is known from here on.
    obtain ⟨b₁, hr, htypes⟩ : ∃ b₁, r.build.run.run b = (.ok (b.types.intern r.ty).1, b₁) ∧
        b₁.types = (b.types.intern r.ty).2 := ⟨_, r.run_build b, rfl⟩
    obtain ⟨ids, b', hrun, h⟩ := ih b₁
    rw [htypes] at h
    have hnamed := h.extends_start.get?_of_lt
      (TypeTable.lt_size_of_get? (b.types.get?_intern r.ty))
    refine ⟨(b.types.intern r.ty).1 :: ids, b', ?_, ?_⟩
    · rw [Build.requests, run_bind_of_ok hr, run_bind_of_ok hrun]
      rfl
    · constructor
      case extends_start => exact h.extends_start.trans (b.types.extends_intern r.ty)
      case mem_iff =>
        intro ty
        rw [h.mem_iff, TypeTable.mem_types_intern, List.map_cons, List.mem_cons, or_assoc]
      case named => exact .cons (hnamed.trans (b.types.get?_intern r.ty)) h.named

namespace Answered

variable {t t' : TypeTable} {requests : List TypeRequest} {ids : List TypeId}

/-- Of two requests the ids are equal exactly if the types are. -/
theorem id_eq_iff (h : Answered t requests ids t') {r r' : TypeRequest} {id id' : TypeId}
    (hr : (r, id) ∈ requests.zip ids) (hr' : (r', id') ∈ requests.zip ids) :
    id = id' ↔ r.ty = r'.ty := by
  have hget := List.forall₂_zip h.named hr
  have hget' := List.forall₂_zip h.named hr'
  constructor
  · rintro rfl
    exact Option.some.inj (hget.symm.trans hget')
  · intro hty
    exact TypeTable.eq_of_get? hget (hty ▸ hget')

/-- A table that was empty has the types that were asked for, each once. -/
theorem size_eq (h : Answered .empty requests ids t') :
    t'.size = (requests.map TypeRequest.ty).toFinset.card := by
  have hmem : t'.types.toFinset = (requests.map TypeRequest.ty).toFinset := by
    ext ty
    rw [List.mem_toFinset, List.mem_toFinset, h.mem_iff]
    simp [TypeTable.empty]
  rw [← hmem, List.toFinset_card_of_nodup t'.nodup]
  rfl

/-- A type that is asked for again has its id, and nothing changes. -/
theorem run_again {b : Builder} (h : Answered t requests ids b.types) {r r' : TypeRequest}
    {id : TypeId} (hr : (r, id) ∈ requests.zip ids) (hty : r'.ty = r.ty) :
    r'.build.run.run b = (.ok id, b) := by
  refine TypeRequest.run_build_of_find? (TypeTable.find?_eq_some_iff.2 ?_)
  rw [hty]
  exact List.forall₂_zip h.named hr

end Answered

/-- What has been built by `requests` that were answered with `ids`. -/
structure Interned (requests : List TypeRequest) (ids : List TypeId) (b : Builder) : Prop where
  /-- Each request has an id, which stands for the type that was asked for. -/
  named : List.Forall₂ (fun r id => b.types.get? id = some r.ty) requests ids
  /-- It does so after any requests that follow. -/
  kept (later : List TypeRequest) : ∃ ids' b', (Build.requests later).run.run b = (.ok ids', b') ∧
    List.Forall₂ (fun r id => b'.types.get? id = some r.ty) requests ids
  /-- Of any two requests the ids are equal exactly if the types are. -/
  id_eq_iff (r r' : TypeRequest) (id id' : TypeId) : (r, id) ∈ requests.zip ids →
    (r', id') ∈ requests.zip ids → (id = id' ↔ r.ty = r'.ty)
  /-- The map of the table leads from a type to an id exactly if the list leads back. -/
  find?_iff (ty : Ty) (id : TypeId) : b.types.find? ty = some id ↔ b.types.get? id = some ty
  dense (id : TypeId) : (∃ ty, b.types.get? id = some ty) ↔ id.index < b.types.size
  size_eq : b.types.size = (requests.map TypeRequest.ty).toFinset.card
  /-- While there are no more types than 32-bit words, ids are such words: cutting them down to
  32 bits changes none of them. -/
  word (h : (requests.map TypeRequest.ty).toFinset.card ≤ idLimit) (id : TypeId) (ty : Ty) :
    b.types.get? id = some ty → id.index % idLimit = id.index
  /-- Asking again gives the same id and changes nothing. -/
  again (r r' : TypeRequest) (id : TypeId) : (r, id) ∈ requests.zip ids → r'.ty = r.ty →
    r'.build.run.run b = (.ok id, b)

/-- Whatever is asked for, and in whatever order, a table that was empty has each type once. -/
theorem exists_interned (name : String) (requests : List TypeRequest) :
    ∃ ids b, (Build.requests requests).run.run (.new name) = (.ok ids, b) ∧
      Interned requests ids b := by
  obtain ⟨ids, b, hrun, h⟩ := exists_run_requests requests (.new name)
  refine ⟨ids, b, hrun, ?_⟩
  constructor
  case named => exact h.named
  case kept =>
    intro later
    obtain ⟨ids', b', hrun', h'⟩ := exists_run_requests later b
    exact ⟨ids', b', hrun', named_of_extends h.named h'.extends_start⟩
  case id_eq_iff => exact fun _ _ _ _ hr hr' => h.id_eq_iff hr hr'
  case find?_iff => exact fun ty id => TypeTable.find?_eq_some_iff
  case dense =>
    intro id
    constructor
    · rintro ⟨ty, hget⟩
      exact TypeTable.lt_size_of_get? hget
    · exact TypeTable.exists_get?_of_lt
  case size_eq => exact h.size_eq
  case word =>
    intro hfit id ty hget
    exact Nat.mod_eq_of_lt ((TypeTable.lt_size_of_get? hget).trans_le (h.size_eq.trans_le hfit))
  case again => exact fun _ _ _ hr hty => h.run_again hr hty

end Build

end PointsTo
