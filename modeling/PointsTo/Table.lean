/-!
# Tables in key order

A finite map kept as its entries in strictly increasing key order, so that reading
the entries off is reading the map in order. Inserting under a present key
replaces the entry.
-/

namespace PointsTo

/-- A finite map listed in increasing key order. -/
structure Table (κ : Type) (α : Type) [Ord κ] where
  entries : List (κ × α)
  sorted : entries.Pairwise fun a b => compare a.1 b.1 = .lt

namespace Table
variable {κ α : Type} [Ord κ]

/-- Put an entry in its place, over an entry with the same key if there is one. -/
def insertEntry (k : κ) (v : α) : List (κ × α) → List (κ × α)
  | [] => [(k, v)]
  | (k', v') :: rest =>
    match compare k k' with
    | .lt => (k, v) :: (k', v') :: rest
    | .eq => (k, v) :: rest
    | .gt => (k', v') :: insertEntry k v rest

theorem mem_insertEntry {k : κ} {v : α} {l : List (κ × α)} {e : κ × α}
    (h : e ∈ insertEntry k v l) : e = (k, v) ∨ e ∈ l := by
  induction l with
  | nil => simpa [insertEntry] using h
  | cons x rest ih =>
    simp only [insertEntry] at h
    split at h
    · simpa using h
    · rcases List.mem_cons.1 h with h | h
      · exact .inl h
      · exact .inr (List.mem_cons_of_mem _ h)
    · rcases List.mem_cons.1 h with h | h
      · exact .inr (h ▸ List.mem_cons_self)
      · exact (ih h).imp_right (List.mem_cons_of_mem _)

theorem insertEntry_sorted [Std.TransOrd κ] [Std.LawfulEqOrd κ] (k : κ) (v : α)
    {l : List (κ × α)} (h : l.Pairwise fun a b => compare a.1 b.1 = .lt) :
    (insertEntry k v l).Pairwise fun a b => compare a.1 b.1 = .lt := by
  induction l with
  | nil => simp [insertEntry]
  | cons x rest ih =>
    obtain ⟨hx, hrest⟩ := List.pairwise_cons.1 h
    simp only [insertEntry]
    split
    next hlt =>
      refine List.pairwise_cons.2 ⟨fun e he => ?_, h⟩
      rcases List.mem_cons.1 he with rfl | he
      · exact hlt
      · exact Std.TransCmp.lt_trans hlt (hx e he)
    next heq =>
      have hk : k = x.1 := Std.LawfulEqOrd.eq_of_compare heq
      exact List.pairwise_cons.2 ⟨fun e he => hk ▸ hx e he, hrest⟩
    next hgt =>
      refine List.pairwise_cons.2 ⟨fun e he => ?_, ih hrest⟩
      rcases mem_insertEntry he with rfl | he
      · exact Std.OrientedCmp.gt_iff_lt.1 hgt
      · exact hx e he

def empty : Table κ α := ⟨[], .nil⟩

instance : Inhabited (Table κ α) := ⟨empty⟩

/-- Store `v` under `k`, replacing what was there. -/
def insert [Std.TransOrd κ] [Std.LawfulEqOrd κ] (t : Table κ α) (k : κ) (v : α) : Table κ α :=
  ⟨insertEntry k v t.entries, insertEntry_sorted k v t.sorted⟩

def get? (t : Table κ α) (k : κ) : Option α :=
  (t.entries.find? fun e => compare k e.1 == .eq).map (·.2)

@[simp] theorem get?_empty (k : κ) : (empty : Table κ α).get? k = none := rfl

theorem find?_insertEntry_self [Std.ReflOrd κ] (k : κ) (v : α) (l : List (κ × α)) :
    (insertEntry k v l).find? (fun e => compare k e.1 == .eq) = some (k, v) := by
  induction l with
  | nil => simp [insertEntry]
  | cons x rest ih =>
    simp only [insertEntry]
    split
    next => simp
    next => simp
    next hgt => simpa [hgt] using ih

theorem find?_insertEntry_of_ne [Std.LawfulEqOrd κ] {j k : κ} (h : compare j k ≠ .eq) (v : α)
    (l : List (κ × α)) :
    (insertEntry k v l).find? (fun e => compare j e.1 == .eq) =
      l.find? fun e => compare j e.1 == .eq := by
  induction l with
  | nil => simp [insertEntry, h]
  | cons x rest ih =>
    simp only [insertEntry]
    split
    next => simp [h]
    next heq =>
      have hk : k = x.1 := Std.LawfulEqOrd.eq_of_compare heq
      have hx : compare j x.1 ≠ .eq := hk ▸ h
      simp [h, hx]
    next => simp only [List.find?_cons, ih]

@[simp] theorem get?_insert_self [Std.TransOrd κ] [Std.LawfulEqOrd κ] (t : Table κ α) (k : κ)
    (v : α) : (t.insert k v).get? k = some v := by
  simp [get?, insert, find?_insertEntry_self]

theorem get?_insert_of_ne [Std.TransOrd κ] [Std.LawfulEqOrd κ] (t : Table κ α) {j k : κ}
    (h : j ≠ k) (v : α) : (t.insert k v).get? j = t.get? j := by
  have hc : compare j k ≠ .eq := fun e => h (Std.LawfulEqOrd.eq_of_compare e)
  simp [get?, insert, find?_insertEntry_of_ne hc]

theorem find?_eq_some_of_mem [Std.TransOrd κ] [Std.LawfulEqOrd κ] {l : List (κ × α)}
    (h : l.Pairwise fun a b => compare a.1 b.1 = .lt) {k : κ} {v : α} (hm : (k, v) ∈ l) :
    l.find? (fun e => compare k e.1 == .eq) = some (k, v) := by
  induction l with
  | nil => cases hm
  | cons x rest ih =>
    obtain ⟨hx, hrest⟩ := List.pairwise_cons.1 h
    rcases List.mem_cons.1 hm with rfl | hm
    · simp
    · have hgt : compare k x.1 = .gt := Std.OrientedCmp.gt_iff_lt.2 (hx _ hm)
      simpa [hgt] using ih hrest hm

/-- What is found under a key is the entry with that key. -/
theorem get?_eq_some_iff [Std.TransOrd κ] [Std.LawfulEqOrd κ] {t : Table κ α} {k : κ} {v : α} :
    t.get? k = some v ↔ (k, v) ∈ t.entries := by
  constructor
  · intro h
    obtain ⟨⟨k', v'⟩, hf, rfl⟩ := Option.map_eq_some_iff.1 h
    have hk : k = k' := Std.LawfulEqOrd.eq_of_compare (by simpa using List.find?_some hf)
    subst hk
    exact List.mem_of_find?_eq_some hf
  · intro h
    simp [get?, find?_eq_some_of_mem t.sorted h]

def contains (t : Table κ α) (k : κ) : Bool := (t.get? k).isSome

def keys (t : Table κ α) : List κ := t.entries.map (·.1)

/-- The stored values, in key order. -/
def values (t : Table κ α) : List α := t.entries.map (·.2)

def size (t : Table κ α) : Nat := t.entries.length

def isEmpty (t : Table κ α) : Bool := t.entries.isEmpty

theorem contains_iff_mem_keys [Std.TransOrd κ] [Std.LawfulEqOrd κ] {t : Table κ α} {k : κ} :
    t.contains k = true ↔ k ∈ t.keys := by
  simp [contains, keys, Option.isSome_iff_exists, get?_eq_some_iff]

/-- Insert the pairs from first to last. -/
def ofList [Std.TransOrd κ] [Std.LawfulEqOrd κ] (l : List (κ × α)) : Table κ α :=
  l.foldl (fun t e => t.insert e.1 e.2) empty

section OfList

variable [Std.TransOrd κ] [Std.LawfulEqOrd κ]

theorem mem_or_of_get?_foldl {l : List (κ × α)} {t : Table κ α} {k : κ} {v : α}
    (h : (l.foldl (fun t e => t.insert e.1 e.2) t).get? k = some v) :
    (k, v) ∈ l ∨ t.get? k = some v := by
  induction l generalizing t with
  | nil => exact .inr h
  | cons e rest ih =>
    rcases ih h with h | h
    · exact .inl (List.mem_cons_of_mem _ h)
    · by_cases hk : k = e.1
      · subst hk
        rw [get?_insert_self] at h
        cases h
        exact .inl List.mem_cons_self
      · rw [get?_insert_of_ne t hk] at h
        exact .inr h

theorem contains_foldl {l : List (κ × α)} {t : Table κ α} {k : κ} :
    (l.foldl (fun t e => t.insert e.1 e.2) t).contains k = true ↔
      k ∈ l.map (·.1) ∨ t.contains k = true := by
  induction l generalizing t with
  | nil => simp
  | cons e rest ih =>
    rw [List.foldl_cons, ih, List.map_cons, List.mem_cons]
    by_cases hk : k = e.1
    · simp [contains, hk]
    · simp [contains, get?_insert_of_ne t hk, hk]

theorem mem_of_get?_ofList {l : List (κ × α)} {k : κ} {v : α} (h : (ofList l).get? k = some v) :
    (k, v) ∈ l := by
  simpa using mem_or_of_get?_foldl h

theorem contains_ofList {l : List (κ × α)} {k : κ} :
    (ofList l).contains k = true ↔ k ∈ l.map (·.1) := by
  rw [ofList, contains_foldl]
  simp [contains]

end OfList

end Table

end PointsTo
