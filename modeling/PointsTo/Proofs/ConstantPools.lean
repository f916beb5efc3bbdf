import Mathlib
import PointsTo.Builder
import PointsTo.Proofs.Registration

/-!
# Filling a pool of constants

What a pool holds after any calls to `intern`, those it refuses among them: each constant
once, after the constants it is built from, as it was first spelled. Constants are equal if
they are built alike, and floating-point literals if they spell one number.
-/

namespace PointsTo

/-! ## Numbers and their spellings -/

namespace Decimal

variable {a b : Decimal}

/-- The number that a decimal spells. -/
def value (d : Decimal) : ℚ := d.coefficient * 10 ^ (-d.scale)

theorem length_digits_mul_pow {n : Nat} (h : 0 < n) (k : Nat) :
    (digits (n * 10 ^ k)).length = (digits n).length + k := by
  induction k with
  | zero => simp
  | succ k ih =>
    calc (digits (n * 10 ^ (k + 1))).length
        = (digits (10 * (n * 10 ^ k) + 0)).length := by
          rw [add_zero, pow_succ, ← mul_assoc, mul_comm 10]
      _ = (digits (n * 10 ^ k) ++ digits 0).length := by
          rw [digits, digits, digits,
            Nat.toDigits_append_toDigits (by decide) (by positivity) (by decide)]
      _ = (digits n).length + (k + 1) := by
          rw [List.length_append, ih]
          rfl

/-- Two spellings, brought to the larger of their scales. -/
theorem value_eq_iff : a.value = b.value ↔
    a.coefficient * (10 ^ (b.scale - a.scale).toNat : Nat) =
      b.coefficient * (10 ^ (a.scale - b.scale).toNat : Nat) := by
  have hscale (s t : Int) :
      (10 : ℚ) ^ (-s) = (10 ^ (t - s).toNat : Nat) * 10 ^ (-max s t) := by
    push_cast
    rw [← zpow_natCast, ← zpow_add₀ (by norm_num)]
    congr 1
    omega
  rw [value, value, hscale a.scale b.scale, hscale b.scale a.scale, max_comm b.scale,
    ← mul_assoc, ← mul_assoc, mul_left_inj' (by positivity)]
  norm_cast

/-- An equation between integers, up to positive factors, by sign and absolute value. -/
theorem mul_eq_mul_iff_sign {m n : Int} {p q : Nat} (hp : 0 < p) (hq : 0 < q) :
    m * p = n * q ↔ m.sign = n.sign ∧ m.natAbs * p = n.natAbs * q := by
  constructor
  · intro h
    have hsign := congrArg Int.sign h
    have habs := congrArg Int.natAbs h
    rw [Int.sign_mul, Int.sign_mul, Int.sign_natCast_of_ne_zero hp.ne',
      Int.sign_natCast_of_ne_zero hq.ne', mul_one, mul_one] at hsign
    rw [Int.natAbs_mul, Int.natAbs_mul, Int.natAbs_natCast, Int.natAbs_natCast] at habs
    exact ⟨hsign, habs⟩
  · rintro ⟨hsign, habs⟩
    rw [← Int.sign_mul_natAbs m, ← Int.sign_mul_natAbs n, hsign, mul_assoc, mul_assoc]
    exact congrArg _ (mod_cast habs)

/-- Numbers that agree on a common scale lead with the same power of ten. -/
theorem leading_eq (ha : a.coefficient ≠ 0) (hb : b.coefficient ≠ 0)
    (h : a.coefficient.natAbs * 10 ^ (b.scale - a.scale).toNat =
      b.coefficient.natAbs * 10 ^ (a.scale - b.scale).toNat) : a.leading = b.leading := by
  have hlength := congrArg (fun n => (digits n).length) h
  simp only [length_digits_mul_pow (Int.natAbs_pos.2 ha),
    length_digits_mul_pow (Int.natAbs_pos.2 hb)] at hlength
  unfold leading
  omega

theorem compareAbs_eq_iff (ha : a.coefficient ≠ 0) (hb : b.coefficient ≠ 0) :
    compareAbs a b = .eq ↔
      a.coefficient.natAbs * 10 ^ (b.scale - a.scale).toNat =
        b.coefficient.natAbs * 10 ^ (a.scale - b.scale).toNat := by
  rw [compareAbs, Ordering.then_eq_eq, compare_eq_iff_eq, compare_eq_iff_eq]
  exact and_iff_right_of_imp (leading_eq ha hb)

/-- Spellings are the same exactly if they spell one number. -/
theorem same_iff : a.same b = true ↔ a.value = b.value := by
  rw [value_eq_iff, mul_eq_mul_iff_sign (by positivity) (by positivity), same, beq_iff_eq,
    Decimal.compare, Ordering.then_eq_eq, compare_eq_iff_eq]
  refine and_congr_right fun hsign => ?_
  rcases lt_trichotomy a.coefficient 0 with ha | ha | ha
  · have hb : b.coefficient < 0 := by
      rwa [← Int.sign_eq_neg_one_iff_neg, ← hsign, Int.sign_eq_neg_one_iff_neg]
    rw [Int.sign_eq_neg_one_of_neg ha]
    exact (compareAbs_eq_iff hb.ne ha.ne).trans eq_comm
  · have hb : b.coefficient = 0 := by
      rwa [← Int.sign_eq_zero_iff_zero, ← hsign, Int.sign_eq_zero_iff_zero]
    simp [ha, hb]
  · have hb : 0 < b.coefficient := by
      rwa [← Int.sign_eq_one_iff_pos, ← hsign, Int.sign_eq_one_iff_pos]
    rw [Int.sign_eq_one_of_pos ha]
    exact compareAbs_eq_iff ha.ne' hb.ne'

end Decimal

/-! ## Equal constants -/

namespace Const

/-- Built alike, where floating-point literals of one type count by their number. -/
inductive Equal : Const → Const → Prop
  | refl (c : Const) : Equal c c
  | float (ty : FloatType) {a b : Decimal} (h : a.value = b.value) :
      Equal (.float ty a) (.float ty b)

variable {a b c : Const}

theorem same_iff : a.same b = true ↔ a.Equal b := by
  constructor
  · intro h
    unfold same at h
    split at h
    next t x t' y =>
      rw [Bool.and_eq_true, beq_iff_eq, Decimal.same_iff] at h
      obtain ⟨rfl, hvalue⟩ := h
      exact .float t hvalue
    next =>
      obtain rfl := beq_iff_eq.1 h
      exact .refl a
  · intro h
    cases h with
    | refl => cases a <;> simp [same, Decimal.same_iff]
    | float ty hvalue => simp [same, Decimal.same_iff, hvalue]

theorem Equal.symm (h : a.Equal b) : b.Equal a := by
  cases h with
  | refl => exact .refl a
  | float ty hvalue => exact .float ty hvalue.symm

theorem Equal.trans (h : a.Equal b) (h' : b.Equal c) : a.Equal c := by
  cases h with
  | refl => exact h'
  | float ty hvalue =>
    cases h' with
    | refl => exact .float ty hvalue
    | float ty hvalue' => exact .float ty (hvalue.trans hvalue')

theorem Equal.children_eq (h : a.Equal b) : a.children = b.children := by
  cases h with
  | refl => rfl
  | float ty hvalue => rfl

end Const

/-! ## One call -/

namespace ConstPool

variable {p : ConstPool} {types : TypeTable} {c : Const} {id : ConstId} {e : TypedConst}

/-- No two constants of the pool are equal. -/
def Distinct (p : ConstPool) : Prop := p.entries.Pairwise fun a b => ¬ a.value.Equal b.value

/-- The map of the pool leads to an id exactly if there is an equal constant under that id. -/
def Agrees (p : ConstPool) : Prop :=
  ∀ c id, p.find? c = some id ↔ ∃ e, p.get? id = some e ∧ e.value.Equal c

theorem agrees_empty : empty.Agrees := by
  intro c id
  simp [find?, get?, empty]

/-- An id of the map is the id of one constant, so equal constants are one. -/
theorem Agrees.distinct (h : p.Agrees) : p.Distinct := by
  rw [Distinct, List.pairwise_iff_getElem]
  intro i j hi hj hij hequal
  have hfind : p.find? p.entries[j].value = some ⟨i⟩ :=
    (h _ _).2 ⟨_, List.getElem?_eq_getElem hi, hequal⟩
  have hfind' : p.find? p.entries[j].value = some ⟨j⟩ :=
    (h _ _).2 ⟨_, List.getElem?_eq_getElem hj, .refl _⟩
  exact hij.ne (congrArg ConstId.index (Option.some.inj (hfind.symm.trans hfind')))

theorem find?_push (hchildren : ∀ d ∈ e.value.children, d.index < p.size) (c : Const) :
    (p.push e hchildren).find? c = if e.value.same c then some ⟨p.size⟩ else p.find? c := by
  simp only [find?, ConstPool.push, List.find?_cons]
  cases e.value.same c <;> rfl

theorem get?_push (hchildren : ∀ d ∈ e.value.children, d.index < p.size) (id : ConstId) :
    (p.push e hchildren).get? id = if id.index = p.size then some e else p.get? id := by
  rw [get?, ConstPool.push, size]
  rcases Nat.lt_trichotomy id.index p.entries.length with hlt | heq | hgt
  · rw [List.getElem?_append_left hlt, if_neg hlt.ne]
    rfl
  · rw [heq, List.getElem?_concat_length, if_pos rfl]
  · have hnone : p.entries[id.index]? = none := List.getElem?_eq_none hgt.le
    rw [if_neg hgt.ne', get?, hnone, List.getElem?_eq_none_iff, List.length_append]
    exact hgt

/-- The map and the entries go on agreeing when a constant enters both. -/
theorem Agrees.push (h : p.Agrees) (hfind : p.find? e.value = none)
    (hchildren : ∀ d ∈ e.value.children, d.index < p.size) : (p.push e hchildren).Agrees := by
  intro c id
  rw [find?_push, get?_push]
  by_cases hid : id.index = p.size
  · -- Under the new id there is the new constant alone.
    obtain ⟨i⟩ := id
    obtain rfl : i = p.size := hid
    have hold : p.find? c ≠ some ⟨p.size⟩ := by
      intro hc
      obtain ⟨e', he', -⟩ := (h c _).1 hc
      exact absurd (List.getElem?_eq_some_iff.1 he').1 (lt_irrefl _)
    by_cases hsame : e.value.same c = true
    · simp [hsame, Const.same_iff.1 hsame]
    · simp [hsame, hold, ← Const.same_iff]
  · rw [if_neg hid]
    split
    next hsame =>
      -- An equal constant under another id would have been found for the new one.
      have hne : ConstId.mk p.size ≠ id := fun heq => hid (congrArg ConstId.index heq).symm
      simp only [Option.some.injEq, hne, false_iff, not_exists, not_and]
      intro e' he' hequal
      have hfound : p.find? e.value = some id :=
        (h _ _).2 ⟨e', he', hequal.trans (Const.same_iff.1 hsame).symm⟩
      cases hfind.symm.trans hfound
    next => exact h c id

/-- The first of the constants that `c` is built from and that the pool does not have. -/
def Lacks (p : ConstPool) (c : Const) (d : ConstId) : Prop :=
  ∃ before after, c.children = before ++ d :: after ∧
    (∀ b ∈ before, b.index < p.size) ∧ p.size ≤ d.index

theorem missingChild?_eq_some_iff {d : ConstId} : p.missingChild? c = some d ↔ p.Lacks c d := by
  rw [missingChild?, List.find?_eq_some_iff_append, Lacks]
  constructor
  · rintro ⟨hd, before, after, hchildren, hbefore⟩
    exact ⟨before, after, hchildren, by simpa using hbefore, by simpa using hd⟩
  · rintro ⟨before, after, hchildren, hbefore, hd⟩
    exact ⟨by simpa using hd, before, after, hchildren, by simpa using hbefore⟩

/-- What a constant of the pool is built from is there before it. -/
theorem index_lt_of_get? (h : p.get? id = some e) : ∀ d ∈ e.value.children, d.index < id.index :=
  p.grounded id.index e h

theorem Agrees.missingChild?_of_find? (hp : p.Agrees) (h : p.find? c = some id) :
    p.missingChild? c = none := by
  obtain ⟨e, he, hequal⟩ := (hp c id).1 h
  rw [missingChild?, List.find?_eq_none, ← hequal.children_eq]
  intro d hd
  have hlt := index_lt_of_get? he d hd
  have hid : id.index < p.size := (List.getElem?_eq_some_iff.1 he).1
  simpa using hlt.trans hid

/-- What a call does: the constant is there, or is added at the end, or is refused. -/
theorem intern_cases (p : ConstPool) (types : TypeTable) (c : Const) :
    (∃ id, p.find? c = some id ∧ p.intern types c = ⟨.ok id, p, types⟩) ∨
      (∃ h, p.find? c = none ∧ p.missingChild? c = none ∧ p.intern types c =
        ⟨.ok ⟨p.size⟩, p.push ⟨c, (typeOf types c).1⟩ h, (typeOf types c).2⟩) ∨
      ∃ d, p.find? c = none ∧ p.missingChild? c = some d ∧
        p.intern types c = ⟨.error (.undefinedConstant d), p, types⟩ := by
  unfold intern
  split
  next id hfind => exact .inl ⟨id, hfind, rfl⟩
  next hfind =>
    split
    next d hd => exact .inr (.inr ⟨d, hfind, hd, rfl⟩)
    next hnone => exact .inr (.inl ⟨index_lt_of_missingChild? hnone, hfind, hnone, rfl⟩)

theorem Agrees.exists_outcome_iff (hp : p.Agrees) :
    (∃ id, (p.intern types c).outcome = .ok id) ↔ p.missingChild? c = none := by
  rcases p.intern_cases types c with ⟨id, hfind, h⟩ | ⟨_, -, hnone, h⟩ | ⟨d, -, hd, h⟩
  · simp [h, hp.missingChild?_of_find? hfind]
  · simp [h, hnone]
  · simp [h, hd]

theorem Agrees.outcome_eq_error_iff (hp : p.Agrees) {fault : Fault} :
    (p.intern types c).outcome = .error fault ↔
      ∃ d, p.Lacks c d ∧ fault = .undefinedConstant d := by
  simp only [← missingChild?_eq_some_iff]
  rcases p.intern_cases types c with ⟨id, hfind, h⟩ | ⟨_, -, hnone, h⟩ | ⟨d, -, hd, h⟩
  · simp [h, hp.missingChild?_of_find? hfind]
  · simp [h, hnone]
  · simp [h, hd, eq_comm]

/-- A call that is refused gives the pool and the types back as they were. -/
theorem intern_of_error {fault : Fault} (h : (p.intern types c).outcome = .error fault) :
    p.intern types c = ⟨.error fault, p, types⟩ := by
  rcases p.intern_cases types c with ⟨id, -, heq⟩ | ⟨_, -, -, heq⟩ | ⟨d, -, -, heq⟩ <;>
    rw [heq] at h ⊢ <;> cases h
  rfl

theorem Agrees.intern (h : p.Agrees) (types : TypeTable) (c : Const) :
    (p.intern types c).pool.Agrees := by
  rcases p.intern_cases types c with ⟨id, -, heq⟩ | ⟨hchildren, hfind, -, heq⟩ | ⟨d, -, -, heq⟩
  · rwa [heq]
  · rw [heq]
    exact h.push hfind hchildren
  · rwa [heq]

theorem prefix_intern (p : ConstPool) (types : TypeTable) (c : Const) :
    p.entries <+: (p.intern types c).pool.entries := by
  rcases p.intern_cases types c with ⟨id, -, heq⟩ | ⟨hchildren, -, -, heq⟩ | ⟨d, -, -, heq⟩
  · rw [heq]
  · rw [heq]
    exact List.prefix_append _ _
  · rw [heq]

/-- The id that a constant gets is the id of an equal constant: of itself, if it is new. -/
theorem Agrees.exists_get?_of_outcome (hp : p.Agrees)
    (hid : (p.intern types c).outcome = .ok id) :
    ∃ e, (p.intern types c).pool.get? id = some e ∧ e.value.Equal c ∧
      (p.find? c = none → e = ⟨c, (typeOf types c).1⟩) := by
  rcases p.intern_cases types c with ⟨id', hfind, heq⟩ | ⟨hchildren, -, -, heq⟩ | ⟨d, -, -, heq⟩
  · rw [heq] at hid ⊢
    cases hid
    obtain ⟨e, he, hequal⟩ := (hp c id).1 hfind
    exact ⟨e, he, hequal, by simp [hfind]⟩
  · rw [heq] at hid ⊢
    cases hid
    exact ⟨_, (get?_push hchildren _).trans (if_pos rfl), .refl c, fun _ => rfl⟩
  · rw [heq] at hid
    cases hid

theorem intern_of_find? (h : p.find? c = some id) : p.intern types c = ⟨.ok id, p, types⟩ := by
  simp [intern, h]

/-! ## All calls -/

/-- The pool after calls to `intern` with some tables of types, those that are refused among
them. -/
def internAll (p : ConstPool) (calls : List (TypeTable × Const)) : ConstPool :=
  calls.foldl (fun p call => (p.intern call.1 call.2).pool) p

theorem Agrees.internAll (h : p.Agrees) (calls : List (TypeTable × Const)) :
    (p.internAll calls).Agrees := by
  induction calls generalizing p with
  | nil => exact h
  | cons call rest ih => exact ih (h.intern call.1 call.2)

theorem prefix_internAll (p : ConstPool) (calls : List (TypeTable × Const)) :
    p.entries <+: (p.internAll calls).entries := by
  induction calls generalizing p with
  | nil => exact List.prefix_rfl
  | cons call rest ih => exact (p.prefix_intern call.1 call.2).trans (ih _)

/-- What is in the pool stays there, with its spelling and its type. -/
theorem get?_internAll (h : p.get? id = some e) (calls : List (TypeTable × Const)) :
    (p.internAll calls).get? id = some e := by
  obtain ⟨new, hnew⟩ := p.prefix_internAll calls
  have hlt : id.index < p.entries.length := (List.getElem?_eq_some_iff.1 h).1
  rw [get?, ← hnew, List.getElem?_append_left hlt]
  exact h

/-- An equal constant gets the same id after any calls, and nothing changes. -/
theorem Agrees.intern_again (h : p.Agrees) (hid : (p.intern types c).outcome = .ok id)
    (calls : List (TypeTable × Const)) (types' : TypeTable) {c' : Const} (hc : c.Equal c') :
    ((p.intern types c).pool.internAll calls).intern types' c' =
      ⟨.ok id, (p.intern types c).pool.internAll calls, types'⟩ := by
  obtain ⟨e, he, hequal, -⟩ := h.exists_get?_of_outcome hid
  refine intern_of_find? (((h.intern types c).internAll calls c' id).2 ?_)
  exact ⟨e, get?_internAll he calls, hequal.trans hc⟩

end ConstPool

theorem Build.run_get_bind {α : Type} (f : Builder → Build α) (b : Builder) :
    (get >>= f : Build α).run.run b = (f b).run.run b := rfl

/-- A refusal leaves all that has been built as it is. -/
theorem Build.run_constant_of_error {b : Builder} {c : Const} {fault : Fault}
    (h : (b.unit.constants.intern b.types c).outcome = .error fault) :
    (Build.constant c).run.run b = (.error fault, b) := by
  have hquiet : b.unit.constants.internNotices b.types c = [] := by
    rcases b.unit.constants.intern_cases b.types c with
      ⟨id, hfind, heq⟩ | ⟨_, -, -, heq⟩ | ⟨d, hfind, hd, heq⟩
    · simp [heq] at h
    · simp [heq] at h
    · simp [ConstPool.internNotices, hfind, hd]
  rw [Build.constant, run_get_bind]
  simp only [ConstPool.intern_of_error h, hquiet]
  rfl

/-! ## Walks over a pool -/

/-- What the walks over the constants of a module do, with no bound on their depth. -/
structure Module.Unbounded (m : Module) : Prop where
  wellFounded : WellFounded fun d c => d ∈ m.constantChildren c
  visit (marks : List Mark) (c : ConstId) : m.visit m.constantDepth marks c =
    if !(m.constantValue c).isConstant || marks.contains (.leave c) then marks
    else (m.constantChildren c).foldl (m.visit m.constantDepth) (marks ++ [.enter c]) ++ [.leave c]
  register (r : Registering) (c : ConstId) : r.constant m m.constantDepth c =
    if r.objects.contains (m.constantValue c) then r
    else ((m.constantChildren c).foldl (Registering.constant m m.constantDepth) r).register
      (m.constantValue c) 0

theorem Module.unbounded (m : Module) : m.Unbounded where
  wellFounded := Subrelation.wf (fun h => index_lt_of_mem_constantChildren h)
    (InvImage.wf ConstId.index Nat.lt_wfRel.wf)
  visit marks c := by
    have hwithin : m.Within (m.constantDepth + 1) c :=
      ⟨Nat.succ_pos _, (within_constantDepth c).2.imp_left Nat.lt_succ_of_lt⟩
    rw [visit_eq_of_within (within_constantDepth c) hwithin]
    rfl
  register r c := by
    have hwithin : m.Within (m.constantDepth + 1) c :=
      ⟨Nat.succ_pos _, (within_constantDepth c).2.imp_left Nat.lt_succ_of_lt⟩
    rw [Registering.constant_eq_of_within (within_constantDepth c) hwithin]
    rfl

namespace ConstPool

/-- A pool in which each constant has one id, for good. -/
structure Faithful (p : ConstPool) : Prop where
  distinct : p.Distinct
  /-- The map of the pool leads to an id exactly if there is an equal constant under that id. -/
  find?_iff (c : Const) (id : ConstId) :
    p.find? c = some id ↔ ∃ e, p.get? id = some e ∧ e.value.Equal c
  /-- While there are no more constants than 32-bit words, ids are such words: cutting them down
  to 32 bits changes none of them. -/
  word (h : p.size ≤ idLimit) (id : ConstId) (e : TypedConst) :
    p.get? id = some e → id.index % idLimit = id.index
  children_lt (id : ConstId) (e : TypedConst) :
    p.get? id = some e → ∀ d ∈ e.value.children, d.index < id.index
  unbounded (m : Module) : m.constants = p → m.Unbounded
  accepts (types : TypeTable) (c : Const) :
    (∃ id, (p.intern types c).outcome = .ok id) ↔ ∀ d ∈ c.children, d.index < p.size
  refuses (types : TypeTable) (c : Const) (fault : Fault) :
    (p.intern types c).outcome = .error fault ↔ ∃ d, p.Lacks c d ∧ fault = .undefinedConstant d
  /-- A call that is refused changes neither the pool nor the types. -/
  unchanged (types : TypeTable) (c : Const) (fault : Fault) :
    (p.intern types c).outcome = .error fault → p.intern types c = ⟨.error fault, p, types⟩
  /-- Nor does it change anything else that has been built. -/
  builder_unchanged (b : Builder) (c : Const) (fault : Fault) : b.unit.constants = p →
    (p.intern b.types c).outcome = .error fault → (Build.constant c).run.run b = (.error fault, b)
  holds (types : TypeTable) (c : Const) (id : ConstId) : (p.intern types c).outcome = .ok id →
    ∃ e, (p.intern types c).pool.get? id = some e ∧ e.value.Equal c ∧
      (p.find? c = none → e = ⟨c, (typeOf types c).1⟩)
  again (types : TypeTable) (c : Const) (id : ConstId) : (p.intern types c).outcome = .ok id →
    ∀ calls types' c', c.Equal c' → ((p.intern types c).pool.internAll calls).intern types' c' =
      ⟨.ok id, (p.intern types c).pool.internAll calls, types'⟩
  keeps (id : ConstId) (e : TypedConst) : p.get? id = some e →
    ∀ calls, (p.internAll calls).get? id = some e

/-- A pool that was filled by interning, whatever was asked for, has each constant once under
one id, and can be walked over. -/
theorem faithful_internAll (calls : List (TypeTable × Const)) :
    (empty.internAll calls).Faithful := by
  have hagrees : (empty.internAll calls).Agrees := agrees_empty.internAll calls
  constructor
  case distinct => exact hagrees.distinct
  case find?_iff => exact hagrees
  case word =>
    intro hfit id e he
    exact Nat.mod_eq_of_lt ((List.getElem?_eq_some_iff.1 he).1.trans_le hfit)
  case children_lt => exact fun id e he => index_lt_of_get? he
  case unbounded => exact fun m _ => m.unbounded
  case accepts =>
    intro types c
    rw [hagrees.exists_outcome_iff]
    simp [missingChild?]
  case refuses => exact fun types c fault => hagrees.outcome_eq_error_iff
  case unchanged => exact fun types c fault hfault => intern_of_error hfault
  case builder_unchanged =>
    intro b c fault hb hfault
    rw [← hb] at hfault
    exact Build.run_constant_of_error hfault
  case holds => exact fun types c id hid => hagrees.exists_get?_of_outcome hid
  case again =>
    intro types c id hid calls types' c' hc
    exact hagrees.intern_again hid calls types' hc
  case keeps => exact fun id e he calls => get?_internAll he calls

end ConstPool

end PointsTo
