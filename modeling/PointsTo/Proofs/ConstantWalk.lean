import Mathlib
import PointsTo.Extract.Tour

/-!
# The walk over constants

A walk to some constants ends exactly those that they are built from, symbols left
out, and ends each of them once. Constants are built from constants before them, so
the bound on the depth of a walk never cuts it short.
-/

namespace PointsTo

/-- The constant that a mark is about. -/
def Mark.subject : Mark → ConstId
  | .enter c => c
  | .leave c => c

namespace Module

variable {m : Module}

/-! ## What a constant is built from -/

theorem index_lt_of_mem_constantChildren {c d : ConstId} (h : d ∈ m.constantChildren c) :
    d.index < c.index := by
  unfold constantChildren at h
  cases he : m.constants.get? c with
  | none => simp [he] at h
  | some e => exact m.constants.grounded c.index e he d (by simpa [he] using h)

theorem constantChildren_eq_nil {c : ConstId} (h : m.constants.get? c = none) :
    m.constantChildren c = [] := by
  simp [constantChildren, h]

/-- Symbols are not built from constants. -/
theorem constantChildren_of_not_isConstant {c : ConstId}
    (h : (m.constantValue c).isConstant = false) : m.constantChildren c = [] := by
  unfold constantValue at h
  unfold constantChildren
  cases he : m.constants.get? c with
  | none => rfl
  | some e => cases hv : e.value <;> simp_all [Const.children, Value.isConstant]

/-- A value that is a constant is that of the constant itself. -/
theorem constantValue_of_isConstant {c : ConstId} (h : (m.constantValue c).isConstant = true) :
    m.constantValue c = .constant c := by
  unfold constantValue at h ⊢
  split <;> simp_all [Value.isConstant]

/-- The second constant is the first, or the first is built from it, at any depth. -/
def Reaches (m : Module) : ConstId → ConstId → Prop :=
  Relation.ReflTransGen fun c d => d ∈ m.constantChildren c

theorem Reaches.index_le {c d : ConstId} (h : m.Reaches c d) : d.index ≤ c.index := by
  induction h with
  | refl => exact le_refl _
  | tail _ hchild ih => exact (index_lt_of_mem_constantChildren hchild).le.trans ih

theorem Reaches.of_child {c d e : ConstId} (hd : d ∈ m.constantChildren c) (h : m.Reaches d e) :
    m.Reaches c e :=
  Relation.ReflTransGen.head hd h

theorem reaches_iff {c e : ConstId} :
    m.Reaches c e ↔ e = c ∨ ∃ d ∈ m.constantChildren c, m.Reaches d e := by
  unfold Reaches
  rw [Relation.ReflTransGen.cases_head_iff]
  exact or_congr_left eq_comm

/-! ## What a walk adds -/

/-- A walk to several constants. -/
def visitAll (m : Module) (depth : Nat) (marks : List Mark) (ids : List ConstId) : List Mark :=
  ids.foldl (m.visit depth) marks

@[simp] theorem visitAll_nil (depth : Nat) (marks : List Mark) :
    m.visitAll depth marks [] = marks := rfl

@[simp] theorem visitAll_cons (depth : Nat) (marks : List Mark) (c : ConstId)
    (ids : List ConstId) :
    m.visitAll depth marks (c :: ids) = m.visitAll depth (m.visit depth marks c) ids := rfl

theorem visitAll_append (depth : Nat) (marks : List Mark) (ids ids' : List ConstId) :
    m.visitAll depth marks (ids ++ ids') =
      m.visitAll depth (m.visitAll depth marks ids) ids' := by
  simp [visitAll]

/-- A constant is passed over, or it is walked through between its two marks. -/
theorem visit_succ_cases (depth : Nat) (marks : List Mark) (c : ConstId) :
    (((m.constantValue c).isConstant = false ∨ .leave c ∈ marks) ∧
        m.visit (depth + 1) marks c = marks) ∨
      ((m.constantValue c).isConstant = true ∧ .leave c ∉ marks ∧
        m.visit (depth + 1) marks c =
          m.visitAll depth (marks ++ [.enter c]) (m.constantChildren c) ++ [.leave c]) := by
  simp only [visit]
  by_cases hc : (m.constantValue c).isConstant = true
  · by_cases hl : .leave c ∈ marks
    · simp [hl]
    · simp [hc, hl, visitAll]
  · simp [hc]

/-- The marks that a walk to `ids` adds to `marks`. -/
structure Adds (m : Module) (ids : List ConstId) (marks new : List Mark) : Prop where
  reaches : ∀ mark ∈ new, ∃ c ∈ ids, m.Reaches c mark.subject
  isConstant : ∀ mark ∈ new, (m.constantValue mark.subject).isConstant = true
  balanced : ∀ c, .enter c ∈ new ↔ .leave c ∈ new
  fresh : ∀ c, .leave c ∈ new → .leave c ∉ marks
  nodup : (new.filterMap Mark.left?).Nodup

theorem mem_filterMap_left? {marks : List Mark} {c : ConstId} :
    c ∈ marks.filterMap Mark.left? ↔ .leave c ∈ marks := by
  rw [List.mem_filterMap]
  constructor
  · rintro ⟨mark, hm, hc⟩
    cases mark with
    | enter d => cases hc
    | leave d => cases hc; exact hm
  · exact fun h => ⟨_, h, rfl⟩

theorem Adds.nil (ids : List ConstId) (marks : List Mark) : m.Adds ids marks [] where
  reaches := by simp
  isConstant := by simp
  balanced := by simp
  fresh := by simp
  nodup := by simp

theorem Adds.append {ids ids' : List ConstId} {marks new new' : List Mark}
    (h : m.Adds ids marks new) (h' : m.Adds ids' (marks ++ new) new') :
    m.Adds (ids ++ ids') marks (new ++ new') where
  reaches mark hm := by
    rcases List.mem_append.1 hm with hm | hm
    · obtain ⟨c, hc, hr⟩ := h.reaches mark hm
      exact ⟨c, List.mem_append_left _ hc, hr⟩
    · obtain ⟨c, hc, hr⟩ := h'.reaches mark hm
      exact ⟨c, List.mem_append_right _ hc, hr⟩
  isConstant mark hm := (List.mem_append.1 hm).elim (h.isConstant mark) (h'.isConstant mark)
  balanced c := by simp only [List.mem_append, h.balanced, h'.balanced]
  fresh c hc := by
    rcases List.mem_append.1 hc with hc | hc
    · exact h.fresh c hc
    · exact fun hm => h'.fresh c hc (List.mem_append_left _ hm)
  nodup := by
    rw [List.filterMap_append, List.nodup_append]
    refine ⟨h.nodup, h'.nodup, fun c hc d hd hcd => ?_⟩
    subst hcd
    exact h'.fresh c (mem_filterMap_left?.1 hd)
      (List.mem_append_right _ (mem_filterMap_left?.1 hc))

/-- A walk through a constant: its start, the walk to its children, its end. -/
theorem Adds.through {c : ConstId} {marks new : List Mark}
    (hc : (m.constantValue c).isConstant = true) (hl : .leave c ∉ marks)
    (h : m.Adds (m.constantChildren c) (marks ++ [.enter c]) new) :
    m.Adds [c] marks (.enter c :: new ++ [.leave c]) := by
  -- The children come before `c`, so no walk to them can end it.
  have hnew : .leave c ∉ new := by
    intro hm
    obtain ⟨d, hd, hr⟩ := h.reaches _ hm
    have hle : c.index ≤ d.index := hr.index_le
    have hlt := index_lt_of_mem_constantChildren hd
    omega
  constructor
  · intro mark hm
    refine ⟨c, List.mem_singleton_self c, ?_⟩
    simp only [List.cons_append, List.mem_cons, List.mem_append, List.not_mem_nil,
      or_false] at hm
    rcases hm with rfl | hm | rfl
    · exact .refl
    · obtain ⟨d, hd, hr⟩ := h.reaches mark hm
      exact .of_child hd hr
    · exact .refl
  · intro mark hm
    simp only [List.cons_append, List.mem_cons, List.mem_append, List.not_mem_nil,
      or_false] at hm
    rcases hm with rfl | hm | rfl
    · exact hc
    · exact h.isConstant mark hm
    · exact hc
  · intro d
    by_cases hd : d = c
    · simp [hd]
    · simp [hd, h.balanced]
  · intro d hd
    simp only [List.cons_append, List.mem_cons, reduceCtorEq, List.mem_append, Mark.leave.injEq,
      List.not_mem_nil, or_false, false_or] at hd
    rcases hd with hd | rfl
    · exact fun hm => h.fresh d hd (List.mem_append_left _ hm)
    · exact hl
  · have hleft : (Mark.enter c :: new ++ [Mark.leave c]).filterMap Mark.left? =
        new.filterMap Mark.left? ++ [c] := by
      rw [List.cons_append, List.filterMap_cons_none rfl, List.filterMap_append]
      rfl
    rw [hleft, List.nodup_append]
    refine ⟨h.nodup, List.nodup_singleton c, fun d hd e he hde => ?_⟩
    rw [List.mem_singleton] at he
    subst hde he
    exact hnew (mem_filterMap_left?.1 hd)

theorem visitAll_adds_of {depth : Nat}
    (h : ∀ marks c, ∃ new, m.visit depth marks c = marks ++ new ∧ m.Adds [c] marks new)
    (marks : List Mark) (ids : List ConstId) :
    ∃ new, m.visitAll depth marks ids = marks ++ new ∧ m.Adds ids marks new := by
  induction ids generalizing marks with
  | nil => exact ⟨[], by simp, .nil _ _⟩
  | cons c ids ih =>
    obtain ⟨new, hnew, ha⟩ := h marks c
    obtain ⟨new', hnew', ha'⟩ := ih (marks ++ new)
    exact ⟨new ++ new', by rw [visitAll_cons, hnew, hnew', List.append_assoc], ha.append ha'⟩

/-- What a walk to a constant adds, whatever its depth. -/
theorem visit_adds (depth : Nat) (marks : List Mark) (c : ConstId) :
    ∃ new, m.visit depth marks c = marks ++ new ∧ m.Adds [c] marks new := by
  induction depth generalizing marks c with
  | zero => exact ⟨[], by simp [visit], .nil _ _⟩
  | succ depth ih =>
    rcases visit_succ_cases (m := m) depth marks c with ⟨-, hv⟩ | ⟨hc, hl, hv⟩
    · exact ⟨[], by simp [hv], .nil _ _⟩
    · obtain ⟨new, hnew, ha⟩ := visitAll_adds_of ih (marks ++ [.enter c]) (m.constantChildren c)
      exact ⟨.enter c :: new ++ [.leave c], by rw [hv, hnew]; simp, ha.through hc hl⟩

theorem visitAll_adds (depth : Nat) (marks : List Mark) (ids : List ConstId) :
    ∃ new, m.visitAll depth marks ids = marks ++ new ∧ m.Adds ids marks new :=
  visitAll_adds_of (visit_adds depth) marks ids

/-! ## Where a walk leads -/

/-- Of a constant that has ended, all that it is built from has ended. -/
def Closed (m : Module) (marks : List Mark) : Prop :=
  ∀ c, .leave c ∈ marks → ∀ d, m.Reaches c d → (m.constantValue d).isConstant = true →
    .leave d ∈ marks

theorem Closed.enter {marks : List Mark} (h : m.Closed marks) (c : ConstId) :
    m.Closed (marks ++ [.enter c]) := by
  intro d hd e hr he
  have hd' : .leave d ∈ marks := by simpa using hd
  exact List.mem_append_left _ (h d hd' e hr he)

/-- A depth that is enough for a constant. -/
def Within (m : Module) (depth : Nat) (c : ConstId) : Prop :=
  0 < depth ∧ (c.index < depth ∨ m.constants.get? c = none)

theorem within_constantDepth (c : ConstId) : m.Within m.constantDepth c := by
  refine ⟨Nat.succ_pos _, ?_⟩
  rcases Nat.lt_or_ge c.index m.constants.size with h | h
  · exact .inl (h.trans (Nat.lt_succ_self _))
  · exact .inr (List.getElem?_eq_none h)

theorem Within.mono {depth depth' : Nat} {c : ConstId} (h : m.Within depth c)
    (hle : depth ≤ depth') : m.Within depth' c :=
  ⟨h.1.trans_le hle, h.2.imp_left fun hlt => hlt.trans_le hle⟩

theorem Within.child {depth : Nat} {c d : ConstId} (h : m.Within (depth + 1) c)
    (hd : d ∈ m.constantChildren c) : m.Within depth d := by
  have hlt := index_lt_of_mem_constantChildren hd
  rcases h.2 with h | h
  · exact ⟨by omega, .inl (by omega)⟩
  · simp [constantChildren_eq_nil h] at hd

/-- Depths that are enough make no difference to a walk. -/
theorem visit_eq_of_within {depth depth' : Nat} {c : ConstId} (h : m.Within depth c)
    (h' : m.Within depth' c) (marks : List Mark) :
    m.visit depth marks c = m.visit depth' marks c := by
  induction depth generalizing depth' marks c with
  | zero => exact absurd h.1 (lt_irrefl 0)
  | succ depth ih =>
    cases depth' with
    | zero => exact absurd h'.1 (lt_irrefl 0)
    | succ depth' =>
      have hchildren : (m.constantChildren c).foldl (m.visit depth) (marks ++ [.enter c]) =
          (m.constantChildren c).foldl (m.visit depth') (marks ++ [.enter c]) :=
        List.foldl_ext _ _ _ fun marks d hd => ih (h.child hd) (h'.child hd) marks
      simp only [visit, hchildren]

/-- The walk has ended what a constant is built from, and whatever else it has ended. -/
def Complete (m : Module) (marks : List Mark) (c : ConstId) : Prop :=
  ∀ d, m.Reaches c d → (m.constantValue d).isConstant = true → .leave d ∈ marks

theorem Complete.mono {marks marks' : List Mark} {c : ConstId} (h : m.Complete marks c)
    (hsub : marks ⊆ marks') : m.Complete marks' c :=
  fun d hr hd => hsub (h d hr hd)

theorem visitAll_complete_of {depth : Nat}
    (h : ∀ marks c, m.Closed marks → m.Within depth c →
      m.Closed (m.visit depth marks c) ∧ m.Complete (m.visit depth marks c) c)
    {marks : List Mark} {ids : List ConstId} (hm : m.Closed marks)
    (hids : ∀ c ∈ ids, m.Within depth c) :
    m.Closed (m.visitAll depth marks ids) ∧
      ∀ c ∈ ids, m.Complete (m.visitAll depth marks ids) c := by
  induction ids generalizing marks with
  | nil => exact ⟨hm, by simp⟩
  | cons c ids ih =>
    rw [List.forall_mem_cons] at hids
    obtain ⟨hclosed, hcomplete⟩ := h marks c hm hids.1
    obtain ⟨hclosed', hcomplete'⟩ := ih hclosed hids.2
    refine ⟨hclosed', List.forall_mem_cons.2 ⟨?_, hcomplete'⟩⟩
    obtain ⟨new, hnew, -⟩ := visitAll_adds (m := m) depth (m.visit depth marks c) ids
    rw [visitAll_cons, hnew]
    exact hcomplete.mono (List.subset_append_left _ _)

/-- A walk with enough depth ends all that the constant is built from. -/
theorem visit_complete {depth : Nat} {marks : List Mark} {c : ConstId} (hm : m.Closed marks)
    (hc : m.Within depth c) :
    m.Closed (m.visit depth marks c) ∧ m.Complete (m.visit depth marks c) c := by
  induction depth generalizing marks c with
  | zero => exact absurd hc.1 (lt_irrefl 0)
  | succ depth ih =>
    rcases visit_succ_cases (m := m) depth marks c with ⟨hpass, hv⟩ | ⟨hconst, -, hv⟩
    · rw [hv]
      refine ⟨hm, fun d hr hd => ?_⟩
      rcases hpass with hsymbol | hleft
      · obtain rfl | ⟨e, he, -⟩ := reaches_iff.1 hr
        · simp [hsymbol] at hd
        · simp [constantChildren_of_not_isConstant hsymbol] at he
      · exact hm c hleft d hr hd
    · have hstart := hm.enter c
      obtain ⟨hclosed, hchildren⟩ := visitAll_complete_of (fun _ _ => ih) hstart
        fun d hd => hc.child hd
      have hcomplete : m.Complete (m.visit (depth + 1) marks c) c := by
        intro d hr hd
        rw [hv]
        obtain rfl | ⟨e, he, hr⟩ := reaches_iff.1 hr
        · simp
        · exact List.mem_append_left _ (hchildren e he d hr hd)
      refine ⟨fun d hd e hr he => ?_, hcomplete⟩
      rw [hv] at hd
      rcases List.mem_append.1 hd with hd | hd
      · rw [hv]
        exact List.mem_append_left _ (hclosed d hd e hr he)
      · obtain rfl : d = c := by simpa using hd
        exact hcomplete e hr he

/-! ## The order of a walk -/

/-- A constant ends after the constants that it is built from. -/
def Ordered (m : Module) (marks : List Mark) : Prop :=
  ∀ before c after, marks = before ++ .leave c :: after → ∀ d ∈ m.constantChildren c,
    (m.constantValue d).isConstant = true → .leave d ∈ before

theorem Ordered.enter {marks : List Mark} (h : m.Ordered marks) (c : ConstId) :
    m.Ordered (marks ++ [.enter c]) := by
  intro before d after heq
  -- The last mark is no end, so the end of `d` stands in `marks`.
  rcases List.eq_nil_or_concat after with rfl | ⟨after, last, rfl⟩
  · have hlast := (List.append_inj' heq rfl).2
    cases hlast
  · rw [List.concat_eq_append, ← List.cons_append, ← List.append_assoc] at heq
    exact h before d after (List.append_inj' heq rfl).1

theorem Ordered.leave {marks : List Mark} (h : m.Ordered marks) {c : ConstId}
    (hc : ∀ d ∈ m.constantChildren c, (m.constantValue d).isConstant = true → .leave d ∈ marks) :
    m.Ordered (marks ++ [.leave c]) := by
  intro before d after heq
  rcases List.eq_nil_or_concat after with rfl | ⟨after, last, rfl⟩
  · obtain ⟨rfl, hlast⟩ := List.append_inj' heq rfl
    cases hlast
    exact hc
  · rw [List.concat_eq_append, ← List.cons_append, ← List.append_assoc] at heq
    exact h before d after (List.append_inj' heq rfl).1

theorem visitAll_ordered_of {depth : Nat}
    (h : ∀ marks c, m.Closed marks → m.Within depth c → m.Ordered marks →
      m.Ordered (m.visit depth marks c))
    {marks : List Mark} {ids : List ConstId} (hm : m.Closed marks)
    (hids : ∀ c ∈ ids, m.Within depth c) (ho : m.Ordered marks) :
    m.Ordered (m.visitAll depth marks ids) := by
  induction ids generalizing marks with
  | nil => exact ho
  | cons c ids ih =>
    rw [List.forall_mem_cons] at hids
    exact ih (visit_complete hm hids.1).1 hids.2 (h marks c hm hids.1 ho)

/-- A walk with enough depth keeps the order. -/
theorem visit_ordered {depth : Nat} {marks : List Mark} {c : ConstId} (hm : m.Closed marks)
    (hc : m.Within depth c) (ho : m.Ordered marks) : m.Ordered (m.visit depth marks c) := by
  induction depth generalizing marks c with
  | zero => exact absurd hc.1 (lt_irrefl 0)
  | succ depth ih =>
    rcases visit_succ_cases (m := m) depth marks c with ⟨-, hv⟩ | ⟨-, -, hv⟩
    · rwa [hv]
    · have hstart := hm.enter c
      have hchildren := (visitAll_complete_of (fun _ _ => visit_complete) hstart
        fun d hd => hc.child hd).2
      rw [hv]
      refine (visitAll_ordered_of (fun _ _ => ih) hstart (fun d hd => hc.child hd)
        (ho.enter c)).leave ?_
      exact fun d hd => hchildren d hd d .refl

/-- The marks of a walk from nothing to some constants. -/
def marksOf (m : Module) (ids : List ConstId) : List Mark := m.visitAll m.constantDepth [] ids

theorem adds_marksOf (ids : List ConstId) : m.Adds ids [] (m.marksOf ids) := by
  obtain ⟨new, hnew, ha⟩ := visitAll_adds (m := m) m.constantDepth [] ids
  rw [marksOf, hnew, List.nil_append]
  exact ha

theorem ordered_marksOf (ids : List ConstId) : m.Ordered (m.marksOf ids) :=
  visitAll_ordered_of (fun _ _ => visit_ordered) (by simp [Closed])
    (fun c _ => within_constantDepth c) (by simp [Ordered])

/-- A walk ends exactly the constants that it leads to, symbols left out. -/
theorem leave_mem_marksOf_iff {ids : List ConstId} {d : ConstId} :
    .leave d ∈ m.marksOf ids ↔
      (m.constantValue d).isConstant = true ∧ ∃ c ∈ ids, m.Reaches c d := by
  constructor
  · intro h
    exact ⟨(adds_marksOf ids).isConstant _ h, (adds_marksOf ids).reaches _ h⟩
  · rintro ⟨hd, c, hc, hr⟩
    have hall : m.Closed (m.marksOf ids) ∧ ∀ c ∈ ids, m.Complete (m.marksOf ids) c :=
      visitAll_complete_of (fun _ _ => visit_complete) (by simp [Closed])
        fun c _ => within_constantDepth c
    exact hall.2 c hc d hr hd

end Module

end PointsTo
