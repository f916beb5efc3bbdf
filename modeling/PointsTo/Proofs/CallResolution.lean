import Mathlib
import PointsTo.Call.Models

/-!
# Models that recognise one call

Any number of models may recognise a call. If the first is to take it, the answer is the first of
them; if such calls are refused, there is an answer only where the first is also the last, and it
is the same. A refusal names them all, in the order in which they are tried.

The search tries one model after the other and may end early, with an answer or with a refusal.
`resolve_eq_answer` says what it comes to in terms of all models that recognise the call.
-/

namespace PointsTo.CallModels

variable {s : CallModels} {models : List CallModel} {site : CallSite} {p n : Nat}

/-- The model at a position recognises the call and gives it `count` objects. -/
def Recognizes (models : List CallModel) (site : CallSite) (position count : Nat) : Prop :=
  ∃ model, models[position]? = some model ∧ model.recognize site = some count

/-! ## The models that recognise a call, in order -/

/-- Those of some models that recognise a call, by position, with the number of objects each
gives the call. -/
def candidatesOf (site : CallSite) (models : List (CallModel × Nat)) : List (Nat × Nat) :=
  models.filterMap fun e => (e.1.recognize site).map fun affiliated => (e.2, affiliated)

/-- The models that recognise a call. -/
def candidates (s : CallModels) (site : CallSite) : List (Nat × Nat) :=
  candidatesOf site s.models.zipIdx

theorem mem_candidates_iff :
    (p, n) ∈ s.candidates site ↔ Recognizes s.models site p n := by
  unfold candidates candidatesOf Recognizes
  rw [List.mem_filterMap]
  constructor
  · rintro ⟨⟨model, position⟩, hmem, hrec⟩
    obtain ⟨count, hcount, heq⟩ := Option.map_eq_some_iff.1 hrec
    obtain ⟨rfl, rfl⟩ := Prod.mk.inj heq
    exact ⟨model, List.mk_mem_zipIdx_iff_getElem?.1 hmem, hcount⟩
  · rintro ⟨model, hmodel, hrec⟩
    exact ⟨(model, p), List.mk_mem_zipIdx_iff_getElem?.2 hmodel, by simp [hrec]⟩

theorem candidates_pairwise (s : CallModels) (site : CallSite) :
    (s.candidates site).Pairwise fun a b => a.1 < b.1 := by
  have hpositions : s.models.zipIdx.Pairwise fun a b => a.2 < b.2 := by
    rw [← List.pairwise_map (f := Prod.snd) (R := (· < ·)), List.zipIdx_map_snd]
    exact List.pairwise_lt_range' 1 (by decide)
  unfold candidates candidatesOf
  rw [List.pairwise_filterMap]
  refine hpositions.imp fun {a b} hlt c hc d hd => ?_
  obtain ⟨_, -, rfl⟩ := Option.map_eq_some_iff.1 hc
  obtain ⟨_, -, rfl⟩ := Option.map_eq_some_iff.1 hd
  exact hlt

theorem candidates_eq_nil_iff :
    s.candidates site = [] ↔ ∀ p n, ¬ Recognizes s.models site p n := by
  simp only [List.eq_nil_iff_forall_not_mem, Prod.forall, mem_candidates_iff]

/-- The candidate that comes first has the smallest position. -/
theorem head?_candidates_eq_some_iff : (s.candidates site).head? = some (p, n) ↔
    Recognizes s.models site p n ∧ ∀ q < p, ∀ k, ¬ Recognizes s.models site q k := by
  have hsorted := s.candidates_pairwise site
  simp only [← mem_candidates_iff]
  generalize s.candidates site = l at hsorted
  cases l with
  | nil => simp
  | cons first rest =>
    obtain ⟨hfirst, -⟩ := List.pairwise_cons.1 hsorted
    rw [List.head?_cons, Option.some_inj]
    constructor
    · rintro rfl
      refine ⟨List.mem_cons_self, fun q hq k hmem => ?_⟩
      rcases List.mem_cons.1 hmem with heq | hrest
      · cases heq
        exact lt_irrefl _ hq
      · exact lt_asymm hq (hfirst _ hrest)
    · rintro ⟨hmem, hleast⟩
      rcases List.mem_cons.1 hmem with heq | hrest
      · exact heq.symm
      · exact absurd List.mem_cons_self (hleast _ (hfirst _ hrest) _)

/-- There is at most one candidate if no two positions have one. -/
theorem length_candidates_le_one_iff : (s.candidates site).length ≤ 1 ↔
    ∀ p q n k, Recognizes s.models site p n → Recognizes s.models site q k → p = q := by
  have hsorted := s.candidates_pairwise site
  simp only [← mem_candidates_iff]
  generalize s.candidates site = l at hsorted
  rcases l with _ | ⟨a, _ | ⟨b, rest⟩⟩
  · simp
  · simp +contextual [Prod.ext_iff]
  · have hlt : a.1 < b.1 := (List.pairwise_cons.1 hsorted).1 b List.mem_cons_self
    refine iff_of_false (by simp) fun h => hlt.ne ?_
    exact h a.1 b.1 a.2 b.2 (by simp) (by simp)

/-! ## The names in a refusal -/

/-- The names are those of the models that recognise the call, in the order of the models. -/
def Names (models : List CallModel) (site : CallSite) (names : List String) : Prop :=
  ∃ positions : List Nat, positions.Pairwise (· < ·) ∧
    (∀ p, p ∈ positions ↔ ∃ n, Recognizes models site p n) ∧
    names.map some = positions.map fun p => models[p]?.map CallModel.name

theorem map_candidateNames (s : CallModels) (site : CallSite) :
    (s.candidateNames site).map some =
      ((s.candidates site).map Prod.fst).map fun p => s.models[p]?.map CallModel.name := by
  have hmodels : s.models = s.models.zipIdx.map Prod.fst := (List.zipIdx_map_fst 0 s.models).symm
  unfold candidateNames candidates candidatesOf
  conv_lhs => rw [hmodels]
  rw [List.filter_map, List.map_map, List.map_map, List.map_map, ← List.filterMap_eq_filter,
    List.map_filterMap, List.map_filterMap]
  refine List.filterMap_congr fun e he => ?_
  have he' : s.models[e.2]? = some e.1 := List.mk_mem_zipIdx_iff_getElem?.1 he
  cases hrec : e.1.recognize site <;> simp [Option.guard, hrec, he']

/-- The names in a refusal are the only ones that are as `Names` says. -/
theorem names_iff (s : CallModels) {names : List String} :
    Names s.models site names ↔ names = s.candidateNames site := by
  have hsorted : ((s.candidates site).map Prod.fst).Pairwise (· < ·) :=
    List.pairwise_map.2 (s.candidates_pairwise site)
  have hmem : ∀ p, p ∈ (s.candidates site).map Prod.fst ↔ ∃ n, Recognizes s.models site p n := by
    simp [mem_candidates_iff]
  constructor
  · rintro ⟨positions, hpositions, hall, hnames⟩
    have heq : positions = (s.candidates site).map Prod.fst :=
      hpositions.eq_of_mem_iff hsorted fun p => (hall p).trans (hmem p).symm
    rw [heq, ← map_candidateNames] at hnames
    exact List.map_injective_iff.2 (Option.some_injective String) hnames
  · rintro rfl
    exact ⟨_, hsorted, hmem, map_candidateNames s site⟩

/-! ## The search -/

/-- The answer for a call that these models recognise: the first of them, unless there are
several and such calls are refused. -/
def answer (s : CallModels) (site : CallSite) : List (Nat × Nat) →
    Except CallError (Option (Nat × Nat))
  | first :: _ :: _ =>
    if s.policy = .firstMatch then .ok (some first)
    else .error (.ambiguous site.calleeText (s.candidateNames site))
  | found => .ok found.head?

/-- What a search comes to, from any point on: the model that has the call counts with those
that are still to be tried. If the first is to take the call, none has it while the search goes
on. -/
theorem resolveFrom_eq (models : List (CallModel × Nat)) {found : Option (Nat × Nat)}
    (h : s.policy = .firstMatch → found = none) :
    s.resolveFrom site found models = s.answer site (found.toList ++ candidatesOf site models) := by
  induction models generalizing found with
  | nil => cases found <;> rfl
  | cons e rest ih =>
    obtain ⟨model, position⟩ := e
    cases hrec : model.recognize site with
    | none =>
      have hrest : candidatesOf site ((model, position) :: rest) = candidatesOf site rest := by
        simp [candidatesOf, hrec]
      rw [resolveFrom, hrec, hrest]
      exact ih h
    | some count =>
      have hrest : candidatesOf site ((model, position) :: rest) =
          (position, count) :: candidatesOf site rest := by
        simp [candidatesOf, hrec]
      rw [resolveFrom, hrec, hrest]
      cases found with
      | some first =>
        have hpolicy : s.policy ≠ .firstMatch := fun hfirst => by cases h hfirst
        simp [answer, hpolicy]
      | none =>
        by_cases hpolicy : s.policy = .firstMatch
        · -- The search ends here, whatever comes after.
          cases hlater : candidatesOf site rest <;> simp [answer, hpolicy]
        · simp only [Option.isSome_none, Bool.false_eq_true, if_false, hpolicy]
          exact ih fun hfirst => absurd hfirst hpolicy

/-- The search gives the answer for all models that recognise the call. -/
theorem resolve_eq_answer (s : CallModels) (site : CallSite) :
    s.resolve site = s.answer site (s.candidates site) :=
  resolveFrom_eq s.models.zipIdx fun _ => rfl

/-! ## Answers -/

theorem resolve_eq_ok_iff {answer : Option (Nat × Nat)} : s.resolve site = .ok answer ↔
    (s.policy = .firstMatch ∨ (s.candidates site).length ≤ 1) ∧
      answer = (s.candidates site).head? := by
  rw [resolve_eq_answer]
  rcases s.candidates site with _ | ⟨a, _ | ⟨b, rest⟩⟩
  · simp [CallModels.answer, eq_comm]
  · simp [CallModels.answer, eq_comm]
  · by_cases hpolicy : s.policy = .firstMatch <;> simp [CallModels.answer, hpolicy, eq_comm]

theorem resolve_eq_error_iff {e : CallError} : s.resolve site = .error e ↔
    s.policy = .rejectAmbiguous ∧ ¬ (s.candidates site).length ≤ 1 ∧
      e = .ambiguous site.calleeText (s.candidateNames site) := by
  rw [resolve_eq_answer]
  rcases s.candidates site with _ | ⟨a, _ | ⟨b, rest⟩⟩
  · simp [answer]
  · simp [answer]
  · cases hpolicy : s.policy <;> simp [answer, hpolicy, eq_comm]

/-- Under either rule there is no model for a call that none recognises, and only then. -/
theorem resolve_eq_none_iff :
    s.resolve site = .ok none ↔ ∀ p n, ¬ Recognizes s.models site p n := by
  rw [resolve_eq_ok_iff, eq_comm (a := none), List.head?_eq_none_iff, ← candidates_eq_nil_iff]
  refine and_iff_right_of_imp fun hnil => .inr ?_
  simp [hnil]

theorem resolve_eq_some_iff_of_firstMatch (h : s.policy = .firstMatch) :
    s.resolve site = .ok (some (p, n)) ↔
      Recognizes s.models site p n ∧ ∀ q < p, ∀ k, ¬ Recognizes s.models site q k := by
  rw [resolve_eq_ok_iff, eq_comm (a := some (p, n)), head?_candidates_eq_some_iff]
  exact and_iff_right (.inl h)

theorem resolve_eq_some_iff_of_rejectAmbiguous (h : s.policy = .rejectAmbiguous) :
    s.resolve site = .ok (some (p, n)) ↔
      Recognizes s.models site p n ∧ ∀ q, q ≠ p → ∀ k, ¬ Recognizes s.models site q k := by
  rw [resolve_eq_ok_iff, eq_comm (a := some (p, n)), head?_candidates_eq_some_iff,
    length_candidates_le_one_iff, h]
  constructor
  · rintro ⟨hrule | honly, hp, -⟩
    · cases hrule
    · exact ⟨hp, fun q hq k hk => hq (honly q p k n hk hp)⟩
  · rintro ⟨hp, hothers⟩
    have honly (q k : Nat) (hk : Recognizes s.models site q k) : q = p :=
      by_contra fun hq => hothers q hq k hk
    exact ⟨.inr fun q q' k k' hq hq' => (honly q k hq).trans (honly q' k' hq').symm, hp,
      fun q hq => hothers q hq.ne⟩

/-- A call is refused if models at two positions recognise it, and the refusal names all. -/
theorem resolve_eq_error_iff_of_rejectAmbiguous (h : s.policy = .rejectAmbiguous)
    {e : CallError} : s.resolve site = .error e ↔
      (∃ p q n k, p ≠ q ∧ Recognizes s.models site p n ∧ Recognizes s.models site q k) ∧
        ∃ names, Names s.models site names ∧ e = .ambiguous site.calleeText names := by
  simp only [resolve_eq_error_iff, length_candidates_le_one_iff, names_iff, exists_eq_left]
  constructor
  · rintro ⟨-, hseveral, he⟩
    push Not at hseveral
    obtain ⟨p, q, n, k, hp, hq, hne⟩ := hseveral
    exact ⟨⟨p, q, n, k, hne, hp, hq⟩, he⟩
  · rintro ⟨⟨p, q, n, k, hne, hp, hq⟩, he⟩
    exact ⟨h, fun honly => hne (honly p q n k hp hq), he⟩

/-- The answers for a call under both rules. -/
structure Decided (models : List CallModel) (site : CallSite) : Prop where
  /-- The first model takes the call, of those that recognise it. -/
  first_iff (p n : Nat) : resolve ⟨.firstMatch, models⟩ site = .ok (some (p, n)) ↔
    Recognizes models site p n ∧ ∀ q < p, ∀ k, ¬ Recognizes models site q k
  first_none_iff : resolve ⟨.firstMatch, models⟩ site = .ok none ↔
    ∀ p n, ¬ Recognizes models site p n
  first_accepts (e : CallError) : resolve ⟨.firstMatch, models⟩ site ≠ .error e
  /-- A model takes the call only if no other model recognises it. -/
  only_iff (p n : Nat) : resolve ⟨.rejectAmbiguous, models⟩ site = .ok (some (p, n)) ↔
    Recognizes models site p n ∧ ∀ q, q ≠ p → ∀ k, ¬ Recognizes models site q k
  only_none_iff : resolve ⟨.rejectAmbiguous, models⟩ site = .ok none ↔
    ∀ p n, ¬ Recognizes models site p n
  only_error_iff (e : CallError) : resolve ⟨.rejectAmbiguous, models⟩ site = .error e ↔
    (∃ p q n k, p ≠ q ∧ Recognizes models site p n ∧ Recognizes models site q k) ∧
      ∃ names, Names models site names ∧ e = .ambiguous site.calleeText names
  /-- Where both rules give an answer it is the same. -/
  agree (answer : Option (Nat × Nat)) : resolve ⟨.rejectAmbiguous, models⟩ site = .ok answer →
    resolve ⟨.firstMatch, models⟩ site = .ok answer

/-- Each rule decides every call as it says, whatever models there are. -/
theorem resolve_decided (models : List CallModel) (site : CallSite) : Decided models site where
  first_iff _ _ := resolve_eq_some_iff_of_firstMatch rfl
  first_none_iff := resolve_eq_none_iff
  first_accepts e he := by cases (resolve_eq_error_iff.1 he).1
  only_iff _ _ := resolve_eq_some_iff_of_rejectAmbiguous rfl
  only_none_iff := resolve_eq_none_iff
  only_error_iff _ := resolve_eq_error_iff_of_rejectAmbiguous rfl
  agree _ h := resolve_eq_ok_iff.2 ⟨.inl rfl, (resolve_eq_ok_iff.1 h).2⟩

end PointsTo.CallModels
