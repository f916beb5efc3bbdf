import Mathlib
import PointsTo.Extract.Extractor
import PointsTo.Proofs.Correspondence

/-!
# Two registrations side by side

A relation between two first passes that is kept whenever both settle a request is kept to the
end, and the passes succeed or fail together. What a request does to a pass comes down to
notices, registrations and matched calls, so it is enough that the relation is kept by these.
-/

namespace PointsTo

namespace Both

variable {ε ε' α β : Type} {Q Q' : α → β → Prop} {E : ε → ε' → Prop} {a : Except ε α}
  {b : Except ε' β}

theorem mono (h : Both Q E a b) (hQ : ∀ a b, Q a b → Q' a b) : Both Q' E a b := by
  cases h with
  | ok hab => exact .ok (hQ _ _ hab)
  | error he => exact .error he

theorem of_ok {x : α} {y : β} (h : Both Q E (.ok x) (.ok y)) : Q x y := by
  cases h with
  | ok hxy => exact hxy

theorem exists_ok_iff (h : Both Q E a b) : (∃ y, b = .ok y) ↔ ∃ x, a = .ok x := by
  cases h with
  | ok _ => exact iff_of_true ⟨_, rfl⟩ ⟨_, rfl⟩
  | error _ => simp

end Both

namespace Registering

variable {P : Registering → Registering → Prop} {s s' : Setup} {r r' : Registering}

/-- Both passes succeed or both fail, and they are as `P` says. -/
def Paired (P : Registering → Registering → Prop)
    (a a' : Except CallError Unit × Registering) : Prop :=
  Both (fun _ _ => True) (fun _ _ => True) a.1 a'.1 ∧ P a.2 a'.2

/-- Constants that correspond are registered alike, down to what they are built from. -/
theorem constant_of_keeps {m m' : Module} {π : ConstId → ConstId} {L : ConstId → Prop}
    (hclosed : ∀ c, L c → ∀ d ∈ m.constantChildren c, L d)
    (hchildren : ∀ c, L c → m'.constantChildren (π c) = (m.constantChildren c).map π)
    (hcontains : ∀ r r' c, P r r' → L c →
      r'.objects.contains (m'.constantValue (π c)) = r.objects.contains (m.constantValue c))
    (hregister : ∀ r r' c, P r r' → L c →
      P (r.register (m.constantValue c) 0) (r'.register (m'.constantValue (π c)) 0))
    (depth : Nat) {c : ConstId} (hc : L c) (h : P r r') :
    P (r.constant m depth c) (r'.constant m' depth (π c)) := by
  induction depth generalizing r r' c with
  | zero => exact h
  | succ depth ih =>
    have hfold {ids : List ConstId} (hids : ∀ d ∈ ids, L d) {r r' : Registering} (h : P r r') :
        P (ids.foldl (constant m depth) r) ((ids.map π).foldl (constant m' depth) r') := by
      induction ids generalizing r r' with
      | nil => exact h
      | cons d ids ihs =>
        rw [List.forall_mem_cons] at hids
        exact ihs hids.2 (ih hids.1 h)
    rw [constant, constant, hcontains r r' c h hc, hchildren c hc]
    split
    · exact h
    · exact hregister _ _ c (hfold (hclosed c hc) h) hc

/-- Calls that are resolved alike are registered alike. -/
theorem paired_call {i i' : Place} {invoke invoke' : Invoke}
    (hnote : ∀ r r' notices notices', P r r' → P (r.note notices) (r'.note notices'))
    (hmatched : ∀ r r' position, P r r' → P (r.setMatched i position) (r'.setMatched i' position))
    (hregister : ∀ r r' k, P r r' →
      P (r.register (.instruction i) k) (r'.register (.instruction i') k))
    (hresolve : Both Eq (fun _ _ => True) (s.models.resolve (.new s.unit i invoke))
      (s'.models.resolve (.new s'.unit i' invoke')))
    (h : P r r') : Paired P (r.request s (.call i invoke)) (r'.request s' (.call i' invoke')) := by
  simp only [request]
  generalize s.models.resolve (.new s.unit i invoke) = answer,
    s'.models.resolve (.new s'.unit i' invoke') = answer' at hresolve
  cases hresolve with
  | error _ => exact ⟨.error trivial, hnote _ _ _ _ h⟩
  | @ok found _ heq =>
    subst heq
    cases found with
    | none => exact ⟨.ok trivial, hregister _ _ 0 (hnote _ _ _ _ h)⟩
    | some found =>
      exact ⟨.ok trivial, hregister _ _ found.2 (hmatched _ _ found.1 (hnote _ _ _ _ h))⟩

/-- What each pair of requests keeps, the passes keep. -/
theorem paired_settle {Q : Request → Request → Prop}
    (hstep : ∀ r r' q q', P r r' → Q q q' → Paired P (r.request s q) (r'.request s' q'))
    {requests requests' : List Request} (hrequests : List.Forall₂ Q requests requests')
    (h : P r r') : Paired P (r.settle s requests) (r'.settle s' requests') := by
  induction hrequests generalizing r r' with
  | nil => exact ⟨.ok trivial, h⟩
  | @cons q q' rest rest' hq _ ih =>
    obtain ⟨houtcome, hnext⟩ := hstep r r' q q' h hq
    rw [settle, settle]
    generalize r.request s q = answer, r'.request s' q' = answer' at houtcome hnext
    obtain ⟨outcome, r⟩ := answer
    obtain ⟨outcome', r'⟩ := answer'
    cases houtcome with
    | ok _ => exact ih hnext
    | error _ => exact ⟨.error trivial, hnext⟩

end Registering

/-- The extractors that two passes give. -/
def Extractor.Paired (P : Registering → Registering → Prop) (s s' : Setup) (x y : Extractor) :
    Prop :=
  ∃ r r', P r r' ∧ x = ⟨s, r.objects, r.matched, .empty, []⟩ ∧
    y = ⟨s', r'.objects, r'.matched, .empty, []⟩

/-- Modules that pass their checks together are registered together. -/
theorem Extractor.both_new_of_paired {P : Registering → Registering → Prop} {s s' : Setup}
    (hspecial : s'.config.specialObjects = s.config.specialObjects)
    (hverify : s'.unit.verify = .ok () ↔ s.unit.verify = .ok ())
    (hsettle : Registering.Paired P
      (Registering.settle s ⟨.new s.config.specialCount, [], #[]⟩ s.requests)
      (Registering.settle s' ⟨.new s.config.specialCount, [], #[]⟩ s'.requests)) :
    Both (Extractor.Paired P s s') (fun _ _ => True) (Extractor.new s).1 (Extractor.new s').1 := by
  have hvalidate : s'.config.validate = s.config.validate := by
    rw [Config.validate, Config.validate, hspecial]
  have hcount : s'.config.specialCount = s.config.specialCount := by
    rw [Config.specialCount, Config.specialCount, hspecial]
  obtain ⟨houtcome, hpaired⟩ := hsettle
  unfold Extractor.new
  rw [hvalidate, hcount]
  cases s.config.validate with
  | error _ => exact .error trivial
  | ok _ =>
    cases hv : s.unit.verify with
    | error fault =>
      cases hv' : s'.unit.verify with
      | error _ => exact .error trivial
      | ok _ => simp [hverify.1 hv'] at hv
    | ok _ =>
      simp only [hverify.2 hv]
      generalize Registering.settle s _ _ = answer, Registering.settle s' _ _ = answer'
        at houtcome hpaired
      obtain ⟨outcome, r⟩ := answer
      obtain ⟨outcome', r'⟩ := answer'
      cases houtcome with
      | ok _ => exact .ok ⟨r, r', hpaired, rfl, rfl⟩
      | error _ => exact .error trivial

end PointsTo
