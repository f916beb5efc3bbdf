import Mathlib
import PointsTo.Proofs.EmissionRuns

/-!
# Two emissions side by side

Two emissions correspond if from states that are alike they succeed together or fail
together, and end in states that are alike. This is put together along the steps of the two
emissions; what it means for states to be alike is left open here.
-/

namespace PointsTo

/-- Both succeed, with results as `Q` says, or both fail, with errors as `E` says. -/
inductive Both {ε ε' α β : Type} (Q : α → β → Prop) (E : ε → ε' → Prop) :
    Except ε α → Except ε' β → Prop
  | ok {a : α} {b : β} : Q a b → Both Q E (.ok a) (.ok b)
  | error {e : ε} {e' : ε'} : E e e' → Both Q E (.error e) (.error e')

namespace Emit

variable {α β γ δ : Type}

/-- Run from states that are as `P` says, the two computations succeed together, with
results and states as `Q` says, or fail together, with errors and states as `F` says. -/
def Together (P : Emission → Emission → Prop) (c : Emit α) (c' : Emit β)
    (Q : α → Emission → β → Emission → Prop)
    (F : ExtractError → Emission → ExtractError → Emission → Prop) : Prop :=
  ∀ e e', P e e' → match exec c e, exec c' e' with
    | (.ok a, e₁), (.ok b, e₁') => Q a e₁ b e₁'
    | (.error err, e₁), (.error err', e₁') => F err e₁ err' e₁'
    | _, _ => False

variable {P P' : Emission → Emission → Prop} {Q Q' : α → Emission → β → Emission → Prop}
  {F : ExtractError → Emission → ExtractError → Emission → Prop} {c : Emit α} {c' : Emit β}

theorem Together.mono (h : Together P c c' Q F) (hP : ∀ e e', P' e e' → P e e')
    (hQ : ∀ a e b e', Q a e b e' → Q' a e b e') : Together P' c c' Q' F := by
  intro e e' he
  have hrun := h e e' (hP e e' he)
  generalize exec c e = p, exec c' e' = p' at hrun
  obtain ⟨out, e₁⟩ := p
  obtain ⟨out', e₁'⟩ := p'
  cases out <;> cases out' <;> first | exact hrun | exact hQ _ _ _ _ hrun

/-- Computations that go together may be followed by computations that go together. -/
theorem Together.bind {f : α → Emit γ} {f' : β → Emit δ}
    {Q' : γ → Emission → δ → Emission → Prop} (h : Together P c c' Q F)
    (hf : ∀ a b, Together (fun e e' => Q a e b e') (f a) (f' b) Q' F) :
    Together P (c >>= f) (c' >>= f') Q' F := by
  intro e e' he
  have hrun := h e e' he
  rw [exec_bind, exec_bind]
  generalize exec c e = p, exec c' e' = p' at hrun
  obtain ⟨out, e₁⟩ := p
  obtain ⟨out', e₁'⟩ := p'
  cases out with
  | error err =>
    cases out' with
    | error err' => exact hrun
    | ok b => exact hrun.elim
  | ok a =>
    cases out' with
    | error err' => exact hrun.elim
    | ok b => exact hf a b e₁ e₁' hrun

theorem together_pure {a : α} {b : β} (h : ∀ e e', P e e' → Q a e b e') :
    Together P (pure a) (pure b) Q F :=
  fun e e' he => h e e' he

end Emit

theorem Emit.steps_append (t : Emission.Target) (steps rest : List Step) :
    Emit.steps t (steps ++ rest) = Emit.steps t steps >>= fun _ => Emit.steps t rest := by
  induction steps with
  | nil => simp [Emit.steps]
  | cons st steps ih => simp [Emit.steps, ih]

/-- Steps that go together may be followed by steps that go together. -/
theorem Emit.Together.append {t t' : Emission.Target} {steps steps' rest rest' : List Step}
    {P R : Emission → Emission → Prop} {Q : Unit → Emission → Unit → Emission → Prop}
    {F : ExtractError → Emission → ExtractError → Emission → Prop}
    (h : Together P (Emit.steps t steps) (Emit.steps t' steps') (fun _ e _ e' => R e e') F)
    (hrest : Together R (Emit.steps t rest) (Emit.steps t' rest') Q F) :
    Together P (Emit.steps t (steps ++ rest)) (Emit.steps t' (steps' ++ rest')) Q F := by
  rw [steps_append, steps_append]
  exact h.bind fun _ _ => hrest

/-- If the steps of two plans go together, then the runs do. -/
theorem Extractor.outcomes_of_together {x y : Extractor} {types types' : TypeTable}
    {store : FactStore} {P R : Emission → Emission → Prop}
    {E : ExtractError → ExtractError → Prop}
    (h : Emit.Together P (Emit.steps ⟨x.objects, store⟩ (x.setup.plan x.matched))
      (Emit.steps ⟨y.objects, store⟩ (y.setup.plan y.matched)) (fun _ e _ e' => R e e')
      fun err e err' e' => E err err' ∧ R e e')
    (hstart : P ⟨types, x.memo, [], #[], #[]⟩ ⟨types', y.memo, [], #[], #[]⟩) :
    Both (fun _ _ => True) E (x.run types store).outcome (y.run types' store).outcome ∧
      ∃ log log', R { (x.run types store).state with log }
        { (y.run types' store).state with log := log' } := by
  have hrun := h _ _ hstart
  obtain ⟨log, hexec⟩ := x.exec_steps types store
  obtain ⟨log', hexec'⟩ := y.exec_steps types' store
  rw [hexec, hexec'] at hrun
  generalize (x.run types store).outcome = out, (y.run types' store).outcome = out' at hrun
  cases out with
  | error err =>
    cases out' with
    | error err' => exact ⟨.error hrun.1, log, log', hrun.2⟩
    | ok u => exact hrun.elim
  | ok u =>
    cases out' with
    | error err' => exact hrun.elim
    | ok u' => exact ⟨.ok trivial, log, log', hrun⟩

end PointsTo
