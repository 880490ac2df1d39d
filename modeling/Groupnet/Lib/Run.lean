import Mathlib.Logic.Relation

/-!
# Runs of a transition system

A system is a predicate of initial states and a step relation.  A state is reachable
when a finite run leads to it, and what holds initially and is kept by every step
holds of every reachable state.
-/

namespace Groupnet

universe u

variable {σ : Type u} {init : σ → Prop} {step : σ → σ → Prop}

/-- A finite run from an initial state ends in `s`. -/
def Reachable (init : σ → Prop) (step : σ → σ → Prop) (s : σ) : Prop :=
  ∃ s₀, init s₀ ∧ Relation.ReflTransGen step s₀ s

namespace Reachable

theorem start {s : σ} (h : init s) : Reachable init step s := ⟨s, h, .refl⟩

theorem next {s s' : σ} (h : Reachable init step s) (hs : step s s') : Reachable init step s' := by
  obtain ⟨s₀, h₀, hrun⟩ := h
  exact ⟨s₀, h₀, hrun.tail hs⟩

/-- What holds initially and is kept by every step holds of every reachable state. -/
theorem invariant {P : σ → Prop} (h₀ : ∀ s, init s → P s) (hs : ∀ s s', P s → step s s' → P s')
    {s : σ} (h : Reachable init step s) : P s := by
  obtain ⟨s₀, hinit, hrun⟩ := h
  induction hrun with
  | refl => exact h₀ s₀ hinit
  | tail _ hstep ih => exact hs _ _ ih hstep

/-- What a schedule reaches is reachable, when each of its acts is a step. -/
theorem of_foldlM {α : Type u} {act : σ → α → Option σ}
    (hact : ∀ {s a s'}, act s a = some s' → step s s') {acts : List α} {s s' : σ}
    (hs : Reachable init step s) (h : acts.foldlM act s = some s') : Reachable init step s' := by
  induction acts generalizing s with
  | nil =>
    cases h
    exact hs
  | cons a acts ih =>
    rw [List.foldlM_cons] at h
    obtain ⟨s₁, h₁, h⟩ := Option.bind_eq_some_iff.mp h
    exact ih (hs.next (hact h₁)) h

end Reachable

end Groupnet
