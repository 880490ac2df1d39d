import Mathlib.Data.Option.Basic

/-!
# Machines

A machine takes one input after another.  At each it may stop for good, or else it goes to a
next state with an answer.  A run is a list of inputs and ends with a state and all answers.
-/

namespace Groupnet

universe u

variable {σ ι ω : Type u} {step : σ → ι → Option (σ × ω)}

/-- Feeds a machine its inputs in order.  No result means that it stopped on the way. -/
def drive (step : σ → ι → Option (σ × ω)) (s : σ) : List ι → Option (σ × List ω)
  | [] => some (s, [])
  | input :: inputs => do
    let (s, answer) ← step s input
    let (s, answers) ← drive step s inputs
    some (s, answer :: answers)

theorem drive_cons_eq_some {s s' : σ} {input : ι} {inputs : List ι} {answers : List ω}
    (h : drive step s (input :: inputs) = some (s', answers)) :
    ∃ s₁ answer rest, step s input = some (s₁, answer) ∧ drive step s₁ inputs = some (s', rest) ∧
      answers = answer :: rest := by
  obtain ⟨⟨s₁, answer⟩, h₁, h⟩ := Option.bind_eq_some_iff.mp h
  obtain ⟨⟨s₂, rest⟩, h₂, h⟩ := Option.bind_eq_some_iff.mp h
  cases h
  exact ⟨s₁, answer, rest, h₁, h₂, rfl⟩

/-- What holds at the start and is kept by every step holds at the end. -/
theorem drive_invariant {P : σ → Prop} {s s' : σ} {inputs : List ι} {answers : List ω} (h₀ : P s)
    (hs : ∀ {s i s' o}, P s → step s i = some (s', o) → P s')
    (h : drive step s inputs = some (s', answers)) : P s' := by
  induction inputs generalizing s answers with
  | nil =>
    cases h
    exact h₀
  | cons input inputs ih =>
    obtain ⟨s₁, answer, rest, h₁, h₂, rfl⟩ := drive_cons_eq_some h
    exact ih (hs h₀ h₁) h₂

/-- Whether every step of a run meets a condition on the state before it and its input. -/
def meets (step : σ → ι → Option (σ × ω)) (ok : σ → ι → Bool) (s : σ) : List ι → Bool
  | [] => true
  | input :: inputs =>
    ok s input && (step s input).all fun next => meets step ok next.1 inputs

/-- The same for runs of which every step meets a condition. -/
theorem drive_invariant_of_meets {ok : σ → ι → Bool} {P : σ → Prop} {s s' : σ} {inputs : List ι}
    {answers : List ω} (h₀ : P s)
    (hs : ∀ {s i s' o}, P s → ok s i = true → step s i = some (s', o) → P s')
    (hmeets : meets step ok s inputs = true) (h : drive step s inputs = some (s', answers)) :
    P s' := by
  induction inputs generalizing s answers with
  | nil =>
    cases h
    exact h₀
  | cons input inputs ih =>
    obtain ⟨s₁, answer, rest, h₁, h₂, rfl⟩ := drive_cons_eq_some h
    rw [meets, h₁, Option.all_some, Bool.and_eq_true] at hmeets
    exact ih (hs h₀ hmeets.1 h₁) hmeets.2 h₂

end Groupnet
