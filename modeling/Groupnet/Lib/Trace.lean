import Mathlib.Logic.Basic

/-!
# Traces

A step leads from one state to the next, and logs what it owes and what it says.  A
trace is a run of steps with both logs in order.  What every step keeps holds all
along a trace, and whatever a trace said was said by one of its steps, from a state
of the trace.
-/

namespace Groupnet

universe u v w

variable {σ : Type u} {α : Type v} {β : Type w}

/-- A run of steps, with what they owed and what they said in order. -/
inductive Trace (step : σ → List α → List β → σ → Prop) : σ → List α → List β → σ → Prop
  | nil {s : σ} : Trace step s [] [] s
  | cons {s s₁ s₂ : σ} {owed owed' : List α} {said said' : List β} :
      step s owed said s₁ → Trace step s₁ owed' said' s₂ →
      Trace step s (owed ++ owed') (said ++ said') s₂

namespace Trace

variable {step : σ → List α → List β → σ → Prop} {s s₁ s₂ : σ} {owed owed' : List α}
  {said said' : List β}

theorem single (h : step s owed said s₁) : Trace step s owed said s₁ := by
  simpa using Trace.cons h Trace.nil

theorem trans (h : Trace step s owed said s₁) (h' : Trace step s₁ owed' said' s₂) :
    Trace step s (owed ++ owed') (said ++ said') s₂ := by
  induction h with
  | nil => exact h'
  | cons hstep _ ih =>
    rw [List.append_assoc, List.append_assoc]
    exact .cons hstep (ih h')

/-- What every step keeps holds at the end of a trace. -/
theorem keeps {P : σ → Prop} (hstep : ∀ {s owed said s'}, step s owed said s' → P s → P s')
    (h : Trace step s owed said s₁) (hs : P s) : P s₁ := by
  induction h with
  | nil => exact hs
  | cons hfirst _ ih => exact ih (hstep hfirst hs)

/-- What every step carries on, by a reflexive and transitive relation, a trace does. -/
theorem relates {R : σ → σ → Prop} (hrefl : ∀ s, R s s) (htrans : ∀ {a b c}, R a b → R b c → R a c)
    (hstep : ∀ {s owed said s'}, step s owed said s' → R s s') (h : Trace step s owed said s₁) :
    R s s₁ := by
  induction h with
  | nil => exact hrefl _
  | cons hfirst _ ih => exact htrans (hstep hfirst) ih

/-- Whatever a trace said, one of its steps said, from a state that has what every step
keeps. -/
theorem step_of_said {P : σ → Prop} (hstep : ∀ {s owed said s'}, step s owed said s' → P s → P s')
    (h : Trace step s owed said s₁) (hs : P s) {b : β} (hb : b ∈ said) :
    ∃ t owed' said' t', P t ∧ step t owed' said' t' ∧ b ∈ said' := by
  induction h with
  | nil => exact absurd hb List.not_mem_nil
  | cons hfirst _ ih =>
    rcases List.mem_append.mp hb with hb | hb
    · exact ⟨_, _, _, _, hs, hfirst, hb⟩
    · exact ih (hstep hfirst hs) hb

end Trace

end Groupnet
