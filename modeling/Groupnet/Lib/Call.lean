import Mathlib.Logic.Relation

/-!
# Fallible calls on a state

A call leaves a state and either an answer or an error.  A failed call may have changed the
state before it failed.  `andThen` goes on from the state and the answer of a call that did not
fail.  Where every part of a call moves the state along a relation, the call moves it along the
relation's reflexive and transitive closure.
-/

namespace Groupnet

universe u v w

/-- The state a call leaves, and its answer or its error. -/
abbrev Call (σ : Type u) (ε : Type v) (α : Type w) := σ × Except ε α

namespace Call

variable {σ : Type u} {ε : Type v} {α β : Type w} {move : σ → σ → Prop}

/-- Goes on after a call that did not fail. -/
def andThen (r : Call σ ε α) (f : σ → α → Call σ ε β) : Call σ ε β :=
  match r.2 with
  | .error e => (r.1, .error e)
  | .ok a => f r.1 a

def Moves (move : σ → σ → Prop) (s : σ) (r : Call σ ε α) : Prop :=
  Relation.ReflTransGen move s r.1

theorem andThen_of_ok {r : Call σ ε α} {a : α} (f : σ → α → Call σ ε β) (h : r.2 = .ok a) :
    andThen r f = f r.1 a := by
  unfold andThen
  rw [h]

/-- A chained call succeeds only where its first part does. -/
theorem of_andThen_eq_ok {r : Call σ ε α} {f : σ → α → Call σ ε β} {b : β}
    (h : (andThen r f).2 = .ok b) : ∃ a, r.2 = .ok a ∧ andThen r f = f r.1 a := by
  cases hr : r.2 with
  | error e =>
    unfold andThen at h
    rw [hr] at h
    cases h
  | ok a => exact ⟨a, rfl, andThen_of_ok f hr⟩

/-- A call that only answers leaves the state as it is. -/
theorem Moves.refl (s : σ) (answer : Except ε α) : Moves move s (s, answer) :=
  Relation.ReflTransGen.refl

theorem Moves.single {s s' : σ} (answer : Except ε α) (h : move s s') :
    Moves move s (s', answer) := Relation.ReflTransGen.single h

theorem Moves.head {s s' : σ} {r : Call σ ε α} (h : move s s') (hr : Moves move s' r) :
    Moves move s r := Relation.ReflTransGen.head h hr

theorem Moves.andThen {s : σ} {r : Call σ ε α} {f : σ → α → Call σ ε β} (h : Moves move s r)
    (hf : ∀ a, r.2 = .ok a → Moves move r.1 (f r.1 a)) : Moves move s (r.andThen f) := by
  cases hr : r.2 with
  | error e =>
    unfold Call.andThen
    rw [hr]
    exact h
  | ok a =>
    rw [andThen_of_ok f hr]
    exact Relation.ReflTransGen.trans h (hf a hr)

theorem Moves.ite {s : σ} {c : Prop} [Decidable c] {r r' : Call σ ε α} (h : c → Moves move s r)
    (h' : ¬ c → Moves move s r') :
    Moves move s (if c then r else r') := by
  split
  · exact h ‹_›
  · exact h' ‹_›

end Call

end Groupnet
