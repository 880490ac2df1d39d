import Mathlib.Logic.Basic

/-!
# State passing with outputs

A call of a state machine leaves a new state and a list of outputs in the order
they were made.  `Emit` is that pair, `andThen` runs one call after another and
`each` runs one call per item of a list.  The rules below carry a property of the
state, and of every output, through both.
-/

namespace Groupnet

universe u v w

/-- The state a call leaves and the outputs it made, in order. -/
abbrev Emit (σ : Type u) (ε : Type v) := σ × List ε

namespace Emit

variable {σ : Type u} {ε : Type v} {α : Type w}

variable (a : Emit σ ε)

/-- Runs `f` from the state `a` leaves and appends its outputs. -/
def andThen (f : σ → Emit σ ε) : Emit σ ε :=
  ((f a.1).1, a.2 ++ (f a.1).2)

/-- Appends one output read off the final state. -/
def andSay (f : σ → List ε) : Emit σ ε := (a.1, a.2 ++ f a.1)

/-- Runs `f` once per item, in order, collecting the outputs. -/
def each (f : σ → α → Emit σ ε) : σ → List α → Emit σ ε
  | s, [] => (s, [])
  | s, x :: xs => andThen (f s x) fun s => each f s xs

@[simp] theorem andThen_fst (f : σ → Emit σ ε) :
    (andThen a f).1 = (f a.1).1 := rfl

@[simp] theorem andThen_snd (f : σ → Emit σ ε) :
    (andThen a f).2 = a.2 ++ (f a.1).2 := rfl

@[simp] theorem andSay_fst (f : σ → List ε) : (andSay a f).1 = a.1 := rfl

@[simp] theorem andSay_snd (f : σ → List ε) :
    (andSay a f).2 = a.2 ++ f a.1 := rfl

/-- What every call keeps holds after the whole list. -/
theorem each_inv {f : σ → α → Emit σ ε} {P : σ → Prop} {xs : List α}
    (step : ∀ s x, x ∈ xs → P s → P (f s x).1) {s : σ} (h : P s) : P (each f s xs).1 := by
  induction xs generalizing s with
  | nil => exact h
  | cons x xs ih =>
    have hx := step s x (List.mem_cons_self ..) h
    exact ih (fun s y hy => step s y (List.mem_cons_of_mem _ hy)) hx

end Emit

end Groupnet
