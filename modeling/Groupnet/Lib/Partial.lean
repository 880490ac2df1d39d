import Mathlib.Data.Option.Basic

/-!
# Partial computations

A partial computation may give no result.  `Ensures o P` says that `P` holds of the result,
if there is one.  The rules follow a computation through its branches and its binds.
-/

namespace Groupnet

universe u

variable {α β : Type u}

/-- Whatever `o` gives satisfies `P`. -/
def Ensures (o : Option α) (P : α → Prop) : Prop := ∀ x, o = some x → P x

namespace Ensures

variable {o : Option α} {P Q : α → Prop}

theorem some {x : α} (h : P x) : Ensures (some x) P := by
  intro y hy
  cases hy
  exact h

theorem none : Ensures (none : Option α) P := by
  intro y hy
  cases hy

theorem mono (h : Ensures o P) (hPQ : ∀ x, P x → Q x) : Ensures o Q :=
  fun x hx => hPQ x (h x hx)

/-- The second computation runs on what the first one gives. -/
theorem bind {f : α → Option β} {R : β → Prop} (h : ∀ x, o = Option.some x → Ensures (f x) R) :
    Ensures (o >>= f) R := by
  intro y hy
  obtain ⟨x, hx, hfx⟩ := Option.bind_eq_some_iff.mp hy
  exact h x hx y hfx

theorem chain {f : α → Option β} {R : β → Prop} (h : Ensures o P)
    (h' : ∀ x, P x → Ensures (f x) R) :
    Ensures (o >>= f) R :=
  bind fun x hx => h' x (h x hx)

theorem ite {c : Prop} [Decidable c] {o' : Option α} (h : c → Ensures o P)
    (h' : ¬ c → Ensures o' P) :
    Ensures (if c then o else o') P := by
  split
  · exact h ‹_›
  · exact h' ‹_›

end Ensures

end Groupnet
