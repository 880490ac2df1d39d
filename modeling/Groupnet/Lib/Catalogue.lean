import Mathlib.Logic.Basic

/-!
# Catalogues

A catalogue of a table is a second view of it, kept by hand: the set of the keys its
records go by.  A key names its record's place, so that a record that changes takes one
key out and puts one key in, and the catalogue stays exact.
-/

namespace Groupnet

universe u v w

variable {α : Type u} {β : Type v} {κ : Type w} {key : α → β → Option κ} {P P' : κ → Prop}
  {table table' : α → Option β} {x : α}

def Named (key : α → β → Option κ) (x : α) (o : Option β) (k : κ) : Prop :=
  ∃ b, o = some b ∧ key x b = some k

def Catalogues (P : κ → Prop) (table : α → Option β) (key : α → β → Option κ) : Prop :=
  ∀ k, P k ↔ ∃ x, Named key x (table x) k

/-- No two places share a key. -/
def Owned (key : α → β → Option κ) : Prop :=
  ∀ x y b b' k, key x b = some k → key y b' = some k → x = y

namespace Catalogues

section

variable (h : Catalogues P table key) (howned : Owned key)
  (hother : ∀ y, y ≠ x → table' y = table y)

include h howned hother

/-- The record at `x` changes, its old key is taken out and its new one put in. -/
theorem move (hP : ∀ k, P' k ↔ (P k ∧ ¬ Named key x (table x) k) ∨ Named key x (table' x) k) :
    Catalogues P' table' key := by
  intro k
  rw [hP]
  constructor
  · rintro (⟨hk, hold⟩ | hnew)
    · obtain ⟨y, hy⟩ := (h k).mp hk
      have hne : y ≠ x := by
        rintro rfl
        exact hold hy
      exact ⟨y, by rwa [hother y hne]⟩
    · exact ⟨x, hnew⟩
  · rintro ⟨y, b, hb, hk⟩
    by_cases hne : y = x
    · subst hne
      exact Or.inr ⟨b, hb, hk⟩
    rw [hother y hne] at hb
    refine Or.inl ⟨(h k).mpr ⟨y, b, hb, hk⟩, ?_⟩
    rintro ⟨b', _, hk'⟩
    exact hne (howned y x b b' k hk hk')

theorem keep (hsame : ∀ k, Named key x (table' x) k ↔ Named key x (table x) k) :
    Catalogues P table' key := by
  refine h.move howned hother fun k => ?_
  rw [hsame]
  constructor
  · intro hk
    by_cases hold : Named key x (table x) k
    · exact Or.inr hold
    · exact Or.inl ⟨hk, hold⟩
  · rintro (⟨hk, _⟩ | hold)
    · exact hk
    · exact (h k).mpr ⟨x, hold⟩

end

end Catalogues

end Groupnet
