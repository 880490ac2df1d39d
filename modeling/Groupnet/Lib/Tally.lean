import Mathlib.Algebra.BigOperators.Group.List.Basic
import Mathlib.Algebra.GroupWithZero.Nat
import Mathlib.Data.List.Perm.Basic

/-!
# Tallies

A tally adds up a weight over a list.  The rules say what it becomes when one item is replaced or
taken out, and when the items are parted in two.
-/

namespace Groupnet

universe u

variable {α : Type u} {weight : α → Nat} {l : List α} {i : Nat} {a : α}

/-- The weights of all items, added up. -/
def tally (weight : α → Nat) (l : List α) : Nat := (l.map weight).sum

@[simp] theorem tally_nil : tally weight [] = 0 := rfl

@[simp] theorem tally_cons (a : α) (l : List α) :
    tally weight (a :: l) = weight a + tally weight l := by
  simp [tally]

@[simp] theorem tally_append (l l' : List α) :
    tally weight (l ++ l') = tally weight l + tally weight l' := by
  simp [tally]

theorem tally_perm {l' : List α} (h : l.Perm l') : tally weight l = tally weight l' :=
  (h.map weight).sum_eq

theorem tally_set (b : α) (h : l[i]? = some a) :
    tally weight (l.set i b) + weight a = tally weight l + weight b := by
  obtain ⟨hi, rfl⟩ := List.getElem?_eq_some_iff.mp h
  rw [tally_perm (List.set_perm_cons_eraseIdx hi b),
    ← tally_perm (List.getElem_cons_eraseIdx_perm hi), tally_cons, tally_cons]
  omega

theorem tally_eraseIdx (h : l[i]? = some a) :
    tally weight (l.eraseIdx i) + weight a = tally weight l := by
  obtain ⟨hi, rfl⟩ := List.getElem?_eq_some_iff.mp h
  rw [← tally_perm (List.getElem_cons_eraseIdx_perm hi), tally_cons, Nat.add_comm]

/-- No item weighs more than all of them. -/
theorem le_tally (h : a ∈ l) : weight a ≤ tally weight l := by
  obtain ⟨i, hi⟩ := List.mem_iff_getElem?.mp h
  have herase : tally weight (l.eraseIdx i) + weight a = tally weight l := tally_eraseIdx hi
  omega

theorem tally_filter (p : α → Bool) (l : List α) :
    tally weight (l.filter p) + tally weight (l.filter fun a => !p a) = tally weight l := by
  rw [← tally_append]
  exact tally_perm (List.filter_append_perm p l)

end Groupnet
