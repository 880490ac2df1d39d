import Std.Data.TreeMap.Lemmas
import Std.Data.TreeSet.Lemmas

/-!
# Agendas

An agenda lists keys under instants: an ordered map from instants to sets of keys.  A key
is added under an instant and dropped from it, and an instant with no key left is removed.
`Lists` says which keys are listed where, and `Tidy` that no instant is listed empty.
-/

namespace Groupnet

open Std (TreeMap TreeSet)

universe u v

/-- Keys listed under instants. -/
abbrev Agenda (τ : Type u) (κ : Type v) [Ord τ] [Ord κ] := TreeMap τ (TreeSet κ)

namespace Agenda

variable {τ : Type u} {κ : Type v} [Ord τ] [Ord κ]

def Lists (a : Agenda τ κ) (t : τ) (k : κ) : Prop := ∃ ks, a[t]? = some ks ∧ k ∈ ks

/-- No instant is listed without a key. -/
def Tidy (a : Agenda τ κ) : Prop := ∀ (t : τ) (ks : TreeSet κ), a[t]? = some ks → ∃ k, k ∈ ks

def add (a : Agenda τ κ) (t : τ) (k : κ) : Agenda τ κ := a.insert t ((a.getD t ∅).insert k)

def drop (a : Agenda τ κ) (t : τ) (k : κ) : Agenda τ κ :=
  match a[t]? with
  | none => a
  | some ks => if (ks.erase k).isEmpty then a.erase t else a.insert t (ks.erase k)

variable {a : Agenda τ κ} {t t' : τ} {k k' : κ}

section

variable [Std.TransOrd τ]

theorem not_lists_empty : ¬ Lists (∅ : Agenda τ κ) t k := by
  rintro ⟨ks, hks, _⟩
  simp at hks

theorem tidy_empty : Tidy (∅ : Agenda τ κ) := by
  intro t ks hks
  simp at hks

end

variable [Std.TransOrd τ] [Std.TransOrd κ]

theorem tidy_add (h : a.Tidy) : (a.add t k).Tidy := by
  intro t' ks hks
  unfold add at hks
  rw [TreeMap.getElem?_insert] at hks
  split at hks
  · cases hks
    exact ⟨k, TreeSet.mem_insert_self⟩
  · exact h t' ks hks

theorem tidy_drop (h : a.Tidy) : (a.drop t k).Tidy := by
  intro t' ks hks
  unfold drop at hks
  split at hks
  · exact h t' ks hks
  next ks₀ hks₀ =>
    split at hks
    · rw [TreeMap.getElem?_erase] at hks
      split at hks
      · cases hks
      · exact h t' ks hks
    next hne =>
      rw [TreeMap.getElem?_insert] at hks
      split at hks
      · cases hks
        exact TreeSet.isEmpty_eq_false_iff_exists_mem.mp (Bool.eq_false_iff.mpr hne)
      · exact h t' ks hks

variable [Std.LawfulEqOrd τ] [Std.LawfulEqOrd κ]

theorem lists_add : Lists (a.add t k) t' k' ↔ (t = t' ∧ k = k') ∨ a.Lists t' k' := by
  unfold Lists add
  rw [TreeMap.getElem?_insert]
  by_cases ht : t = t'
  · subst ht
    rw [if_pos Std.ReflCmp.compare_self]
    constructor
    · rintro ⟨ks, hks, hk⟩
      cases hks
      rcases TreeSet.mem_insert.mp hk with hk | hk
      · exact .inl ⟨rfl, Std.LawfulEqOrd.eq_of_compare hk⟩
      rw [TreeMap.getD_eq_getD_getElem?] at hk
      cases hat : a[t]? with
      | none => rw [hat] at hk; simp at hk
      | some ks => rw [hat] at hk; exact .inr ⟨ks, rfl, hk⟩
    · rintro (⟨_, rfl⟩ | ⟨ks, hks, hk⟩)
      · exact ⟨_, rfl, TreeSet.mem_insert_self⟩
      refine ⟨_, rfl, TreeSet.mem_insert.mpr (.inr ?_)⟩
      rw [TreeMap.getD_eq_getD_getElem?, hks]
      exact hk
  · rw [if_neg fun h => ht (Std.LawfulEqOrd.eq_of_compare h)]
    simp [ht]

theorem lists_drop : Lists (a.drop t k) t' k' ↔ a.Lists t' k' ∧ ¬ (t = t' ∧ k = k') := by
  unfold Lists drop
  cases hat : a[t]? with
  | none =>
    constructor
    · rintro ⟨ks, hks, hk⟩
      refine ⟨⟨ks, hks, hk⟩, ?_⟩
      rintro ⟨rfl, _⟩
      cases hat.symm.trans hks
    · exact fun h => h.1
  | some ks =>
    have herase : k' ∈ ks.erase k ↔ k' ∈ ks ∧ k ≠ k' := by
      rw [TreeSet.mem_erase, and_comm]
      refine and_congr_right fun _ => not_congr ⟨Std.LawfulEqOrd.eq_of_compare, ?_⟩
      rintro rfl
      exact Std.ReflCmp.compare_self
    dsimp only
    by_cases ht : t = t'
    · subst ht
      rw [hat]
      simp only [Option.some.injEq, true_and, exists_eq_left']
      split
      next hempty =>
        have hnot : ¬ k' ∈ ks.erase k := fun hk => by
          rw [TreeSet.isEmpty_iff_forall_not_mem] at hempty
          exact hempty k' hk
        rw [TreeMap.getElem?_erase_self]
        rw [herase] at hnot
        constructor
        · rintro ⟨_, hks, _⟩
          cases hks
        · exact fun h => absurd h hnot
      next => simp [herase]
    · have hne : compare t t' ≠ .eq := fun h => ht (Std.LawfulEqOrd.eq_of_compare h)
      split
      · rw [TreeMap.getElem?_erase, if_neg hne]
        simp [ht]
      · rw [TreeMap.getElem?_insert, if_neg hne]
        simp [ht]

end Agenda

end Groupnet
