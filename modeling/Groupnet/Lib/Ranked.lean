import Mathlib.Data.List.Sort

/-!
# The top of a ranking

The first items of a list ranked by a linear order, best first.  An item that rises in
the ranking moves past others and displaces at most the last of them, and one that
leaves it makes room for the next.
-/

namespace Groupnet

section Top

variable {α : Type*} {x : α}

/-- What the top `n` becomes when `x` rises: the same, `x` earlier in it, or `x` put in
and the last pushed out when it was full. -/
inductive Raised (x : α) (n : Nat) : List α → List α → Prop
  | same (l : List α) : Raised x n l l
  | moved (a b c : List α) : Raised x n (a ++ b ++ x :: c) (a ++ x :: (b ++ c))
  | entered (a b : List α) (hx : x ∉ a ++ b) (hfull : (a ++ b).length ≤ n) :
      Raised x n (a ++ b) ((a ++ x :: b).take n)

/-- An item that was not ranked. -/
theorem raised_take_insert {a b : List α} (hx : x ∉ a ++ b) (n : Nat) :
    Raised x n ((a ++ b).take n) ((a ++ x :: b).take n) := by
  rcases Nat.le_total n a.length with hle | hle
  · rw [List.take_append_of_le_length hle, List.take_append_of_le_length hle]
    exact .same _
  have hnew : (a ++ x :: b).take n = (a ++ x :: b.take (n - a.length)).take n := by
    simp only [List.take_append, List.take_of_length_le hle]
    cases n - a.length with
    | zero => rfl
    | succ k => simp [List.take_take]
  have hold : (a ++ b).take n = a ++ b.take (n - a.length) := by
    rw [List.take_append, List.take_of_length_le hle]
  rw [hnew, hold]
  refine .entered a _ ?_ ?_
  · intro h
    refine hx ?_
    rcases List.mem_append.mp h with h | h
    · exact List.mem_append_left _ h
    · exact List.mem_append_right _ (List.mem_of_mem_take h)
  · simp only [List.length_append, List.length_take]
    omega

/-- An item ranked further on. -/
theorem raised_take_move {a b c : List α} (hx : x ∉ a ++ b) (n : Nat) :
    Raised x n ((a ++ b ++ x :: c).take n) ((a ++ x :: (b ++ c)).take n) := by
  rcases Nat.lt_or_ge (a ++ b).length n with hlt | hge
  · have hlen : a.length + b.length < n := by simpa using hlt
    obtain ⟨k, rfl⟩ : ∃ k, n = (a.length + b.length) + (k + 1) :=
      ⟨n - (a.length + b.length) - 1, by omega⟩
    have hold : (a ++ b ++ x :: c).take (a.length + b.length + (k + 1)) =
        a ++ b ++ x :: c.take k := by
      rw [← List.length_append, List.take_length_add_append]
      rfl
    have hnew : (a ++ x :: (b ++ c)).take (a.length + b.length + (k + 1)) =
        a ++ x :: (b ++ c.take k) := by
      rw [show a.length + b.length + (k + 1) = a.length + (b.length + k + 1) by omega,
        List.take_length_add_append, List.take_succ_cons, List.take_length_add_append]
    rw [hold, hnew]
    exact .moved a b _
  · -- The top ends before `x`, so that `c` is out of it either way.
    have hold : (a ++ b ++ x :: c).take n = (a ++ b).take n := List.take_append_of_le_length hge
    have hnew : (a ++ x :: (b ++ c)).take n = (a ++ x :: b).take n := by
      rw [show a ++ x :: (b ++ c) = (a ++ x :: b) ++ c by simp]
      refine List.take_append_of_le_length ?_
      simp only [List.length_append, List.length_cons] at hge ⊢
      omega
    rw [hold, hnew]
    exact raised_take_insert hx n

/-- The top without `x` is read off one more with it. -/
theorem take_erase_take_succ [DecidableEq α] {a b : List α} (hx : x ∉ a) (n : Nat) :
    (((a ++ x :: b).take (n + 1)).erase x).take n = (a ++ b).take n := by
  rcases Nat.lt_or_ge n a.length with hlt | hge
  · rw [List.take_append_of_le_length (by omega), List.take_append_of_le_length (by omega),
      List.erase_of_not_mem fun h => hx (List.mem_of_mem_take h), List.take_take,
      Nat.min_eq_left (Nat.le_succ n)]
  obtain ⟨k, rfl⟩ : ∃ k, n = a.length + k := ⟨n - a.length, by omega⟩
  rw [Nat.add_assoc, List.take_length_add_append, List.take_succ_cons, List.erase_append_right _ hx,
    List.erase_cons_head, List.take_length_add_append, List.take_length_add_append, List.take_take,
    Nat.min_self]

end Top

section Ranking

variable {α : Type*} [LinearOrder α]

def ranked (l : List α) : List α := l.insertionSort (· ≥ ·)

theorem ranked_perm (l : List α) : (ranked l).Perm l := List.perm_insertionSort _ l

theorem ranked_congr {l l' : List α} (h : l.Perm l') : ranked l = ranked l' :=
  (((ranked_perm l).trans h).trans (ranked_perm l').symm).eq_of_pairwise'
    (List.pairwise_insertionSort _ l) (List.pairwise_insertionSort _ l')

/-- The best is first. -/
theorem head?_ranked {x : α} {l : List α} (hx : x ∈ l) (hbest : ∀ y ∈ l, y ≤ x) :
    (ranked l).head? = some x := by
  have hsorted : (ranked l).Pairwise (· ≥ ·) := List.pairwise_insertionSort _ l
  have hmem := (ranked_perm l).mem_iff.mpr hx
  cases hl : ranked l with
  | nil =>
    rw [hl] at hmem
    cases hmem
  | cons y rest =>
    rw [hl] at hsorted hmem
    have hy : y ≤ x := hbest y ((ranked_perm l).mem_iff.mp (hl ▸ List.mem_cons_self ..))
    rcases List.mem_cons.mp hmem with rfl | hrest
    · rfl
    · rw [List.head?_cons, le_antisymm hy ((List.pairwise_cons.mp hsorted).1 x hrest)]

/-- One more item is ranked below what is better than it. -/
theorem ranked_cons (x : α) (l : List α) :
    ranked (x :: l) = (ranked l).takeWhile (fun y => x < y) ++
      x :: (ranked l).dropWhile (fun y => x < y) := by
  simp only [ranked, List.insertionSort_cons, List.orderedInsert_eq_take_drop, ge_iff_le, not_le]

/-- The better the item, the fewer stand before it. -/
theorem exists_takeWhile_append {x x' : α} (h : x ≤ x') (l : List α) :
    ∃ b, l.takeWhile (fun y => x < y) = l.takeWhile (fun y => x' < y) ++ b ∧
      l.dropWhile (fun y => x' < y) = b ++ l.dropWhile (fun y => x < y) := by
  induction l with
  | nil => exact ⟨[], rfl, rfl⟩
  | cons y l ih =>
    by_cases hy' : x' < y
    · obtain ⟨b, htake, hdrop⟩ := ih
      have hy : x < y := h.trans_lt hy'
      refine ⟨b, ?_, ?_⟩
      · simp [hy, hy', htake]
      · simp [hy, hy', hdrop]
    · refine ⟨(y :: l).takeWhile (fun y => x < y), ?_, ?_⟩
      · simp [hy']
      · rw [List.takeWhile_append_dropWhile]
        simp [hy']

end Ranking

section Greatest

variable {α β : Type*} [LinearOrder β] (key : α → β)

/-- The item of the greater key, the first on a tie. -/
def better (a b : α) : α := if key a < key b then b else a

/-- The best item seen is one of those seen, and none of them is better. -/
theorem foldl_better_spec (a : α) (l : List α) :
    l.foldl (better key) a ∈ a :: l ∧ ∀ b ∈ a :: l, key b ≤ key (l.foldl (better key) a) := by
  induction l generalizing a with
  | nil => simp
  | cons x l ih =>
    obtain ⟨hmem, hbound⟩ := ih (better key a x)
    have hbest := hbound _ (List.mem_cons_self ..)
    rw [List.foldl_cons]
    generalize l.foldl (better key) (better key a x) = best at hmem hbound hbest ⊢
    have hseen : better key a x = a ∧ key x ≤ key a ∨ better key a x = x ∧ key a ≤ key x := by
      unfold better
      split
      next hlt => exact Or.inr ⟨rfl, hlt.le⟩
      next hge => exact Or.inl ⟨rfl, not_lt.mp hge⟩
    have hrest : ∀ b ∈ l, key b ≤ key best := fun b hb => hbound b (List.mem_cons_of_mem _ hb)
    rcases hseen with ⟨heq, hle⟩ | ⟨heq, hle⟩
    · rw [heq] at hmem hbest
      refine ⟨by simp only [List.mem_cons] at hmem ⊢; tauto, ?_⟩
      rintro b (_ | ⟨_, _ | ⟨_, hb⟩⟩)
      · exact hbest
      · exact hle.trans hbest
      · exact hrest b hb
    · rw [heq] at hmem hbest
      refine ⟨List.mem_cons_of_mem _ hmem, ?_⟩
      rintro b (_ | ⟨_, _ | ⟨_, hb⟩⟩)
      · exact hle.trans hbest
      · exact hbest
      · exact hrest b hb

end Greatest

end Groupnet
