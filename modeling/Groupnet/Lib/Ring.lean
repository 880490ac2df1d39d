import Mathlib

/-!
# Rolling round a ring

A sorted list is walked round and round.  Each visit resumes past the last element the
one before it walked past, and remembers that element and not its place.  `past` is the
walk from an element on; on a sorted list it is a rotation.  A row of visits that each
walk at least `c` places covers the ring as soon as their places add up to its length.
-/

namespace Groupnet

namespace Ring

universe u

variable {α : Type u} {ring : List α} {s c : Nat}

/-! ## Resuming by element -/

section Past

variable [LinearOrder α]

def past (ring : List α) (x : α) : List α := ring.filter (x < ·) ++ ring.filter (· ≤ x)

/-- On a sorted list the elements up to one are those before it. -/
theorem filter_le_getElem (h : ring.Pairwise (· < ·)) {j : Nat} (hj : j < ring.length) :
    ring.filter (· ≤ ring[j]) = ring.take (j + 1) ∧
      ring.filter (ring[j] < ·) = ring.drop (j + 1) := by
  have hsplit : ring.take (j + 1) ++ ring.drop (j + 1) = ring := List.take_append_drop _ _
  have hlow : ∀ y ∈ ring.take (j + 1), y ≤ ring[j] := by
    intro y hy
    obtain ⟨i, hi, rfl⟩ := List.mem_take_iff_getElem.mp hy
    rcases Nat.lt_or_ge i j with hlt | hge
    · exact (List.pairwise_iff_getElem.mp h i j _ hj hlt).le
    have heq : i = j := by omega
    subst heq
    exact le_refl _
  have hhigh : ∀ y ∈ ring.drop (j + 1), ring[j] < y := by
    intro y hy
    obtain ⟨i, hi, rfl⟩ := List.mem_drop_iff_getElem.mp hy
    exact List.pairwise_iff_getElem.mp h j _ hj (by omega) (by omega)
  generalize ring[j] = x at hlow hhigh
  constructor
  · rw [← hsplit, List.filter_append, List.filter_eq_self.mpr (by simpa using hlow),
      List.filter_eq_nil_iff.mpr (by simpa using hhigh), List.append_nil, hsplit]
  · rw [← hsplit, List.filter_append, List.filter_eq_nil_iff.mpr (by simpa using hlow),
      List.filter_eq_self.mpr (by simpa using hhigh), List.nil_append, hsplit]

theorem past_isRotation (h : ring.Pairwise (· < ·)) (x : α) : ∃ s, past ring x = ring.rotate s := by
  have hsplit : ring.filter (· ≤ x) ++ ring.filter (x < ·) = ring := by
    induction ring with
    | nil => rfl
    | cons y ring ih =>
      obtain ⟨hy, hring⟩ := List.pairwise_cons.mp h
      by_cases hle : y ≤ x
      · simpa [List.filter_cons, hle, not_lt.mpr hle] using ih hring
      have hlt : x < y := not_le.mp hle
      have hnone : ring.filter (· ≤ x) = [] :=
        List.filter_eq_nil_iff.mpr fun z hz => by simpa using hlt.trans (hy z hz)
      have hall : ring.filter (x < ·) = ring :=
        List.filter_eq_self.mpr fun z hz => by simpa using hlt.trans (hy z hz)
      simp [hlt, not_le.mpr hlt, hnone, hall]
  have hrotate := List.rotate_append_length_eq (ring.filter (· ≤ x)) (ring.filter (x < ·))
  rw [hsplit] at hrotate
  exact ⟨_, hrotate.symm⟩

/-- The walk past an element of a walk goes on where that one was. -/
theorem past_getElem_rotate (h : ring.Pairwise (· < ·)) {i : Nat} {x : α}
    (hx : (ring.rotate s)[i]? = some x) : past ring x = ring.rotate (s + (i + 1)) := by
  obtain ⟨hi, rfl⟩ := List.getElem?_eq_some_iff.mp hx
  rw [List.length_rotate] at hi
  have hj : (i + s) % ring.length < ring.length := Nat.mod_lt _ (by omega)
  rw [List.getElem_rotate]
  obtain ⟨hlow, hhigh⟩ := filter_le_getElem h hj
  unfold past
  rw [hlow, hhigh, ← List.rotate_eq_drop_append_take hj, ← List.rotate_mod ring (s + (i + 1)),
    ← List.rotate_mod ring ((i + s) % ring.length + 1)]
  congr 1
  rw [Nat.mod_add_mod]
  congr 1
  omega

end Past

/-! ## Rows of visits -/

/-- The places of two walks on end are those of one. -/
theorem mem_take_rotate_add {n a : Nat} {x : α} (h : x ∈ (ring.rotate s).take (n + a)) :
    x ∈ (ring.rotate s).take n ∨ x ∈ (ring.rotate (s + n)).take a := by
  rw [List.take_add, List.mem_append] at h
  refine h.imp_right fun h => ?_
  rw [← List.rotate_rotate]
  generalize ring.rotate s = walk at h
  rcases Nat.le_total n walk.length with hle | hge
  · rw [List.rotate_eq_drop_append_take hle, List.take_append]
    exact List.mem_append_left _ h
  · rw [List.drop_eq_nil_of_le hge] at h
    simp at h

/-- A row of visits from a place on.  Each lists all it walks past, at least `c` places or
the whole ring. -/
inductive Sweeps (ring : List α) (c : Nat) : Nat → List (List α) → Prop
  | nil {s : Nat} : Sweeps ring c s []
  | visit {s n : Nat} {listed : List α} {rest : List (List α)} (hn : min c ring.length ≤ n)
      (hlisted : ∀ x ∈ (ring.rotate s).take n, x ∈ listed) (h : Sweeps ring c (s + n) rest) :
      Sweeps ring c s (listed :: rest)

theorem Sweeps.mem_of_mem_take {rows : List (List α)} (h : Sweeps ring c s rows) {x : α}
    (hx : x ∈ (ring.rotate s).take (rows.length * c)) : ∃ listed ∈ rows, x ∈ listed := by
  induction h with
  | nil => simp at hx
  | @visit s n listed rest hn hlisted _ ih =>
    have hfirst : x ∈ (ring.rotate s).take n → ∃ l ∈ listed :: rest, x ∈ l := fun hin =>
      ⟨listed, List.mem_cons_self, hlisted x hin⟩
    rcases Nat.lt_or_ge n ring.length with hsome | hall
    · have hle : (listed :: rest).length * c ≤ n + rest.length * c := by
        rw [List.length_cons, Nat.succ_mul]
        omega
      rcases mem_take_rotate_add (List.take_subset_take_left _ hle hx) with hin | hin
      · exact hfirst hin
      · obtain ⟨l, hl, hxl⟩ := ih hin
        exact ⟨l, List.mem_cons_of_mem _ hl, hxl⟩
    · refine hfirst ?_
      rw [List.take_of_length_le (by rwa [List.length_rotate])]
      exact List.mem_of_mem_take hx

/-- Visits whose places add up to the ring list all of it. -/
theorem Sweeps.covers {rows : List (List α)} (h : Sweeps ring c s rows)
    (hlen : ring.length ≤ rows.length * c) : ∀ x ∈ ring, ∃ listed ∈ rows, x ∈ listed := by
  intro x hx
  refine h.mem_of_mem_take ?_
  rw [List.take_of_length_le (by rwa [List.length_rotate])]
  exact List.mem_rotate.mpr hx

end Ring

end Groupnet
