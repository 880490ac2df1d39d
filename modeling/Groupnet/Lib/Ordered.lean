import Mathlib.Data.String.Basic
import Mathlib.Data.Prod.Lex
import Mathlib.Data.List.Sort

/-!
# Ordered maps and sets

The maps and sets of the source are ordered, and so are `Std.TreeMap` and
`Std.TreeSet` here.  They compare keys with `compare`.  This module gives what
the models above need of a linear order for that: equal-comparing keys are
equal, and a walk of an ordered list that stops at a bound meets everything below
the bound.
-/

namespace Groupnet

/-- Keys of a linear order that compare equal are equal. -/
instance instLawfulEqOrdOfLinearOrder {α : Type*} [LinearOrder α] : Std.LawfulEqOrd α where
  eq_of_compare h := compare_eq_iff_eq.mp h

/-- Where `p` only ever ends, a walk that stops at its end meets all of `p`. -/
theorem takeWhile_eq_filter {α : Type*} {p : α → Bool} {l : List α}
    (h : l.Pairwise fun x y => p y = true → p x = true) : l.takeWhile p = l.filter p := by
  induction l with
  | nil => rfl
  | cons x l ih =>
    obtain ⟨hx, hl⟩ := List.pairwise_cons.mp h
    by_cases hp : p x = true
    · rw [List.takeWhile_cons_of_pos hp, List.filter_cons_of_pos hp, ih hl]
    rw [List.takeWhile_cons_of_neg hp, List.filter_cons_of_neg hp]
    refine (List.filter_eq_nil_iff.mpr fun y hy hpy => ?_).symm
    exact hp (hx y hy hpy)

/-- In a list whose keys rise, an item is the only one of its key. -/
theorem filter_eq_singleton {α β : Type*} [Preorder β] [DecidableEq β] {f : α → β} {l : List α}
    {x : α} (h : l.Pairwise fun a b => f a < f b) (hx : x ∈ l) :
    l.filter (fun a => f a = f x) = [x] := by
  induction l with
  | nil => cases hx
  | cons a l ih =>
    obtain ⟨ha, hl⟩ := List.pairwise_cons.mp h
    rcases List.mem_cons.mp hx with rfl | hx
    · rw [List.filter_cons_of_pos (by simp), List.filter_eq_nil_iff.mpr]
      intro b hb
      simpa using (ha b hb).ne'
    · rw [List.filter_cons_of_neg (by simpa using (ha x hx).ne), ih hl hx]

end Groupnet
