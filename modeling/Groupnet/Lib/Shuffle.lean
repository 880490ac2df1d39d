import Mathlib.Data.Set.Function
import Mathlib.Order.Interval.Set.Defs
import Mathlib.Logic.Equiv.Set

/-!
# Dealing from a pack

A pack is a function from slots to cards.  To deal from slot `i` on, one draws a slot `j` at or
above `i`, deals its card, and puts the card of slot `i` there.  Slot `i` is not looked at again.

If the pack has no card twice in the slots `i` to `n`, then what is dealt for all draws of `k`
slots below `n` is every list of `k` different cards of these slots, each for one row of draws.
-/

namespace Groupnet

variable {α : Type*} {a : Nat → α} {i j n : Nat}

/-- The cards dealt from slot `i` on. -/
def deal (a : Nat → α) : Nat → List Nat → List α
  | _, [] => []
  | i, j :: js => a j :: deal (Function.update a j (a i)) (i + 1) js

/-- Draws from slot `i` on, below `n`. -/
def Draws (n : Nat) : Nat → List Nat → Prop
  | _, [] => True
  | i, j :: js => (i ≤ j ∧ j < n) ∧ Draws n (i + 1) js

theorem map_deal {β : Type*} (f : α → β) (js : List Nat) :
    (deal a i js).map f = deal (f ∘ a) i js := by
  induction js generalizing a i with
  | nil => rfl
  | cons j js ih => rw [deal, List.map_cons, ih, deal, Function.comp_update, Function.comp_apply,
      Function.comp_apply]

/-- The pack after a draw is the pack with two slots swapped. -/
theorem update_eqOn_swap : Set.EqOn (Function.update a j (a i)) (a ∘ Equiv.swap i j)
    (Set.Ico (i + 1) n) := by
  intro x hx
  have hxi : x ≠ i := Nat.ne_of_gt hx.1
  by_cases hxj : x = j
  · rw [hxj, Function.update_self, Function.comp_apply, Equiv.swap_apply_right]
  · rw [Function.update_of_ne hxj, Function.comp_apply, Equiv.swap_apply_of_ne_of_ne hxi hxj]

theorem swap_image_Ico (h : i ≤ j ∧ j < n) :
    Equiv.swap i j '' Set.Ico (i + 1) n = Set.Ico i n \ {j} := by
  have hrest : Set.Ico (i + 1) n = Set.Ico i n \ {i} := by
    ext x
    simp only [Set.mem_Ico, Set.mem_sdiff, Set.mem_singleton_iff]
    omega
  have hself : Equiv.swap i j '' Set.Ico i n = Set.Ico i n := by
    refine (Equiv.swap_bijOn_self ?_).image_eq
    simp only [Set.mem_Ico]
    omega
  rw [hrest, Set.image_sdiff (Equiv.injective _), hself, Set.image_singleton, Equiv.swap_apply_left]

/-- What is left after a draw: no card twice, and every card but the one dealt. -/
theorem left_spec (ha : Set.InjOn a (Set.Ico i n)) (h : i ≤ j ∧ j < n) :
    Set.InjOn (Function.update a j (a i)) (Set.Ico (i + 1) n) ∧
      Function.update a j (a i) '' Set.Ico (i + 1) n = (a '' Set.Ico i n) \ {a j} := by
  have hsub : Set.Ico i n \ {j} ⊆ Set.Ico i n := Set.sdiff_subset
  constructor
  · refine (Set.EqOn.injOn_iff update_eqOn_swap).mpr ?_
    refine (ha.mono hsub).comp (Equiv.injective _).injOn fun x hx => ?_
    rw [← swap_image_Ico h]
    exact Set.mem_image_of_mem _ hx
  · rw [Set.EqOn.image_eq update_eqOn_swap, Set.image_comp, swap_image_Ico h]
    rw [ha.image_sdiff_subset (Set.singleton_subset_iff.mpr h), Set.image_singleton]

theorem deal_bijOn (k : Nat) (ha : Set.InjOn a (Set.Ico i n)) :
    Set.BijOn (deal a i) {js | js.length = k ∧ Draws n i js}
      {l | l.length = k ∧ l.Nodup ∧ ∀ x ∈ l, x ∈ a '' Set.Ico i n} := by
  induction k generalizing a i with
  | zero =>
    refine ⟨fun js hjs => ?_, fun js hjs js' hjs' _ => ?_, fun l hl => ⟨[], ⟨rfl, trivial⟩, ?_⟩⟩
    · rw [List.length_eq_zero_iff.mp hjs.1]
      exact ⟨rfl, List.nodup_nil, nofun⟩
    · rw [List.length_eq_zero_iff.mp hjs.1, List.length_eq_zero_iff.mp hjs'.1]
    · exact (List.length_eq_zero_iff.mp hl.1).symm
  | succ k ih =>
    refine ⟨?_, ?_, ?_⟩
    · rintro (_ | ⟨j, js⟩) ⟨hlen, hdraws⟩
      · cases hlen
      obtain ⟨hinj, himage⟩ := left_spec ha hdraws.1
      obtain ⟨hlength, hnodup, hmem⟩ := (ih hinj).mapsTo ⟨Nat.succ.inj hlen, hdraws.2⟩
      rw [himage] at hmem
      refine ⟨congrArg (· + 1) hlength, List.nodup_cons.mpr ⟨fun h => (hmem _ h).2 rfl, hnodup⟩, ?_⟩
      exact List.forall_mem_cons.mpr ⟨Set.mem_image_of_mem a hdraws.1, fun x hx => (hmem x hx).1⟩
    · rintro (_ | ⟨j, js⟩) ⟨hlen, hdraws⟩ (_ | ⟨j', js'⟩) ⟨hlen', hdraws'⟩ heq
      · rfl
      · cases hlen
      · cases hlen'
      obtain ⟨hcard, hrest⟩ := List.cons.inj heq
      obtain rfl := ha hdraws.1 hdraws'.1 hcard
      have hbij := ih (left_spec ha hdraws.1).1
      rw [hbij.injOn ⟨Nat.succ.inj hlen, hdraws.2⟩ ⟨Nat.succ.inj hlen', hdraws'.2⟩ hrest]
    · rintro (_ | ⟨x, l⟩) ⟨hlen, hnodup, hmem⟩
      · cases hlen
      obtain ⟨⟨j, hj, rfl⟩, hrest⟩ := List.forall_mem_cons.mp hmem
      obtain ⟨hinj, himage⟩ := left_spec ha hj
      obtain ⟨hfresh, hnodup⟩ := List.nodup_cons.mp hnodup
      obtain ⟨js, ⟨hlength, hdraws⟩, rfl⟩ : l ∈ deal (Function.update a j (a i)) (i + 1) '' _ := by
        refine (ih hinj).surjOn ⟨Nat.succ.inj hlen, hnodup, fun y hy => ?_⟩
        rw [himage]
        exact ⟨hrest y hy, fun h => hfresh (h ▸ hy)⟩
      exact ⟨j :: js, ⟨congrArg (· + 1) hlength, hj, hdraws⟩, rfl⟩

end Groupnet
