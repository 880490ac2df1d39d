import Mathlib.Data.Finset.Card
import Mathlib.Data.Finset.Dedup
import Std.Data.TreeSet.Lemmas
import Groupnet.Lib.Ordered

/-!
# Majorities of a roster

A property holds of a majority of a duplicate-free list when it holds of more than
half of it.  Two majorities of one list share a member, which is what every argument
about quorums rests on.
-/

namespace Groupnet

universe u

variable {α : Type u} {voters : List α} {P Q : α → Prop}

/-- The property holds of more than half of the voters. -/
def Majority (voters : List α) (P : α → Prop) : Prop :=
  ∃ side : Finset α, voters.length / 2 + 1 ≤ side.card ∧ ∀ v ∈ side, v ∈ voters ∧ P v

namespace Majority

theorem mono (h : Majority voters P) (hPQ : ∀ v ∈ voters, P v → Q v) : Majority voters Q := by
  obtain ⟨side, hcard, hside⟩ := h
  exact ⟨side, hcard, fun v hv => ⟨(hside v hv).1, hPQ v (hside v hv).1 (hside v hv).2⟩⟩

/-- Two majorities of one roster share a voter. -/
theorem meet [DecidableEq α] (hnodup : voters.Nodup) (hP : Majority voters P)
    (hQ : Majority voters Q) : ∃ v ∈ voters, P v ∧ Q v := by
  obtain ⟨side, hcard, hside⟩ := hP
  obtain ⟨side', hcard', hside'⟩ := hQ
  have hsub : side ⊆ voters.toFinset := fun v hv => List.mem_toFinset.mpr (hside v hv).1
  have hsub' : side' ⊆ voters.toFinset := fun v hv => List.mem_toFinset.mpr (hside' v hv).1
  have hlen : voters.toFinset.card < side.card + side'.card := by
    rw [List.toFinset_card_of_nodup hnodup]
    omega
  obtain ⟨v, hv⟩ := Finset.inter_nonempty_of_card_lt_card_add_card hsub hsub' hlen
  obtain ⟨hv, hv'⟩ := Finset.mem_inter.mp hv
  exact ⟨v, (hside v hv).1, (hside v hv).2, (hside' v hv').2⟩

/-- A tally that is large enough is a majority. -/
theorem of_tally [LinearOrder α] {tally : Std.TreeSet α}
    (hsize : voters.length / 2 + 1 ≤ tally.size) (htally : ∀ v ∈ tally, v ∈ voters ∧ P v) :
    Majority voters P := by
  refine ⟨tally.toList.toFinset, ?_, ?_⟩
  · have hnodup : tally.toList.Nodup :=
      tally.distinct_toList.imp fun hne heq => hne (by simp [heq])
    rw [List.toFinset_card_of_nodup hnodup, Std.TreeSet.length_toList]
    exact hsize
  · intro v hv
    exact htally v (Std.TreeSet.mem_toList.mp (List.mem_toFinset.mp hv))

theorem of_countP [DecidableEq α] {β : Type*} {f : β → α} {view : List β} {p : β → Bool}
    (hnodup : (view.map f).Nodup) (hcount : view.length / 2 + 1 ≤ view.countP p)
    (hp : ∀ b ∈ view, p b = true → P (f b)) : Majority (view.map f) P := by
  refine ⟨((view.filter p).map f).toFinset, ?_, ?_⟩
  · have hsub : ((view.filter p).map f).Sublist (view.map f) := List.filter_sublist.map f
    rw [List.toFinset_card_of_nodup (hnodup.sublist hsub), List.length_map, List.length_map,
      ← List.countP_eq_length_filter]
    exact hcount
  · intro v hv
    obtain ⟨b, hb, rfl⟩ := List.mem_map.mp (List.mem_toFinset.mp hv)
    obtain ⟨hb, hpb⟩ := List.mem_filter.mp hb
    exact ⟨List.mem_map_of_mem hb, hp b hb hpb⟩

end Majority

end Groupnet
