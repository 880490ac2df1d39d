import Groupnet.Placement
import Groupnet.Lib.Ranked

/-!
# Placement is minimally disruptive

The owners of a key are the top of a ranking of the nodes by score and then by id.  The
rank of a node depends on its own weight alone, so that a node that leaves, joins or
changes its weight never reorders the others.  Nothing is assumed of the hash: nodes
whose scores collide are ranked by their ids.
-/

namespace Groupnet.Placement

open Std (TreeMap TreeSet)

variable {key : String} {m m' : TreeMap NodeId Nat} {x : NodeId}

theorem nodeScore_succ (key : String) (node : NodeId) (weight : Nat) :
    nodeScore key node (weight + 1) =
      max (nodeScore key node weight) (tokenScore key node weight) := by
  simp [nodeScore, List.range_succ]

theorem nodeScore_mono (key : String) (node : NodeId) {w w' : Nat} (h : w ≤ w') :
    nodeScore key node w ≤ nodeScore key node w' := by
  induction h with
  | refl => exact Nat.le_refl _
  | step _ ih => exact ih.trans (nodeScore_succ key node _ ▸ Nat.le_max_left ..)

theorem nodeScore_one (key : String) (node : NodeId) : nodeScore key node 1 = ownerScore key node :=
  (nodeScore_succ key node 0).trans (Nat.zero_max _)

theorem rank_mono (node : NodeId) {score score' : Nat} (h : score ≤ score') :
    rank score node ≤ rank score' node :=
  Prod.Lex.toLex_mono ⟨h, le_refl _⟩

/-- The ranks of the eligible members. -/
def ranks (key : String) (m : TreeMap NodeId Nat) : List Rank :=
  (m.toList.filter fun p => 0 < p.2).map fun p => rank (nodeScore key p.1 p.2) p.1

theorem owners_eq (key : String) (m : TreeMap NodeId Nat) (r : Nat) :
    owners key m r = ((ranked (ranks key m)).take r).map Rank.node := rfl

theorem mem_ranks {ρ : Rank} :
    ρ ∈ ranks key m ↔ ∃ w, m[ρ.node]? = some w ∧ 0 < w ∧
      ρ = rank (nodeScore key ρ.node w) ρ.node := by
  simp only [ranks, List.mem_map, List.mem_filter, decide_eq_true_eq, Prod.exists]
  constructor
  · rintro ⟨n, w, ⟨hin, hw⟩, rfl⟩
    exact ⟨w, TreeMap.mem_toList_iff_getElem?_eq_some.mp hin, hw, rfl⟩
  · rintro ⟨w, hin, hw, hρ⟩
    exact ⟨ρ.node, w, ⟨TreeMap.mem_toList_iff_getElem?_eq_some.mpr hin, hw⟩, hρ.symm⟩

theorem nodup_map_node_ranks (key : String) (m : TreeMap NodeId Nat) :
    ((ranks key m).map Rank.node).Nodup := by
  have hkeys : (m.toList.map Prod.fst).Nodup := by
    rw [TreeMap.map_fst_toList_eq_keys]
    exact TreeMap.nodup_keys
  have hnodes : (ranks key m).map Rank.node = (m.toList.filter fun p => 0 < p.2).map Prod.fst := by
    simp [ranks, Function.comp_def]
  rw [hnodes]
  exact hkeys.sublist (List.filter_sublist.map _)

theorem nodup_ranks (key : String) (m : TreeMap NodeId Nat) : (ranks key m).Nodup :=
  (nodup_map_node_ranks key m).of_map

/-- A node that has no weight is not ranked. -/
theorem ranks_of_zero (h : m.getD x 0 = 0) : (ranks key m).Perm (ranks key (m.erase x)) := by
  refine (List.perm_ext_iff_of_nodup (nodup_ranks ..) (nodup_ranks ..)).mpr fun ρ => ?_
  rw [mem_ranks, mem_ranks]
  refine exists_congr fun w => and_congr_left fun ⟨hw, _⟩ => ?_
  rw [TreeMap.getElem?_erase]
  split
  next hx =>
    have hx : x = ρ.node := by simpa using hx
    refine iff_of_false (fun hin => ?_) (by simp)
    rw [← hx] at hin
    rw [TreeMap.getD_eq_getD_getElem?, hin] at h
    exact absurd h hw.ne'
  next => rfl

/-- A node that has some is ranked among the others. -/
theorem ranks_of_pos (h : 0 < m.getD x 0) :
    (ranks key m).Perm (rank (nodeScore key x (m.getD x 0)) x :: ranks key (m.erase x)) := by
  have hx : m[x]? = some (m.getD x 0) := by
    rw [TreeMap.getD_eq_getD_getElem?] at h ⊢
    cases hm : m[x]? with
    | none => rw [hm] at h; exact absurd h (Nat.lt_irrefl 0)
    | some w => rfl
  have hout : ∀ ρ ∈ ranks key (m.erase x), ρ.node ≠ x := by
    rintro ρ hρ rfl
    obtain ⟨w, hin, _⟩ := mem_ranks.mp hρ
    simp at hin
  refine (List.perm_ext_iff_of_nodup (nodup_ranks ..) (List.nodup_cons.mpr ⟨fun h => hout _ h rfl,
    nodup_ranks ..⟩)).mpr fun ρ => ?_
  rw [List.mem_cons, mem_ranks, mem_ranks]
  by_cases hρ : ρ.node = x
  · subst hρ
    constructor
    · rintro ⟨w, hin, _, heq⟩
      cases hx.symm.trans hin
      exact .inl heq
    rintro (heq | ⟨w, hin, _⟩)
    · exact ⟨_, hx, h, heq⟩
    · simp at hin
  · have hne : ρ ≠ rank (nodeScore key x (m.getD x 0)) x := fun h => hρ (h ▸ rfl)
    rw [or_iff_right hne, TreeMap.getElem?_erase, if_neg]
    simpa using Ne.symm hρ

theorem ranked_ranks_of_pos (h : 0 < m.getD x 0) :
    (ranked (ranks key m)).map Rank.node =
      ((ranked (ranks key (m.erase x))).takeWhile
        (rank (nodeScore key x (m.getD x 0)) x < ·)).map Rank.node ++
      x :: ((ranked (ranks key (m.erase x))).dropWhile
        (rank (nodeScore key x (m.getD x 0)) x < ·)).map Rank.node := by
  rw [ranked_congr (ranks_of_pos h), ranked_cons, List.map_append]
  rfl

theorem not_mem_erase (key : String) (m : TreeMap NodeId Nat) (x : NodeId) :
    x ∉ (ranked (ranks key (m.erase x))).map Rank.node := by
  intro h
  obtain ⟨ρ, hρ, rfl⟩ := List.mem_map.mp h
  obtain ⟨w, hin, _⟩ := mem_ranks.mp ((ranked_perm _).mem_iff.mp hρ)
  simp at hin

/-- A node that leaves makes room for the next owner. -/
theorem owners_erase (key : String) (m : TreeMap NodeId Nat) (r : Nat) (x : NodeId) :
    owners key (m.erase x) r = ((owners key m (r + 1)).erase x).take r := by
  have hout := not_mem_erase key m x
  rw [owners_eq, owners_eq, List.map_take, List.map_take]
  rcases Nat.eq_zero_or_pos (m.getD x 0) with hw | hw
  · rw [ranked_congr (ranks_of_zero hw),
      List.erase_of_not_mem fun h => hout (List.mem_of_mem_take h),
      List.take_take, Nat.min_eq_left (Nat.le_succ r)]
  rw [ranked_ranks_of_pos hw, take_erase_take_succ, ← List.map_append,
    List.takeWhile_append_dropWhile]
  rw [← List.takeWhile_append_dropWhile (p := (rank (nodeScore key x (m.getD x 0)) x < ·))
    (l := ranked _), List.map_append] at hout
  exact fun h => hout (List.mem_append_left _ h)

/-- The others are ranked the same whatever a node weighs. -/
theorem ranked_ranks_erase_insert (key : String) (m : TreeMap NodeId Nat) (x : NodeId) (w : Nat) :
    ranked (ranks key ((m.insert x w).erase x)) = ranked (ranks key (m.erase x)) := by
  refine ranked_congr
    ((List.perm_ext_iff_of_nodup (nodup_ranks ..) (nodup_ranks ..)).mpr fun ρ => ?_)
  rw [mem_ranks, mem_ranks]
  refine exists_congr fun w' => and_congr_left fun _ => ?_
  simp only [TreeMap.getElem?_erase, TreeMap.getElem?_insert]
  split <;> rfl

/-- A node whose weight rises, or that joins, rises among the owners. -/
theorem owners_raise (key : String) (m : TreeMap NodeId Nat) (r : Nat) (x : NodeId) (d : Nat) :
    Raised x r (owners key m r) (owners key (m.insert x (m.getD x 0 + d)) r) := by
  have hout := not_mem_erase key m x
  have herase := ranked_ranks_erase_insert key m x (m.getD x 0 + d)
  have hd : (m.insert x (m.getD x 0 + d)).getD x 0 = m.getD x 0 + d := TreeMap.getD_insert_self
  rw [owners_eq, owners_eq, List.map_take, List.map_take]
  rcases Nat.eq_zero_or_pos (m.getD x 0 + d) with hw' | hw'
  · rw [ranked_congr (ranks_of_zero (m := m.insert x (m.getD x 0 + d)) (hd.trans hw')), herase,
      ranked_congr (ranks_of_zero (m := m) (by omega : m.getD x 0 = 0))]
    exact .same _
  rw [ranked_ranks_of_pos (m := m.insert x (m.getD x 0 + d)) (hd.symm ▸ hw'), herase, hd]
  generalize hL : ranked (ranks key (m.erase x)) = L at hout ⊢
  rcases Nat.eq_zero_or_pos (m.getD x 0) with hw | hw
  · rw [ranked_congr (ranks_of_zero hw), hL]
    have hsplit := congrArg (List.map Rank.node) (List.takeWhile_append_dropWhile
      (p := (rank (nodeScore key x (m.getD x 0 + d)) x < ·)) (l := L))
    rw [List.map_append] at hsplit
    rw [← hsplit] at hout ⊢
    exact raised_take_insert hout r
  · rw [ranked_ranks_of_pos hw, hL]
    have hle := rank_mono x (nodeScore_mono key x (Nat.le_add_right (m.getD x 0) d))
    obtain ⟨b, htake, hdrop⟩ := exists_takeWhile_append hle L
    rw [htake, hdrop, List.map_append, List.map_append]
    refine raised_take_move ?_ r
    rw [← List.map_append, ← htake]
    exact fun h => hout (((List.takeWhile_sublist _).map _).subset h)

/-- As many owners as there are eligible members, each once. -/
theorem owners_distinct (key : String) (m : TreeMap NodeId Nat) (r : Nat) :
    (owners key m r).Nodup ∧
      (owners key m r).length = min r (m.toList.filter fun p => 0 < p.2).length := by
  have hperm := (ranked_perm (ranks key m)).map Rank.node
  rw [owners_eq, List.map_take]
  refine ⟨(hperm.nodup_iff.mpr (nodup_map_node_ranks key m)).sublist (List.take_sublist ..), ?_⟩
  rw [List.length_take, hperm.length_eq, List.length_map, ranks, List.length_map]

def unweighted (members : TreeSet NodeId) : TreeMap NodeId Nat :=
  members.toList.foldl (fun m n => m.insert n 1) ∅

theorem getElem?_unweighted (members : TreeSet NodeId) (n : NodeId) :
    (unweighted members)[n]? = if n ∈ members then some 1 else none := by
  have hfold : ∀ (l : List NodeId) (m : TreeMap NodeId Nat),
      (l.foldl (fun m n => m.insert n 1) m)[n]? = if n ∈ l then some 1 else m[n]? := by
    intro l
    induction l with
    | nil => simp
    | cons a l ih =>
      intro m
      rw [List.foldl_cons, ih, TreeMap.getElem?_insert]
      by_cases hn : n ∈ l
      · simp [hn]
      by_cases ha : n = a
      · simp [ha]
      · simp [hn, ha, Ne.symm ha]
  rw [unweighted, hfold]
  simp

theorem mem_ranks_unweighted {members : TreeSet NodeId} {n : NodeId} (h : n ∈ members) :
    rank (ownerScore key n) n ∈ ranks key (unweighted members) := by
  refine mem_ranks.mpr ⟨1, ?_, Nat.one_pos, ?_⟩
  · rw [getElem?_unweighted]
    exact if_pos h
  · rw [nodeScore_one]
    rfl

theorem of_mem_ranks_unweighted {members : TreeSet NodeId} {ρ : Rank}
    (h : ρ ∈ ranks key (unweighted members)) :
    ρ.node ∈ members ∧ ρ = rank (ownerScore key ρ.node) ρ.node := by
  obtain ⟨w, hin, _, hρ⟩ := mem_ranks.mp h
  rw [getElem?_unweighted] at hin
  split at hin
  next hmem =>
    cases hin
    exact ⟨hmem, nodeScore_one key ρ.node ▸ hρ⟩
  next => cases hin

theorem owner_eq_head? (key : String) (members : TreeSet NodeId) (r : Nat) :
    owner key members = (owners key (unweighted members) (r + 1)).head? := by
  rw [owners_eq, List.head?_map, List.head?_take, if_neg (Nat.succ_ne_zero r)]
  cases hown : owner key members with
  | none =>
    have hempty : members.toList = [] := maxByKey_eq_none hown
    have hnone : ranks key (unweighted members) = [] := by
      refine List.eq_nil_iff_forall_not_mem.mpr fun ρ hρ => ?_
      have hin := TreeSet.mem_toList.mpr (of_mem_ranks_unweighted hρ).1
      rw [hempty] at hin
      cases hin
    rw [hnone]
    rfl
  | some n =>
    obtain ⟨hmem, hbest⟩ := maxByKey_spec hown
    rw [head?_ranked (mem_ranks_unweighted (TreeSet.mem_toList.mp hmem))]
    · rfl
    intro ρ hρ
    obtain ⟨hin, heq⟩ := of_mem_ranks_unweighted hρ
    rw [heq]
    exact hbest ρ.node (TreeSet.mem_toList.mpr hin)

/-- Taking a node out of the members, putting one in or raising its weight moves that
node alone among the owners; there are as many distinct owners as eligible members, up to
the count asked for; and the owner over a set is the first owner at equal weights. -/
theorem placement_minimally_disruptive (key : String) (m : TreeMap NodeId Nat) (r : Nat)
    (x : NodeId) :
    owners key (m.erase x) r = ((owners key m (r + 1)).erase x).take r ∧
      (∀ d, Raised x r (owners key m r) (owners key (m.insert x (m.getD x 0 + d)) r)) ∧
      (owners key m r).Nodup ∧
      (owners key m r).length = min r (m.toList.filter fun p => 0 < p.2).length ∧
      ∀ members : TreeSet NodeId,
        owner key members = (owners key (unweighted members) (r + 1)).head? :=
  ⟨owners_erase key m r x, owners_raise key m r x, (owners_distinct key m r).1,
    (owners_distinct key m r).2, fun members => owner_eq_head? key members r⟩

end Groupnet.Placement
