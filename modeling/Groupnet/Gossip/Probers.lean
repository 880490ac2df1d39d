import Groupnet.Engine.Step
import Groupnet.Lib.Shuffle

/-!
# The indirect probers are a sample

A node that misses a probe asks some members of its ring to probe the target for it.  It draws
them from the slots of the ring without the target, and keeps only the slots it swapped.  The
swapped slots stand for a pack in which every other slot holds itself, so the draws deal the
members, and each row of draws deals other members or deals them in another order.
-/

namespace Groupnet

namespace GroupEngine

/-- The slots that `drawSlots` takes, for given draws. -/
def takeSlots : Nat → List Nat → Std.TreeMap Nat Nat → List Nat
  | _, [], _ => []
  | i, j :: js, swapped =>
    swapped.getD j j :: takeSlots (i + 1) js (swapped.insert j (swapped.getD i i))

/-- The draws a stream gives. -/
def draws (eligible : Nat) : Nat → Nat → Spread.SplitMix → List Nat
  | 0, _, _ => []
  | k + 1, i, rng =>
    let drawn := rng.below (eligible - i)
    (i + drawn.1) :: draws eligible k (i + 1) drawn.2

/-- The member at a slot of the ring without `target`. -/
def memberAt (ring : List NodeId) (target : NodeId) (s : Nat) : Option NodeId :=
  match ring.findIdx? (· = target) with
  | some pos => if pos ≤ s then ring[s + 1]? else ring[s]?
  | none => ring[s]?

/-- The probers for given draws. -/
def probersOf (ring : List NodeId) (target : NodeId) (js : List Nat) : List NodeId :=
  (takeSlots 0 js ∅).filterMap (memberAt ring target)

/-- The lists of `k` members of the ring, none of them twice and none the target. -/
def Samples (ring : List NodeId) (target : NodeId) (k : Nat) : Set (List NodeId) :=
  {l | l.length = k ∧ l.Nodup ∧ ∀ x ∈ l, x ∈ ring ∧ x ≠ target}

/-- Whom a batch of effects asks to probe `target`. -/
def asked (target : NodeId) (fx : List Effect) : List NodeId :=
  fx.filterMap fun
    | .send dest frame =>
      if frame.kind = .pingReq ∧ frame.target = some target then some dest else none
    | _ => none

variable {ring : List NodeId} {target : NodeId} {eligible k i : Nat} {js : List Nat}

/-! ## The draws -/

theorem drawSlots_eq (rng : Spread.SplitMix) (swapped : Std.TreeMap Nat Nat) :
    (drawSlots eligible k i rng swapped).1 = takeSlots i (draws eligible k i rng) swapped := by
  induction k generalizing i rng swapped with
  | zero => rfl
  | succ k ih => exact congrArg (List.cons _) (ih _ _)

theorem draws_spec (h : i + k ≤ eligible) (rng : Spread.SplitMix) :
    (draws eligible k i rng).length = k ∧ Draws eligible i (draws eligible k i rng) := by
  induction k generalizing i rng with
  | zero => exact ⟨rfl, trivial⟩
  | succ k ih =>
    obtain ⟨hlen, hdraws⟩ := @ih (i + 1) (by omega) (rng.below (eligible - i)).2
    have hbelow : (rng.below (eligible - i)).1 < eligible - i := Nat.mod_lt _ (by omega)
    exact ⟨congrArg (· + 1) hlen, ⟨Nat.le_add_right _ _, by omega⟩, hdraws⟩

/-- The swapped slots stand for a pack. -/
theorem takeSlots_eq_deal (swapped : Std.TreeMap Nat Nat) :
    takeSlots i js swapped = deal (fun s => swapped.getD s s) i js := by
  induction js generalizing i swapped with
  | nil => rfl
  | cons j js ih =>
    have hpack : (fun s => (swapped.insert j (swapped.getD i i)).getD s s) =
        Function.update (fun s => swapped.getD s s) j (swapped.getD i i) := by
      funext s
      rw [Std.TreeMap.getD_insert, Function.update_apply]
      simp only [compare_eq_iff_eq, @eq_comm _ s j]
    rw [takeSlots, deal, ih, hpack]

/-! ## The members -/

/-- The member at a slot, in range. -/
def card (ring : List NodeId) (target : NodeId) (s : Nat) : NodeId :=
  ((ring.erase target)[s]?).getD target

theorem memberAt_eq (ring : List NodeId) (target : NodeId) (s : Nat) :
    memberAt ring target s = (ring.erase target)[s]? := by
  have hpred : (fun x : NodeId => decide (x = target)) = (· == target) := by
    funext x
    exact (beq_eq_decide x target).symm
  rw [memberAt, List.erase_eq_eraseP', List.eraseP_eq_eraseIdx, hpred]
  cases ring.findIdx? (· == target) with
  | none => rfl
  | some pos =>
    dsimp only
    rw [List.getElem?_eraseIdx]
    split <;> split <;> first | rfl | omega

theorem eligible_eq (ring : List NodeId) (target : NodeId) :
    ring.length - (if (ring.findIdx? (· = target)).isSome then 1 else 0) =
      (ring.erase target).length := by
  rw [List.length_erase, List.findIdx?_isSome]
  simp only [List.any_eq_true, decide_eq_true_eq, exists_eq_right]
  split <;> rfl

theorem card_spec (hring : ring.Nodup) :
    Set.InjOn (card ring target) (Set.Ico 0 (ring.erase target).length) ∧
      card ring target '' Set.Ico 0 (ring.erase target).length = {x | x ∈ ring ∧ x ≠ target} := by
  have hget (s : Nat) (hs : s < (ring.erase target).length) : card ring target s =
      (ring.erase target)[s] := by
    rw [card, List.getElem?_eq_getElem hs]
    rfl
  constructor
  · intro s hs t ht heq
    rw [hget s hs.2, hget t ht.2] at heq
    exact (hring.erase target).getElem_inj_iff.mp heq
  · ext x
    rw [Set.mem_ofPred_eq, and_comm, ← hring.mem_erase_iff, List.mem_iff_getElem]
    constructor
    · rintro ⟨s, hs, rfl⟩
      exact ⟨s, hs.2, (hget s hs.2).symm⟩
    · rintro ⟨s, hs, rfl⟩
      exact ⟨s, ⟨Nat.zero_le s, hs⟩, hget s hs⟩

theorem probersOf_eq (hdraws : Draws (ring.erase target).length 0 js) :
    probersOf ring target js = deal (card ring target) 0 js := by
  have hslots : takeSlots 0 js ∅ = deal id 0 js := by
    rw [takeSlots_eq_deal]
    congr
  have hrange := (deal_bijOn js.length (Set.injOn_id _)).mapsTo ⟨rfl, hdraws⟩
  rw [probersOf, hslots, ← Function.comp_id (card ring target), ← map_deal]
  refine List.filterMap_eq_map_iff_forall_eq_some.mpr fun s hs => ?_
  obtain ⟨_, hlt, rfl⟩ := hrange.2.2 s hs
  rw [memberAt_eq, card, id, List.getElem?_eq_getElem hlt.2]
  rfl

theorem probersOf_bijOn (hring : ring.Nodup) (target : NodeId) (k : Nat) :
    Set.BijOn (probersOf ring target) {js | js.length = k ∧ Draws (ring.erase target).length 0 js}
      (Samples ring target k) := by
  obtain ⟨hinj, himage⟩ := @card_spec ring target hring
  have hbij := deal_bijOn k hinj
  rw [himage] at hbij
  exact hbij.congr fun js hjs => (probersOf_eq hjs.2).symm

/-! ## The engine -/

theorem asked_livenessNotice (e : GroupEngine) (dest about : NodeId) (now : Time) :
    asked target (e.livenessNotice dest about now) = [] := by
  unfold livenessNotice
  split <;> simp [asked, Wire.Frame.bare]

theorem asked_suspect (e : GroupEngine) (node : NodeId) (now : Time) :
    asked target (e.suspect node now).2 = [] := by
  unfold suspect
  dsimp only
  split
  · rfl
  split
  · have hcoordinator (e : GroupEngine) : asked target e.recomputeCoordinator.2 = [] := by
      unfold recomputeCoordinator
      dsimp only
      split <;> rfl
    simp only [Emit.andSay_snd, Emit.andThen_snd]
    unfold asked at hcoordinator ⊢
    rw [List.filterMap_append, List.filterMap_append, hcoordinator]
    exact asked_livenessNotice _ _ _ _
  split
  · exact asked_livenessNotice _ _ _ _
  · rfl

theorem asked_pingReq (e : GroupEngine) (probers : List NodeId) :
    asked target (probers.map fun p => e.sendProbe p .pingReq (some target)) = probers := by
  rw [asked, List.filterMap_map]
  exact (List.filterMap_congr fun p _ => if_pos ⟨rfl, rfl⟩).trans List.filterMap_some

theorem asked_escalateIndirect (e : GroupEngine) (target : NodeId) (now : Time) :
    asked target (e.escalateIndirect target now).2 =
      (drawProbers e.probeRing.2 target e.config.indirectProbes.val e.rng).1 := by
  unfold escalateIndirect
  dsimp only
  split
  next hnone => rw [asked_suspect, List.isEmpty_iff.mp hnone]
  next => exact asked_pingReq _ _

/-- For a sorted ring, the draws of `k` slots, one from each of `k` shrinking ranges, give each
list of `k` different members other than the target once.  An engine asks the members that its
own draws give, as many as it wants or as there are. -/
theorem indirect_probers_sample {ring : List NodeId}
    (hring : ring.Pairwise fun a b => compare a b = .lt) (target : NodeId) (count : Nat) :
    let eligible := (ring.filter (· ≠ target)).length
    let k := min count eligible
    let rows := {js | js.length = k ∧ Draws eligible 0 js}
    Set.BijOn (probersOf ring target) rows (Samples ring target k) ∧
      ∀ (e : GroupEngine) (now : Time), e.probeRing.2 = ring → e.config.indirectProbes.val = count →
        draws eligible k 0 e.rng ∈ rows ∧
          asked target (e.escalateIndirect target now).2 =
            probersOf ring target (draws eligible k 0 e.rng) := by
  have hnodup : ring.Nodup := hring.imp fun h heq =>
    absurd (compare_eq_iff_eq.mpr heq) (by rw [h]; nofun)
  have hfilter : ring.filter (· ≠ target) = ring.erase target := by
    rw [hnodup.erase_eq_filter]
    exact List.filter_congr fun x _ => by simp [bne, beq_eq_decide]
  rw [hfilter]
  refine ⟨probersOf_bijOn hnodup target _, ?_⟩
  rintro e now rfl rfl
  refine ⟨draws_spec (by omega) _, ?_⟩
  rw [asked_escalateIndirect, probersOf, ← drawSlots_eq, ← eligible_eq]
  rfl

/-- An engine with the ring `a b c` asks `a` and `c` about `b`, in the order it draws them. -/
theorem indirect_probers_sample_three :
    let ring : List NodeId := [.ofChar 'a', .ofChar 'b', .ofChar 'c']
    probersOf ring (.ofChar 'b') [1, 1] = [.ofChar 'c', .ofChar 'a'] ∧
      [.ofChar 'c', .ofChar 'a'] ∈ Samples ring (.ofChar 'b') 2 ∧
      ∃ e : GroupEngine, asked (.ofChar 'b') (e.escalateIndirect (.ofChar 'b') 0).2 ∈ Samples ring
        (.ofChar 'b') 2 := by
  intro ring
  obtain ⟨hbij, hasked⟩ :=
    indirect_probers_sample (show ring.Pairwise fun a b => compare a b = .lt by decide +kernel)
    (.ofChar 'b') 2
  have hprobers : probersOf ring (.ofChar 'b') [1, 1] = [.ofChar 'c', .ofChar 'a'] := by
    decide +kernel
  have hdraws : Draws (ring.filter (· ≠ .ofChar 'b')).length 0 [1, 1] :=
    ⟨by decide +kernel, by decide +kernel, trivial⟩
  refine ⟨hprobers, hprobers ▸ hbij.mapsTo ⟨rfl, hdraws⟩, ?_⟩
  let e : GroupEngine := { blank (.ofChar 'g') (.ofChar 'a') [] .default with ring := some ring }
  obtain ⟨hrows, hprobed⟩ := hasked e 0 rfl rfl
  exact ⟨e, hprobed ▸ hbij.mapsTo hrows⟩

end GroupEngine

end Groupnet
