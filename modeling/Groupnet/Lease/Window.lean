import Groupnet.Lease.Roster

/-!
# What a reader serves on

A reader's window is within one lease duration of a renewal that every granter it counts
has confirmed.  A call that is neither a renewal nor a map of a granter leaves the
renewals alone, and of what the granter confirmed keeps it or drops it.
-/

namespace Groupnet

namespace LeaseCore

variable {c : LeaseCore} {w : NodeId} {seq at_ k a : Nat}

theorem foldlM_min_le {granters : Std.TreeMap NodeId Nat} {nodes : List NodeId} {first : Nat}
    (h : nodes.foldlM (fun confirmed granter =>
      granters[granter]?.map fun seq => min confirmed seq) first = some seq) :
    seq ≤ first ∧ ∀ n ∈ nodes, ∃ q, granters[n]? = some q ∧ seq ≤ q := by
  induction nodes generalizing first with
  | nil =>
    cases h
    exact ⟨Nat.le_refl _, fun _ hn => absurd hn List.not_mem_nil⟩
  | cons n nodes ih =>
    obtain ⟨mid, hmid, h⟩ := Option.bind_eq_some_iff.mp h
    obtain ⟨q, hq, rfl⟩ := Option.map_eq_some_iff.mp hmid
    obtain ⟨hle, hall⟩ := ih h
    refine ⟨Nat.le_trans hle (Nat.min_le_left _ _), fun x hx => ?_⟩
    rcases List.mem_cons.mp hx with rfl | hx
    · exact ⟨q, hq, Nat.le_trans hle (Nat.min_le_right _ _)⟩
    · exact hall x hx

/-- What a reader serves on was confirmed by every granter it counts. -/
theorem confirmedSeq_le (h : c.confirmedSeq = some seq) (hw : w ∈ c.roster) :
    ∃ q, c.granters[w]? = some q ∧ seq ≤ q := by
  unfold confirmedSeq at h
  split at h
  · cases h
  · exact (foldlM_min_le h).2 w (Std.TreeSet.mem_toList.mpr hw)

/-- A live window is within a lease duration of a renewal every granter confirmed. -/
theorem exists_of_liveAt {now : Nat} (h : c.liveAt now = true) (hw : w ∈ c.roster) :
    ∃ seq q publishedAt, c.published[seq]? = some publishedAt ∧ c.granters[w]? = some q ∧ seq ≤ q ∧
      now < publishedAt + c.durationMs := by
  obtain ⟨until_, huntil, hlt⟩ := (Option.any_eq_true _ _).mp h
  obtain ⟨publishedAt, hpub, rfl⟩ := Option.map_eq_some_iff.mp huntil
  obtain ⟨seq, hseq, hpub⟩ := Option.bind_eq_some_iff.mp hpub
  obtain ⟨q, hq, hle⟩ := confirmedSeq_le hseq hw
  refine ⟨seq, q, publishedAt, hpub, hq, hle, ?_⟩
  have hsat := satAdd_le_add publishedAt c.durationMs
  have hlt' := of_decide_eq_true hlt
  omega

theorem getElem?_dropOldest {published : Std.TreeMap Nat Nat}
    (h : (dropOldest published)[k]? = some a) : published[k]? = some a := by
  unfold dropOldest at h
  split at h
  next oldest _ =>
    rw [Std.TreeMap.getElem?_erase] at h
    split at h
    · cases h
    · exact h
  next => exact h

theorem getElem?_dropOldest_iterate {published : Std.TreeMap Nat Nat} {n : Nat}
    (h : (dropOldest^[n] published)[k]? = some a) : published[k]? = some a := by
  induction n generalizing published with
  | zero => exact h
  | succ n ih => exact getElem?_dropOldest (ih h)

/-- A reader remembers its renewals or has dropped them. -/
theorem published_onRenew (h : (c.onRenew at_).1.published[k]? = some a) :
    k = c.nextSeq ∧ a = at_ ∨ c.published[k]? = some a := by
  unfold onRenew at h
  dsimp only at h
  have hins := getElem?_dropOldest_iterate h
  rw [Std.TreeMap.getElem?_insert] at hins
  split at hins
  next heq =>
    exact Or.inl ⟨(Std.LawfulEqOrd.eq_of_compare heq).symm, (Option.some.inj hins).symm⟩
  next => exact Or.inr hins

/-- A call that takes no renewal and no map of `w` keeps what was published, and of `w` keeps
or drops what it confirmed. -/
structure Frame (w : NodeId) (c c' : LeaseCore) : Prop where
  me : c'.me = c.me
  epoch : c'.epoch = c.epoch
  duration : c'.durationMs = c.durationMs
  nextSeq : c'.nextSeq = c.nextSeq
  published : c'.published = c.published
  granters : ∀ q, c'.granters[w]? = some q → c.granters[w]? = some q
  departs : c.departs w = false → c'.departs w = false

theorem frame_setRoster (roster : List NodeId) : Frame w c (c.setRoster roster) := by
  have hsplit : ∀ (p : Prop) [Decidable p] (d : LeaseCore), Frame w c d →
      Frame w c (if p then d else { d with caughtUp := false, lapses := d.lapses + 1 }) := by
    intro p _ d hd
    split
    · exact hd
    · exact { hd with }
  unfold setRoster
  refine hsplit _ _ ⟨rfl, rfl, rfl, rfl, rfl, fun q hq => getElem?_of_foldl_erase hq, ?_⟩
  intro hdeparts
  unfold LeaseCore.departs at hdeparts ⊢
  generalize hlives : c.lives.filter _ = lives
  cases hlife : lives[w]? with
  | none => rfl
  | some life =>
    rw [← hlives, Std.TreeMap.getElem?_filter] at hlife
    obtain ⟨hlife, _⟩ := Option.pfilter_eq_some_iff.mp hlife
    rw [hlife] at hdeparts
    exact hdeparts

theorem frame_observe {granter : NodeId} (grants : GrantMap) (hne : granter ≠ w) :
    Frame w c (c.observeGrantMap granter grants) := by
  have hcmp : compare granter w ≠ .eq := by simpa using hne
  refine ⟨rfl, rfl, rfl, rfl, rfl, fun q hq => ?_, fun hdeparts => ?_⟩
  · unfold observeGrantMap at hq
    split at hq
    · split at hq
      · rwa [Std.TreeMap.getElem?_insert, if_neg hcmp] at hq
      · rwa [Std.TreeMap.getElem?_erase, if_neg hcmp] at hq
    · rwa [Std.TreeMap.getElem?_erase, if_neg hcmp] at hq
  · unfold observeGrantMap LeaseCore.departs at *
    dsimp only
    split
    · rwa [Std.TreeMap.getElem?_insert, if_neg hcmp]
    · rwa [Std.TreeMap.getElem?_erase, if_neg hcmp]

theorem frame_pin (granter : NodeId) (life : Nat) : Frame w c (c.pin granter life) := by
  have hroster : ∀ roster, Frame w c { c with roster := roster } := fun _ =>
    ⟨rfl, rfl, rfl, rfl, rfl, fun _ h => h, fun h => h⟩
  have hself : Frame w c c := ⟨rfl, rfl, rfl, rfl, rfl, fun _ h => h, fun h => h⟩
  unfold pin
  split
  · exact hself
  split
  · split
    · split
      · exact hself
      refine ⟨rfl, rfl, rfl, rfl, rfl, fun _ h => h, fun hdeparts => ?_⟩
      unfold LeaseCore.departs at hdeparts ⊢
      rw [Std.TreeMap.getElem?_erase]
      split
      · rfl
      · exact hdeparts
    · exact hroster _
  · exact hroster _

/-- What a call does that is neither a renewal nor a map of `w`. -/
theorem frame_call {call : LeaseCall} (hrenew : ∀ at_, call ≠ .onRenew at_)
    (hmap : ∀ grants, call ≠ .observeGrantMap w grants) : Frame w c (c.call call) := by
  have hself : ∀ caughtUp lapses, Frame w c { c with caughtUp := caughtUp, lapses := lapses } :=
    fun _ _ => ⟨rfl, rfl, rfl, rfl, rfl, fun _ h => h, fun h => h⟩
  cases call with
  | onRenew at_ => exact absurd rfl (hrenew at_)
  | setRoster roster => exact frame_setRoster roster
  | pin granter life => exact frame_pin granter life
  | observeGrantMap granter grants =>
    refine frame_observe grants ?_
    rintro rfl
    exact hmap grants rfl
  | forgetGranter granter =>
    refine ⟨rfl, rfl, rfl, rfl, rfl, fun q hq => ?_, fun h => h⟩
    unfold LeaseCore.call forgetGranter at hq
    rw [Std.TreeMap.getElem?_erase] at hq
    split at hq
    · cases hq
    · exact hq
  | poll now =>
    unfold LeaseCore.call poll
    dsimp only
    split
    · exact hself _ _
    · exact hself _ _
  | markCaughtUp now =>
    unfold LeaseCore.call markCaughtUp
    dsimp only
    split
    · exact hself _ _
    · exact hself _ _
  | requireResync => exact hself _ _

end LeaseCore

end Groupnet
