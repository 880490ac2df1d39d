import Mathlib.Order.WithBot
import Groupnet.Lib.Ranked
import Groupnet.Hosted.Invariant
import Groupnet.Wire.Accepted

/-!
# Beliefs about the group merge in any order

The fencing order is the order of a key: the epoch, then no host, then the hosts by the
rank placement gives them for the group.  Nothing is assumed of the hash, since hosts
whose scores collide are ranked by their ids.

A follower that hears a pair keeps the greater of it and its own.  What it has adopted
after a run is then the greatest pair of the run, whatever the order the frames came in
and however often each of them came.
-/

namespace Groupnet

open Wire (Frame LeadBody)

/-! ## The order -/

/-- A host's place among the hosts of one epoch, at the bottom when there is none. -/
def hostRank (group : GroupId) : Option NodeId → WithBot Placement.Rank
  | none => ⊥
  | some host => WithBot.some (Placement.rank (Placement.ownerScore group.str host) host)

def fence (group : GroupId) (p : Nat × Option NodeId) : Nat ×ₗ WithBot Placement.Rank :=
  toLex (p.1, hostRank group p.2)

theorem fence_lt_iff {group : GroupId} {e e' : Nat} {h h' : Option NodeId} :
    fence group (e, h) < fence group (e', h') ↔
      e < e' ∨ e = e' ∧ hostRank group h < hostRank group h' :=
  Prod.Lex.toLex_lt_toLex

theorem fence_none_lt_some (group : GroupId) (epoch : Nat) (host : NodeId) :
    fence group (epoch, none) < fence group (epoch, some host) :=
  fence_lt_iff.mpr (Or.inr ⟨rfl, WithBot.bot_lt_coe _⟩)

theorem fence_injective (group : GroupId) : Function.Injective (fence group) := by
  rintro ⟨e, h⟩ ⟨e', h'⟩ heq
  obtain ⟨rfl, hrank⟩ := Prod.mk.inj (toLex_inj.mp heq)
  cases h with
  | none =>
    cases h' with
    | none => rfl
    | some y => exact absurd hrank WithBot.bot_ne_coe
  | some x =>
    cases h' with
    | none => exact absurd hrank WithBot.coe_ne_bot
    | some y => rw [(Placement.rank_inj.mp (WithBot.coe_injective hrank)).2]

/-- The owner among two is the one of the higher rank. -/
theorem owner_pair_iff (key : String) {x y : NodeId} (hne : x ≠ y) :
    Placement.owner key (((∅ : Std.TreeSet NodeId).insert x).insert y) = some x ↔
      Placement.rank (Placement.ownerScore key y) y < Placement.rank
        (Placement.ownerScore key x) x := by
  have hmem : ∀ z, z ∈ (((∅ : Std.TreeSet NodeId).insert x).insert y).toList ↔ z = x ∨ z = y := by
    intro z
    simp only [Std.TreeSet.mem_toList, Std.TreeSet.mem_insert, Std.TreeSet.not_mem_emptyc,
      compare_eq_iff_eq, or_false, eq_comm (b := z)]
    exact or_comm
  have hrank : Placement.rank (Placement.ownerScore key y) y ≠
      Placement.rank (Placement.ownerScore key x) x := fun h => hne (Placement.rank_inj.mp h).2.symm
  unfold Placement.owner Placement.ownerAmong
  constructor
  · intro h
    exact lt_of_le_of_ne ((Placement.maxByKey_spec h).2 y ((hmem y).mpr (Or.inr rfl))) hrank
  intro hlt
  cases hmax : Placement.maxByKey (fun n => Placement.rank (Placement.ownerScore key n) n)
      (((∅ : Std.TreeSet NodeId).insert x).insert y).toList with
  | none =>
    have hin := (hmem x).mpr (Or.inl rfl)
    rw [Placement.maxByKey_eq_none hmax] at hin
    cases hin
  | some z =>
    obtain ⟨hin, hbound⟩ := Placement.maxByKey_spec hmax
    rcases (hmem z).mp hin with rfl | rfl
    · rfl
    · exact absurd (hbound x ((hmem x).mpr (Or.inl rfl))) (not_le.mpr hlt)

/-- The fencing comparison is the comparison of places. -/
theorem cmpPair_eq (group : GroupId) (a b : Nat × Option NodeId) :
    cmpPair group a b = compare (fence group a) (fence group b) := by
  obtain ⟨e, h⟩ := a
  obtain ⟨e', h'⟩ := b
  rcases lt_trichotomy e e' with hlt | rfl | hgt
  · rw [compare_lt_iff_lt.mpr (fence_lt_iff.mpr (Or.inl hlt))]
    simp [cmpPair, Nat.compare_eq_lt.mpr hlt]
  · unfold cmpPair
    rw [show compare (e, h).1 (e, h').1 = .eq from Nat.compare_eq_eq.mpr rfl]
    cases h with
    | none =>
      cases h' with
      | none => exact (compare_eq_iff_eq.mpr rfl).symm
      | some y => exact (compare_lt_iff_lt.mpr (fence_none_lt_some group e y)).symm
    | some x =>
      cases h' with
      | none => exact (compare_gt_iff_gt.mpr (fence_none_lt_some group e x)).symm
      | some y =>
        dsimp only
        by_cases hxy : x = y
        · rw [if_pos hxy, hxy]
          exact (compare_eq_iff_eq.mpr rfl).symm
        rw [if_neg hxy]
        split
        next hown =>
          refine (compare_gt_iff_gt.mpr (fence_lt_iff.mpr (Or.inr ⟨rfl, ?_⟩))).symm
          exact WithBot.coe_lt_coe.mpr ((owner_pair_iff group.str hxy).mp hown)
        next hown =>
          refine (compare_lt_iff_lt.mpr (fence_lt_iff.mpr (Or.inr ⟨rfl, ?_⟩))).symm
          refine WithBot.coe_lt_coe.mpr (lt_of_le_of_ne ?_ fun h => hxy (Placement.rank_inj.mp h).2)
          exact not_lt.mp fun hlt => hown ((owner_pair_iff group.str hxy).mpr hlt)
  · rw [compare_gt_iff_gt.mpr (fence_lt_iff.mpr (Or.inl hgt))]
    simp [cmpPair, Nat.compare_eq_gt.mpr hgt]

theorem cmpPair_gt_iff {group : GroupId} {a b : Nat × Option NodeId} :
    cmpPair group a b = .gt ↔ fence group b < fence group a := by
  rw [cmpPair_eq, compare_gt_iff_gt]

/-! ## What a follower hears -/

/-- The pair of a state frame. -/
def belief : LeadBody → Option (Nat × Option NodeId)
  | .state epoch host => some (epoch, host)
  | .claim .. | .grant .. | .resign .. => none

/-- Whether an election body does no more to a follower than raise its pair: it is no
resign, and no state that names the receiver. -/
def passiveBody (me : NodeId) : LeadBody → Bool
  | .state _ host => decide (host ≠ some me)
  | .claim .. | .grant .. => true
  | .resign .. => false

namespace Event

def lead (group : GroupId) : Event → Option LeadBody
  | .message _ bytes _ => ((Wire.decode bytes).filter fun f => f.group = group).bind Frame.lead
  | .start _ | .tick _ | .command _ => none

def pair (group : GroupId) (ev : Event) : Option (Nat × Option NodeId) :=
  (ev.lead group).bind belief

/-- Whether an event is no tick, leave or report of an anchor, and its body is passive. -/
def passive (group : GroupId) (me : NodeId) (ev : Event) : Bool :=
  match ev with
  | .tick _ | .command .leave | .command (.anchorActivated ..) | .command (.anchorObserved ..) =>
    false
  | .start _ | .command _ | .message .. => (ev.lead group).all (passiveBody me)

end Event

/-- A follower of a Hosted group, and the pair it has adopted. -/
def Follows (group : GroupId) (me : NodeId) (p : Nat × Option NodeId) (e : GroupEngine) : Prop :=
  ∃ s, e.seat = some s ∧ s.group = group ∧ s.me = me ∧ s.el.role = .follower ∧ s.pair = p

namespace Follows

variable {group : GroupId} {me : NodeId} {p : Nat × Option NodeId} {e : GroupEngine}

variable {frame : Frame} {body : LeadBody} {source : NodeId} {now : Time}

section

variable (h : Follows group me p e)

include h

theorem of_core {e' : GroupEngine} (hcore : e'.core = e.core) : Follows group me p e' := by
  obtain ⟨s, hseat, hs⟩ := h
  exact ⟨s, (GroupEngine.seat_eq_of_core hcore).trans hseat, hs⟩

theorem aside {o : Outcome} (ho : GroupEngine.Aside e o) : Follows group me p o.1 :=
  h.of_core ho.core

/-- A change of the election state that keeps the role and the pair. -/
theorem modify {f : Election → Election} (hf : ∀ el, el.role = .follower →
      (f el).role = .follower ∧ (f el).epoch = el.epoch ∧ (f el).host = el.host) :
    Follows group me p (e.modifyElection f) := by
  obtain ⟨s, hseat, hgroup, hme, hrole, hpair⟩ := h
  obtain ⟨hrole', hepoch, hhost⟩ := hf s.el hrole
  refine ⟨_, GroupEngine.seat_modifyElection hseat f, hgroup, hme, hrole', ?_⟩
  rw [← hpair]
  exact Prod.ext hepoch hhost

theorem modifyQuorum (f : QuorumState → QuorumState) : Follows group me p (e.modifyQuorum f) :=
  h.modify fun _ hrole => ⟨hrole, rfl, rfl⟩

theorem observe (epoch : Nat) : Follows group me p
      (e.modifyElection fun el => { el with highestSeen := max el.highestSeen epoch }) :=
  h.modify fun _ hrole => ⟨hrole, rfl, rfl⟩

/-! ## One event -/

theorem onClaimAsVoter (epoch : Nat) (claimant : NodeId) (now : Time) :
    Follows group me p (e.onClaimAsVoter epoch claimant now).1 := by
  have hrecord : Follows group me p (e.recordGrant epoch claimant now).1 := by
    unfold GroupEngine.recordGrant
    split
    · exact h
    split
    · exact h
    · exact h.modifyQuorum _
  unfold GroupEngine.onClaimAsVoter
  dsimp only
  split <;> exact hrecord

theorem onLeadClaim (source : NodeId) (epoch : Nat) (claimant : NodeId) (now : Time) :
    Follows group me p (e.onLeadClaim source epoch claimant now).1 := by
  have hvoted :=
    ((h.observe epoch).aside (GroupEngine.aside_learnClaimant _ claimant now)).onClaimAsVoter
    epoch claimant now
  have hyield : Follows group me p (GroupEngine.abandonClaim _) :=
    hvoted.modify (f := Election.abandoned) fun _ _ => ⟨rfl, rfl, rfl⟩
  show Follows group me p (if _ then _ else _)
  split
  · exact hyield
  · exact hvoted

/-- A follower runs no round, so a grant teaches it an epoch and no more. -/
theorem onLeadGrant (epoch : Nat) (claimant granter : NodeId) :
    Follows group me p (e.onLeadGrant epoch claimant granter).1 := by
  have hlearn : Follows group me p (e.learnGrantedEpoch epoch claimant granter) := by
    obtain ⟨s, hseat, _, _, hrole, _⟩ := id h
    unfold GroupEngine.learnGrantedEpoch
    rw [GroupEngine.election_of_seat hseat]
    simp only [hrole]
    exact h.observe epoch
  unfold GroupEngine.onLeadGrant
  split
  · exact h
  split
  · exact h
  dsimp only
  split
  · exact hlearn
  obtain ⟨s, hseat, _, _, hrole, _⟩ := id hlearn
  have hidle : (e.learnGrantedEpoch epoch claimant granter).standingAt epoch = false := by
    simp [GroupEngine.standingAt, GroupEngine.election_of_seat hseat, hrole]
  rw [if_pos (by rw [hidle]; rfl)]
  exact hlearn

/-- A follower keeps the greater of its own pair and the one it hears. -/
theorem onLeadState (source : NodeId) {epoch : Nat} {host : Option NodeId}
    (hother : host ≠ some me) :
    Follows group me (better (fence group) p (epoch, host))
      (e.onLeadState source epoch host).1 := by
  have hnoted : Follows group me p (e.noteResignReceipt source epoch host) := h.modifyQuorum _
  unfold GroupEngine.onLeadState
  generalize e.noteResignReceipt source epoch host = e at hnoted ⊢
  obtain ⟨s, hseat, hgroup, hme, hrole, hpair⟩ := id hnoted
  dsimp only
  rw [GroupEngine.election_of_seat hseat, GroupEngine.group_of_seat hseat, hgroup,
    GroupEngine.localId_of_seat hseat, hme]
  dsimp only
  have horder : cmpPair group (epoch, host) (s.el.epoch, s.el.host) = .gt ↔
      fence group p < fence group (epoch, host) := by
    rw [cmpPair_gt_iff, ← hpair]
    rfl
  cases hcmp : cmpPair group (epoch, host) (s.el.epoch, s.el.host) with
  | gt =>
    rw [better, if_pos (horder.mp hcmp)]
    rw [if_neg hother]
    unfold GroupEngine.adopt
    rw [GroupEngine.election_of_seat hseat]
    refine ⟨_, GroupEngine.seat_modifyElection hseat _, hgroup, hme, ?_, ?_⟩
    · unfold Seat.withEl Election.adopted
      split
      · rfl
      · exact hrole
    · unfold Seat.pair Seat.withEl Election.adopted
      split <;> rfl
  | lt | eq =>
    rw [better, if_neg fun hlt => by rw [horder.mpr hlt] at hcmp; cases hcmp]
    exact hnoted

end

/-- A frame with an election body is of an election kind and lists no status. -/
theorem kind_of_lead (hwf : frame.WellFormed) (hlead : frame.lead = some body) :
    frame.kind = Wire.leadKind body ∧ GroupEngine.statusesKnown frame = true := by
  obtain ⟨kind, fgroup, target, digest, wants, members, metadata, lead⟩ := frame
  cases hlead
  cases kind with
  | digest | deltaRequest | delta => exact nomatch congrArg Frame.lead hwf.1
  | ping | ack | pingReq | indirectAck =>
    exact nomatch congrArg Frame.lead (show _ = Frame.bare _ fgroup target from hwf)
  | leadClaim | leadGrant | leadState | leadResign =>
    obtain ⟨body', heq, _⟩ := hwf
    cases Option.some.inj (congrArg Frame.lead heq)
    refine ⟨congrArg Frame.kind heq, ?_⟩
    rw [heq]
    rfl

theorem onFrame_of_lead (hkind : frame.kind = Wire.leadKind body) :
    e.onFrame source frame now = e.onLead source frame now := by
  unfold GroupEngine.onFrame
  rw [hkind]
  cases body <;> rfl

section

variable (h : Follows group me p e)

include h

/-- A frame without one is gossip. -/
theorem onPlain (hlead : frame.lead = none) :
    Follows group me p (e.onFrame source frame now).1 := by
  cases hkind : frame.kind.isLead with
  | false => exact h.aside (GroupEngine.aside_onFrame e source now hkind)
  | true =>
    have hidle : e.onLead source frame now = (e, []) := by
      unfold GroupEngine.onLead
      rw [hlead]
      split <;> rfl
    unfold GroupEngine.onFrame
    split
    case h_8 | h_9 | h_10 | h_11 => exact hidle ▸ h
    all_goals cases ‹frame.kind = _› ▸ hkind

theorem onLead (hlead : frame.lead = some body) (hpass : passiveBody me body = true) :
    Follows group me ((belief body).elim p (better (fence group) p))
      (e.onLead source frame now).1 := by
  obtain ⟨s, hseat, _⟩ := id h
  unfold GroupEngine.onLead
  rw [GroupEngine.election_of_seat hseat, if_neg (by simp), hlead]
  cases body with
  | claim epoch claimant => exact h.onLeadClaim source epoch claimant now
  | grant epoch claimant granter => exact h.onLeadGrant epoch claimant granter
  | state epoch host => exact h.onLeadState source (of_decide_eq_true hpass)
  | resign epoch host => cases hpass

theorem onMessage (source : NodeId) (bytes : List UInt8) (now : Time)
    (hpass : (Event.message source bytes now).passive group me = true) :
    Follows group me
      (((Event.message source bytes now).pair group).elim p (better (fence group) p))
      (e.onMessage source bytes now).1 := by
  have hseen : Follows group me p (e.observeNow now) := h.of_core rfl
  have hgroup : (e.observeNow now).group = group := by
    obtain ⟨s, hseat, hs, _⟩ := id hseen
    exact (GroupEngine.group_of_seat hseat).trans hs
  unfold GroupEngine.onMessage
  simp only [Event.passive, Event.pair, Event.lead] at hpass ⊢
  generalize e.observeNow now = e at hseen hgroup ⊢
  cases hdecode : Wire.decode bytes with
  | none => exact hseen
  | some frame =>
    rw [hdecode] at hpass
    dsimp only
    by_cases hours : frame.group = group
    · rw [if_neg (by rw [hgroup]; exact not_not.mpr hours)]
      simp only [Option.filter_some, hours, decide_true, if_true, Option.bind_some] at hpass ⊢
      cases hlead : frame.lead with
      | none =>
        split
        · exact hseen
        · exact hseen.onPlain hlead
      | some body =>
        obtain ⟨hkind, hknown⟩ := kind_of_lead (Wire.wellFormed_of_decode hdecode).1 hlead
        rw [hlead] at hpass
        rw [hknown, if_neg (by simp), onFrame_of_lead hkind]
        exact hseen.onLead hlead hpass
    · rw [if_pos (by rw [hgroup]; exact hours)]
      simp only [Option.filter_some, hours, decide_false]
      exact hseen

theorem handle {ev : Event} (hpass : ev.passive group me = true) :
    Follows group me ((ev.pair group).elim p (better (fence group) p)) (e.handle ev).1 := by
  cases ev with
  | tick now => cases hpass
  | start now =>
    show Follows group me p (GroupEngine.disseminateDigest _ now).1
    refine Follows.aside ?_ (GroupEngine.aside_disseminateDigest _ now)
    exact Follows.modify (h.of_core rfl) fun _ hrole => ⟨hrole, rfl, rfl⟩
  | message source bytes now => exact h.onMessage source bytes now hpass
  | command cmd =>
    have hplain (hcmd : cmd.isLead = false) : Follows group me p (e.apply cmd).1 :=
      h.aside (GroupEngine.aside_apply e hcmd)
    cases cmd with
    | leave => cases hpass
    | anchorActivated epoch leaseUntil => cases hpass
    | anchorObserved epoch host => cases hpass
    | _ => exact hplain rfl

/-- A run leaves the follower with the greatest pair. -/
theorem run {events : List Event} (hpass : ∀ ev ∈ events, ev.passive group me = true) :
    Follows group me ((events.filterMap (Event.pair group)).foldl (better (fence group)) p)
      (events.foldl (fun e ev => (e.handle ev).1) e) := by
  induction events generalizing e p with
  | nil => exact h
  | cons ev events ih =>
    have hstep := ih (h.handle (hpass ev (List.mem_cons_self ..)))
      fun ev hev => hpass ev (List.mem_cons_of_mem _ hev)
    rw [List.foldl_cons, List.filterMap_cons]
    cases hpair : ev.pair group <;> rw [hpair] at hstep <;> exact hstep

end

end Follows

/-! ## The merge -/

/-- One pair fences another. -/
def Outranks (group : GroupId) (a b : Nat × Option NodeId) : Prop := cmpPair group a b = .gt

/-- A pair of the list that outranks every other pair of it. -/
def Greatest (group : GroupId) (p : Nat × Option NodeId) (l : List (Nat × Option NodeId)) : Prop :=
  p ∈ l ∧ ∀ q ∈ l, q ≠ p → Outranks group p q

theorem outranks_iff {group : GroupId} {a b : Nat × Option NodeId} :
    Outranks group a b ↔ fence group b < fence group a := cmpPair_gt_iff

theorem greatest_foldl (group : GroupId) (p : Nat × Option NodeId)
    (l : List (Nat × Option NodeId)) :
    Greatest group (l.foldl (better (fence group)) p) (p :: l) := by
  obtain ⟨hmem, hbound⟩ := foldl_better_spec (fence group) p l
  refine ⟨hmem, fun q hq hne => outranks_iff.mpr (lt_of_le_of_ne (hbound q hq) ?_)⟩
  exact fun heq => hne (fence_injective group heq)

/-- What the greatest is depends on the pairs only, not on their order or their number. -/
theorem Greatest.unique {group : GroupId} {p p' : Nat × Option NodeId}
    {l l' : List (Nat × Option NodeId)} (h : Greatest group p l) (h' : Greatest group p' l')
    (hsame : ∀ q, q ∈ l ↔ q ∈ l') : p = p' := by
  by_contra hne
  have hgt := outranks_iff.mp (h.2 p' ((hsame p').mpr h'.1) (Ne.symm hne))
  exact lt_asymm hgt (outranks_iff.mp (h'.2 p ((hsame p).mp h.1) hne))

/-- The fencing order is a strict total order, epoch-major, with no host below any host. -/
structure Fences (group : GroupId) : Prop where
  irrefl : ∀ a, ¬ Outranks group a a
  trans : ∀ a b c, Outranks group a b → Outranks group b c → Outranks group a c
  total : ∀ a b, a ≠ b → Outranks group a b ∨ Outranks group b a
  epochMajor : ∀ a b, b.1 < a.1 → Outranks group a b
  named : ∀ epoch host, Outranks group (epoch, some host) (epoch, none)
  less : ∀ a b, cmpPair group a b = .lt ↔ Outranks group b a

theorem fences (group : GroupId) : Fences group where
  irrefl a h := lt_irrefl _ (outranks_iff.mp h)
  trans a b c hab hbc := outranks_iff.mpr ((outranks_iff.mp hbc).trans (outranks_iff.mp hab))
  total a b hne := by
    rcases lt_trichotomy (fence group a) (fence group b) with hlt | heq | hgt
    · exact Or.inr (outranks_iff.mpr hlt)
    · exact absurd (fence_injective group heq) hne
    · exact Or.inl (outranks_iff.mpr hgt)
  epochMajor a b hlt := outranks_iff.mpr (fence_lt_iff.mpr (Or.inl hlt))
  named epoch host := outranks_iff.mpr (fence_none_lt_some group epoch host)
  less a b := by rw [outranks_iff, cmpPair_eq, compare_lt_iff_lt]

def adoptedAfter (e : GroupEngine) (events : List Event) : Nat × Option NodeId :=
  (events.foldl (fun e ev => (e.handle ev).1) e).leadership

/-- The fencing order is total, and a follower that hears states adopts the greatest pair
it held or heard, in whatever order and however often they come. -/
theorem beliefs_merge {e : GroupEngine} (hhosted : e.election.isSome = true)
    (hrole : e.role = .follower) {events : List Event}
    (hpass : ∀ ev ∈ events, ev.passive e.group e.localId = true) :
    (∀ group, Fences group) ∧
      Greatest e.group (adoptedAfter e events)
        (e.leadership :: events.filterMap (Event.pair e.group)) ∧
      ∀ events' : List Event, (∀ ev ∈ events', ev.passive e.group e.localId = true) →
        (∀ p, p ∈ events.filterMap (Event.pair e.group) ↔
          p ∈ events'.filterMap (Event.pair e.group)) →
        adoptedAfter e events' = adoptedAfter e events := by
  obtain ⟨el, hel⟩ := Option.isSome_iff_exists.mp hhosted
  have hseat : e.seat = some ⟨e.localId, e.group, e.leaving, el⟩ := by
    simp [GroupEngine.seat, hel]
  have hfollows : Follows e.group e.localId e.leadership e :=
    ⟨_, hseat, rfl, rfl, (GroupEngine.role_of_seat hseat).symm.trans hrole,
      (GroupEngine.leadership_of_seat hseat).symm⟩
  have hgreatest : ∀ evs : List Event, (∀ ev ∈ evs, ev.passive e.group e.localId = true) →
      Greatest e.group (adoptedAfter e evs)
        (e.leadership :: evs.filterMap (Event.pair e.group)) := by
    intro evs hevs
    obtain ⟨s, hs, _, _, _, hpair⟩ := hfollows.run hevs
    rw [adoptedAfter, GroupEngine.leadership_of_seat hs, ← Seat.pair, hpair]
    exact greatest_foldl e.group e.leadership _
  refine ⟨fences, hgreatest events hpass, fun events' hpass' hsame => ?_⟩
  refine (hgreatest events' hpass').unique (hgreatest events hpass) fun p => ?_
  rw [List.mem_cons, List.mem_cons, hsame p]

theorem lead_stateMessage (group : GroupId) (source : NodeId) {epoch : Nat} (h : epoch ≤ u64Max)
    (host : Option NodeId) (now : Time) :
    (stateMessage group source epoch host now).lead group = some (.state epoch host) := by
  have hwf : Frame.WellFormed
      { Frame.bare .leadState group none with lead := some (.state epoch host) } :=
    ⟨.state epoch host, rfl, h⟩
  simp only [stateMessage, Event.lead, Wire.decode_encode hwf, Option.filter_some]
  have hours : (Frame.bare .leadState group none).group = group := rfl
  rw [if_pos (decide_eq_true hours)]
  rfl

def heard : List Event :=
  [stateMessage (.ofChar 'g') (.ofChar 'b') 2 (some (.ofChar 'b')) 5,
    stateMessage (.ofChar 'g') (.ofChar 'c') 1 none 6]

theorem beliefs_merge_newcomer :
    Greatest (.ofChar 'g') (adoptedAfter newLobby heard)
      [(0, none), (2, some (.ofChar 'b')), (1, none)] := by
  have hfirst := lead_stateMessage (.ofChar 'g') (.ofChar 'b') (by decide : 2 ≤ u64Max)
    (some (.ofChar 'b')) 5
  have hsecond := lead_stateMessage (.ofChar 'g') (.ofChar 'c') (by decide : 1 ≤ u64Max) none 6
  have hpass : ∀ ev ∈ heard, ev.passive (.ofChar 'g') (.ofChar 'a') = true := by
    intro ev hev
    rcases List.mem_cons.mp hev with rfl | hev
    · exact (congrArg (Option.all (passiveBody (.ofChar 'a'))) hfirst).trans (by decide)
    · rw [List.mem_singleton.mp hev]
      exact (congrArg (Option.all (passiveBody (.ofChar 'a'))) hsecond).trans (by decide)
  have hpairs : heard.filterMap (Event.pair (.ofChar 'g')) =
      [(2, some (.ofChar 'b')), (1, none)] := by
    simp only [heard, List.filterMap_cons, Event.pair, hfirst, hsecond, Option.bind_some, belief,
      List.filterMap_nil]
  have h := (@beliefs_merge newLobby rfl rfl heard hpass).2.1
  rw [show newLobby.group = GroupId.ofChar 'g' from rfl, hpairs] at h
  exact h

end Groupnet
