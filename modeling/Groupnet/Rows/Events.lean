import Groupnet.Rows.Calls

/-!
# The rows of every event

What a leave, an election frame and an anchor report do, as chains of rows.  The four
calls a driver makes follow: `start`, `onTick`, `onMessage` and `apply` each leave the
seat where a chain leads, and emit its election effects and no others.
-/

namespace Groupnet

open Wire (Frame LeadBody)

def Input.ofFrame (source : NodeId) (frame : Frame) : Input :=
  match frame.lead with
  | some body => .frame source body
  | none => .tick

/-- What inbound bytes are to the election. -/
def Input.ofBytes (source : NodeId) (bytes : List UInt8) : Input :=
  match Wire.decode bytes with
  | some f => .ofFrame source f
  | none => .tick

def Input.ofEvent : Event → Input
  | .start _ | .tick _ => .tick
  | .message source bytes _ => .ofBytes source bytes
  | .command cmd => .command cmd

theorem Input.eq_command_of_ofEvent {ev : Event} {cmd : Command}
    (h : Input.ofEvent ev = .command cmd) : ev = .command cmd := by
  cases ev with
  | start | tick => cases h
  | message source bytes now =>
    simp only [Input.ofEvent, Input.ofBytes, Input.ofFrame] at h
    split at h
    · split at h <;> cases h
    · cases h
  | command cmd' =>
    cases h
    rfl

/-- The instant of an event.  A command has none, and is given one. -/
def Event.time (given : Time) : Event → Time
  | .start now | .tick now | .message _ _ now => now
  | .command _ => given

variable {now : Time} {inp : Input}

namespace GroupEngine

variable {e : GroupEngine} {s : Seat}

/-! ## Leaving -/

variable {epoch : Nat} {source claimant : NodeId}

/-- What a leave does after the election gave up. -/
theorem leave_core (e : GroupEngine) :
    e.leave.1.core = { e.electionOnLeave.1.core with leaving := true } := by
  unfold leave
  refine (core_nudgeAntiEntropyNow _).trans ((aside_recomputeCoordinator _).core.trans ?_)
  exact core_of_still ((still_stampSelf _).trans (still_modifyMember ..))

theorem leave_leads (e : GroupEngine) : leads e.leave.2 = leads e.electionOnLeave.2 := by
  unfold leave
  rw [Emit.andThen_snd, leads_append, leads_append, (aside_recomputeCoordinator _).leads_eq,
    List.append_nil]
  simp [leads, Effect.isLead]

theorem seat_leave {s' : Seat} (h : e.electionOnLeave.1.seat = some s') :
    e.leave.1.seat = some { s' with leaving := true } := by
  rw [seat_eq_core] at h ⊢
  rw [leave_core]
  obtain ⟨el, hel, rfl⟩ := Option.map_eq_some_iff.mp h
  simp [Core.seat, hel]

/-- A resign goes to every claim target, and the voters are noted. -/
theorem broadcastResign_eq (h : e.seat = some s) (epoch : Nat) :
    ∃ (pending : Std.TreeSet NodeId) (dests : List NodeId), (e.broadcastResign epoch).1.seat =
        some (s.withQuorum fun q => { q with resigning := some (epoch, pending) }) ∧
      (e.broadcastResign epoch).2 = dests.map fun d => s.lead d (.resign epoch s.me) := by
  refine ⟨_, _, seat_modifyQuorum h _, List.map_congr_left fun dest _ => ?_⟩
  have hseat := seat_modifyQuorum h fun q => { q with
    resigning := some (epoch, e.otherVoters.foldl (fun s n => s.insert n)
      (∅ : Std.TreeSet NodeId)) }
  rw [sendLead_of_seat hseat, localId_of_seat hseat]
  rfl

theorem leads_resigns (s : Seat) (epoch : Nat) (dests : List NodeId) :
    leads (dests.map fun d => s.lead d (.resign epoch s.me)) =
      dests.map fun d => s.lead d (.resign epoch s.me) := by
  refine leads_eq_self fun x hx => ?_
  obtain ⟨d, _, rfl⟩ := List.mem_map.mp hx
  rfl

/-- What a leaving node gives up is what it runs a round for. -/
theorem resignEpoch_of_seat (h : e.seat = some s) :
    e.resignEpoch = if s.el.voters.isSome then s.standing else none := by
  unfold resignEpoch Seat.standing
  rw [isQuorum_of_seat h, election_of_seat h]
  cases s.el.voters with
  | none => simp
  | some r => cases hrole : s.el.role <;> simp [hrole]

theorem leave_runs (h : e.seat = some s) : Runs now inp s e.leave := by
  have hresign := resignEpoch_of_seat h
  have helection := election_of_seat h
  -- The seat and the effects of a leave are those of `electionOnLeave`.
  have hfin : ∀ mv s', Rows now inp mv s (leads e.electionOnLeave.2) { s' with leaving := true } →
      e.electionOnLeave.1.seat = some s' → Runs now inp s e.leave := fun mv s' hrows hseat =>
    ⟨mv, _, seat_leave hseat, (leave_leads e).symm ▸ hrows⟩
  cases hrole : s.el.role with
  | follower =>
    have hnone : e.resignEpoch = none := by simp [hresign, Seat.standing, hrole]
    have hout : e.electionOnLeave = (e, []) := by
      simp [electionOnLeave, hnone, helection, hrole]
    refine hfin .quiet s ?_ (by rw [hout]; exact h)
    rw [hout]
    exact Rows.one (Row.leaveFollower hrole)
  | claimant =>
    cases hepoch : e.resignEpoch with
    | none =>
      have hout : e.electionOnLeave = (e.abandonClaim, []) := by
        simp [electionOnLeave, hepoch, helection, hrole]
      refine hfin .quiet (s.withEl s.el.abandoned) ?_
        (by rw [hout]; exact seat_modifyElection h _)
      rw [hout]
      exact Rows.quiet_append (Rows.one (Row.abandon hrole)) (Rows.one (Row.leaveFollower rfl))
    | some epoch =>
      have hout : e.electionOnLeave =
          (e.modifyElection Election.abandoned).broadcastResign epoch := by
        simp [electionOnLeave, hepoch, helection, hrole, Emit.andThen, abandonClaim]
      rw [hresign] at hepoch
      split at hepoch
      next hvoters =>
        obtain ⟨r, hr⟩ := Option.isSome_iff_exists.mp hvoters
        rcases Seat.standing_cases hepoch with ⟨_, c, hc, rfl⟩ | ⟨hhost, _⟩
        · obtain ⟨pending, dests, hseat, hfx⟩ :=
            broadcastResign_eq (seat_modifyElection h Election.abandoned) c.epoch
          refine hfin .quiet _ ?_ (by rw [hout]; exact hseat)
          rw [hout, hfx, leads_resigns]
          exact Rows.one (Row.resignClaim hr hrole hc pending dests)
        · rw [hrole] at hhost
          cases hhost
      next => cases hepoch
  | host =>
    cases hepoch : e.resignEpoch with
    | none =>
      have hr : s.el.voters = none := by
        rw [hresign] at hepoch
        cases hr : s.el.voters with
        | none => rfl
        | some r => simp [hr, Seat.standing, hrole] at hepoch
      have hout : e.electionOnLeave = e.demoteHost := by
        simp [electionOnLeave, hepoch, helection, hrole]
      have hdemote : e.demoteHost =
          (e.modifyElection Election.demoted, [.leadershipChanged s.el.epoch none]) := by
        simp [demoteHost, helection]
      refine hfin .vacate (s.withEl s.el.demoted) ?_
        (by rw [hout, hdemote]; exact seat_modifyElection h _)
      rw [hout, hdemote]
      exact Rows.one (Row.leaveHost hrole hr)
    | some epoch =>
      have hdemote : e.demoteHost =
          (e.modifyElection Election.demoted, [.leadershipChanged s.el.epoch none]) := by
        simp [demoteHost, helection]
      have hout : e.electionOnLeave = Emit.andThen
          (e.modifyElection Election.demoted, [.leadershipChanged s.el.epoch none])
          fun e => e.broadcastResign epoch := by
        simp [electionOnLeave, hepoch, helection, hrole, hdemote]
      rw [hresign] at hepoch
      split at hepoch
      next hvoters =>
        obtain ⟨r, hr⟩ := Option.isSome_iff_exists.mp hvoters
        have hstand : s.standing = some s.el.epoch := by simp [Seat.standing, hrole]
        rw [hstand] at hepoch
        cases hepoch
        obtain ⟨pending, dests, hseat, hfx⟩ :=
          broadcastResign_eq (seat_modifyElection h Election.demoted) s.el.epoch
        refine hfin .vacate _ ?_ (by rw [hout]; exact hseat)
        rw [hout, Emit.andThen_snd, hfx, leads_append, leads_resigns]
        exact Rows.one (Row.resignHost hr hrole pending dests)
      next => cases hepoch

/-! ## Claims -/

theorem cmpPair_gt_of_lt (group : GroupId) {epoch' : Nat} (h : epoch < epoch')
    (host host' : Option NodeId) : cmpPair group (epoch', host') (epoch, host) = .gt := by
  have hcmp : compare epoch' epoch = .gt := Nat.compare_eq_gt.mpr h
  simp [cmpPair, hcmp]

section

variable (h : e.seat = some s)

include h

theorem observe_ends (heard : inp.About s epoch) : Ends now inp .quiet s
      (e.modifyElection fun el => { el with highestSeen := max el.highestSeen epoch }, [])
      (s.withEl { s.el with highestSeen := max s.el.highestSeen epoch }) :=
  Ends.row (Row.observe heard) (seat_modifyElection h _) rfl

theorem claimIsOutranked_of_seat (epoch : Nat) (claimant : NodeId) :
    e.claimIsOutranked epoch claimant = s.outrankedBy epoch claimant := by
  simp [claimIsOutranked, Seat.outrankedBy, election_of_seat h, group_of_seat h, localId_of_seat h]

section

variable (heard : inp = .frame source (.claim epoch claimant))

include heard

theorem says_floorAnswer : ∀ x ∈ e.floorAnswer epoch claimant, Says inp s x := by
  intro x hx
  unfold floorAnswer at hx
  split at hx
  · cases hx
  next hguard =>
    simp only [Bool.or_eq_true, Bool.not_eq_true', decide_eq_true_eq, not_or, Bool.not_eq_true,
      Bool.not_eq_false] at hguard
    obtain ⟨⟨hstay, hvoter⟩, hother⟩ := hguard
    rw [leaving_of_seat h] at hstay
    rw [isVoter_of_seat h] at hvoter
    rw [localId_of_seat h] at hother
    rw [quorum_of_seat h] at hx
    split at hx
    · cases hx
    next ge gc hgranted =>
      split at hx
      · cases hx
      next hle =>
        split at hx
        · cases hx
        next hne =>
          rw [List.mem_singleton.mp hx, sendLead_of_seat h, localId_of_seat h]
          exact Says.floor heard hstay hvoter hother hgranted (Nat.le_of_not_lt hle) hne

/-- A node that grants a claim yields to it in the same step when it outranks its own. -/
theorem vote_ends : ∃ s', Ends now inp .quiet s
      (if (e.onClaimAsVoter epoch claimant now).1.claimIsOutranked epoch claimant
        then (e.onClaimAsVoter epoch claimant now).1.abandonClaim
        else (e.onClaimAsVoter epoch claimant now).1,
        (e.onClaimAsVoter epoch claimant now).2) s' := by
  by_cases hv : (e.recordGrant epoch claimant now).2 = .refuse
  · have hout : e.onClaimAsVoter epoch claimant now =
        ((e.recordGrant epoch claimant now).1,
          (e.recordGrant epoch claimant now).1.floorAnswer epoch claimant) := by
      simp [onClaimAsVoter, hv]
    have hseat := seat_recordGrant_refuse h hv
    have hskip : Ends now inp .quiet s ((e.recordGrant epoch claimant now).1, []) s :=
      Ends.skip hseat
    have hsaid := hskip.andSay (f := fun e => e.floorAnswer epoch claimant)
      (says_floorAnswer hseat heard)
    rw [hout]
    rw [claimIsOutranked_of_seat hseat]
    split
    next hout =>
      have hrole : s.el.role = .claimant := by
        simp only [Seat.outrankedBy, Bool.and_eq_true, decide_eq_true_eq] at hout
        exact hout.1
      refine ⟨_, seat_modifyElection hseat _, ?_⟩
      have hrows := hsaid.rows.quiet_append (Rows.one (Row.abandon hrole))
      simpa using hrows
    next => exact ⟨s, hsaid⟩
  · obtain ⟨q, hq, hvoter, hverdict, hseat⟩ := recordGrant_granted h hv
    have hout : e.onClaimAsVoter epoch claimant now =
        ((e.recordGrant epoch claimant now).1,
          persistOf (e.recordGrant epoch claimant now).2 epoch claimant ++
            [s.lead claimant (.grant epoch claimant s.me)]) := by
      simp only [onClaimAsVoter, if_neg hv, sendLead_of_seat hseat]
      rw [localId_of_seat hseat]
      rfl
    have hrow : Row now inp .quiet s _ _ := Row.vote heard hq hvoter hverdict hv
    rw [hout]
    refine ⟨_, Ends.row hrow ?_ (by rw [leads_append, leads_persistOf]; rfl)⟩
    rw [claimIsOutranked_of_seat hseat]
    have hyield : (s.withQuorum fun q => q.recorded (e.recordGrant epoch claimant now).2
        s.el.cfg.leaseMs now epoch claimant).outrankedBy epoch claimant =
        s.outrankedBy epoch claimant := rfl
    rw [hyield]
    unfold Seat.yield
    split
    · exact seat_modifyElection hseat _
    · exact hseat

theorem onLeadClaim_runs : Runs now inp s (e.onLeadClaim source epoch claimant now) := by
  have hobs : Ends now inp .quiet s _ _ :=
    observe_ends h (Or.inl ⟨source, _, heard, rfl⟩)
  have hlearn := hobs.andThen (f := fun e => e.learnClaimant claimant now)
    (Ends.aside hobs.seat (aside_learnClaimant _ _ _)) (Or.inl rfl)
  have htaught := hlearn.andSay
    (f := fun e => if e.claimIsStale epoch claimant then e.teach source else []) (by
      intro x hx
      split at hx
      · exact says_teach hlearn.seat source x hx
      · cases hx)
  obtain ⟨s', hvote⟩ : ∃ s', Ends now inp .quiet _ _ s' := vote_ends htaught.seat heard
  have hall := htaught.rows.quiet_append hvote.rows
  rw [← leads_append] at hall
  exact ⟨_, s', hvote.seat, hall⟩

end

/-! ## States -/

theorem adopt_ends {host : Option NodeId} (heard : inp.About s epoch)
    (hgt : cmpPair s.group (epoch, host) s.pair = .gt) (hhost : host ≠ some s.me) :
    Ends now inp .raise s (e.adopt epoch host) (s.withEl (s.el.adopted epoch host)) := by
  unfold adopt
  rw [election_of_seat h]
  exact Ends.row (Row.adopt heard hgt hhost) (seat_modifyElection h _) rfl

/-- A better pair that names this node teaches it the epoch only. -/
theorem learnSelfNamed_runs (heard : inp.About s epoch) :
    Runs now inp s (e.learnSelfNamed epoch) := by
  have hseat := seat_modifyElection h fun el => el.learnedSelf epoch
  unfold learnSelfNamed
  rw [election_of_seat h]
  dsimp only
  by_cases hle : epoch ≤ s.el.epoch
  · rw [if_pos hle]
    simp only [Election.learnedSelf, if_pos hle] at hseat
    exact (Ends.row (Row.observe heard) hseat rfl).runs
  rw [if_neg hle]
  simp only [Election.learnedSelf, if_neg hle] at hseat
  have hgt : cmpPair s.group (epoch, none) s.pair = .gt :=
    cmpPair_gt_of_lt s.group (Nat.lt_of_not_le hle) _ _
  exact (Ends.row (Row.adopt heard hgt (by simp)) hseat rfl).runs

theorem onLeadState_runs {host : Option NodeId} (heard : inp = .frame source (.state epoch host)) :
    Runs now inp s (e.onLeadState source epoch host) := by
  have hseat : (e.noteResignReceipt source epoch host).seat =
      some (s.withQuorum fun q => q.receipted s.me source epoch host) := by
    rw [← localId_of_seat h]
    exact seat_modifyQuorum h _
  have hrow : Row now inp .quiet s [] (s.withQuorum fun q => q.receipted s.me source epoch host) :=
    Row.receipted source epoch host
  have heard' : inp.About (s.withQuorum fun q => q.receipted s.me source epoch host) epoch :=
    Or.inl ⟨source, _, heard, rfl⟩
  have hrest : Runs now inp (s.withQuorum fun q => q.receipted s.me source epoch host)
      (e.onLeadState source epoch host) := by
    unfold onLeadState
    dsimp only
    rw [election_of_seat hseat]
    dsimp only
    rw [group_of_seat hseat]
    split
    next hgt =>
      split
      · exact learnSelfNamed_runs hseat heard'
      next hhost =>
        rw [localId_of_seat hseat] at hhost
        exact (adopt_ends hseat heard' hgt hhost).runs
    next =>
      exact ((Ends.skip hseat).andSay (f := fun e => e.teach source)
        (says_teach hseat source)).runs
    next => exact (Ends.skip hseat).runs
  obtain ⟨mv, s', hends⟩ := hrest
  exact (Ends.after hrow hends).runs

/-! ## Grants -/

/-- What a grant teaches: its epoch, and a voter the round can no longer win. -/
theorem learnGrantedEpoch_ends {granter : NodeId}
    (heard : inp = .frame source (.grant epoch claimant granter)) :
    ∃ s', Ends now inp .quiet s (e.learnGrantedEpoch epoch claimant granter, []) s' := by
  have hobs : Ends now inp .quiet s _ _ := observe_ends h (Or.inl ⟨source, _, heard, rfl⟩)
  unfold learnGrantedEpoch
  rw [election_of_seat h]
  dsimp only
  split
  · exact ⟨_, hobs⟩
  next hrefuses =>
    have hrole : s.el.role = .claimant := by
      simp only [Bool.not_eq_true', Bool.not_eq_false, Bool.and_eq_true, decide_eq_true_eq]
        at hrefuses
      exact hrefuses.1
    split
    · have hrefused : Ends now inp .quiet _ _ _ :=
        Ends.row (Row.refusal granter)
          (seat_modifyQuorum hobs.seat fun q => q.refusedBy granter) rfl
      have hboth : Ends now inp .quiet s _ _ :=
        hobs.andThen (f := fun e => (e.modifyQuorum fun q => q.refusedBy granter, []))
          hrefused (Or.inl rfl)
      split
      · have habandon : Ends now inp .quiet _ _ _ := abandonClaim_ends hrefused.seat hrole
        exact ⟨_, hboth.andThen (f := fun e => (e.abandonClaim, [])) habandon (Or.inl rfl)⟩
      · exact ⟨_, hboth⟩
    · exact ⟨_, hobs⟩

theorem onLeadGrant_runs {granter : NodeId}
    (heard : inp = .frame source (.grant epoch claimant granter)) :
    Runs now inp s (e.onLeadGrant epoch claimant granter) := by
  unfold onLeadGrant
  split
  · exact (Ends.skip h).runs
  split
  · exact (Ends.skip h).runs
  next hvoter =>
    simp only [Bool.not_eq_true', Bool.not_eq_false, quorumVoters_of_seat h,
      Option.any_eq_true, VoterRoster.contains_iff] at hvoter
    obtain ⟨r, hr, hmem⟩ := hvoter
    obtain ⟨s', hlearn⟩ : ∃ s', Ends now inp .quiet s _ s' := learnGrantedEpoch_ends h heard
    dsimp only
    split
    · exact hlearn.runs
    next hclaimant =>
      split
      · exact hlearn.runs
      next hstand =>
        rw [Bool.not_eq_true', Bool.not_eq_false] at hstand
        have hstand := standingAt_of_seat hlearn.seat hstand
        have hfixed := hlearn.rows.fixed
        rw [not_not, localId_of_seat hlearn.seat] at hclaimant
        have hcount : Row now inp .quiet s' [] (s'.withQuorum fun q => q.counted granter) :=
          Row.count (by rw [heard, hclaimant]) ((Seat.voters_eq_of_fixed hfixed).trans hr) hmem
            hstand
        obtain ⟨mv, s'', hclose, _⟩ := closeRoundIfMajority_ends now inp
          (seat_modifyQuorum hlearn.seat fun q => q.counted granter) hstand
        have hafter := Ends.after hcount hclose
        exact ⟨_, s'', hafter.seat,
          (List.nil_append _) ▸ hlearn.rows.append hafter.rows (Or.inl rfl)⟩

/-! ## Resigns -/

theorem onLeadResign_runs {host : NodeId} (heard : inp = .frame source (.resign epoch host)) :
    Runs now inp s (e.onLeadResign source epoch host now) := by
  unfold onLeadResign
  split
  · exact (Ends.skip h).runs
  next hguard =>
    simp only [Bool.or_eq_true, decide_eq_true_eq, not_or, not_not] at hguard
    obtain ⟨rfl, _⟩ := hguard
    have hrelease : Ends now inp .quiet s _ _ :=
      Ends.row (Row.release heard) (seat_modifyQuorum h fun q => q.released epoch source now) rfl
    have hseat := hrelease.seat
    have hreceipt : ∀ s' : Seat, s'.group = s.group →
        ∀ x ∈ (if (e.modifyQuorum fun q => q.released epoch source now).isVoter then
          [(e.modifyQuorum fun q => q.released epoch source now).sendLead source
            (.state epoch none)]
          else []), Says inp s' x := by
      intro s' hgroup x hx
      split at hx
      · rw [List.mem_singleton.mp hx, sendLead_of_seat hseat]
        have hsay : Says inp s' (s'.lead source (.state epoch none)) := Says.receipt heard
        unfold Seat.lead Seat.frame at hsay ⊢
        rw [hgroup] at hsay
        exact hsay
      · cases hx
    have hboth : ∃ s₁, Ends now inp .quiet s ((e.modifyQuorum fun q =>
        q.released epoch source now).modifyElection fun el =>
          { el with highestSeen := max el.highestSeen epoch }, []) s₁ ∧
        s₁.group = s.group ∧ s₁.el.epoch = s.el.epoch ∧ s₁.el.host = s.el.host :=
      ⟨_, hrelease.andThen (f := fun e => (e.modifyElection fun el =>
          { el with highestSeen := max el.highestSeen epoch }, []))
        (observe_ends hseat (Or.inl ⟨source, _, heard, rfl⟩)) (Or.inl rfl), rfl, rfl, rfl⟩
    obtain ⟨s₁, hobs, hgroup, hepoch, hhost⟩ := hboth
    dsimp only
    rw [election_of_seat hseat]
    dsimp only
    split
    next hpair =>
      have hvacate : Row now inp .vacate s₁ [.leadershipChanged epoch none]
          (s₁.withEl { s₁.el with host := none }) :=
        Row.vacate heard (hepoch.trans hpair.1) (hhost.trans hpair.2)
      have hall : Ends now inp .vacate s _ _ :=
        hobs.andThen (f := fun e => (e.modifyElection fun el => { el with host := none },
          [.leadershipChanged epoch none]))
          (Ends.row hvacate (seat_modifyElection hobs.seat _) rfl) (Or.inl rfl)
      exact (hall.andSay (f := fun _ => _) (hreceipt _ hgroup)).runs
    next => exact (hobs.andSay (f := fun _ => _) (hreceipt s₁ hgroup)).runs

/-! ## The anchor -/

theorem onAnchorActivated_runs {leaseUntil : Time}
    (hcmd : inp = .command (.anchorActivated epoch leaseUntil)) :
    Runs now inp s (e.onAnchorActivated epoch leaseUntil) := by
  unfold onAnchorActivated
  split
  · exact (Ends.skip h).runs
  next hleaving =>
    rw [leaving_of_seat h, Bool.not_eq_true] at hleaving
    rw [election_of_seat h]
    dsimp only
    split
    · exact (Ends.skip h).runs
    next hext =>
      rw [Bool.not_eq_true', Bool.not_eq_false] at hext
      split
      · exact (Ends.skip h).runs
      next hseen =>
        have hseen := Nat.le_of_not_lt hseen
        split
        · exact (Ends.skip h).runs
        next hown =>
          split
          next hhost =>
            have hrow : Row now inp .quiet s [] _ :=
              Row.prolong hcmd hext hleaving hseen hhost.1 hhost.2
            exact (Ends.row hrow (seat_modifyElection h _) rfl).runs
          next hnew =>
            refine (activate_ends h (Row.award hcmd hext hleaving hseen ?_ hnew)).runs
            intro hepoch host hh
            simp only [hepoch, hh, Option.any_some, decide_eq_true_eq, true_and, not_not,
              localId_of_seat h, ne_eq] at hown
            exact hown

theorem onAnchorObserved_runs {host : NodeId} (hcmd : inp = .command (.anchorObserved epoch host)) :
    Runs now inp s (e.onAnchorObserved epoch host) := by
  unfold onAnchorObserved
  rw [election_of_seat h]
  dsimp only
  split
  · exact (Ends.skip h).runs
  next hext =>
    rw [Bool.not_eq_true', Bool.not_eq_false] at hext
    split
    · exact (Ends.skip h).runs
    next hgt =>
      rw [not_not, group_of_seat h] at hgt
      split
      · exact learnSelfNamed_runs h (Or.inr ⟨hext, host, hcmd⟩)
      next hother =>
        rw [localId_of_seat h] at hother
        refine (adopt_ends h (Or.inr ⟨hext, host, hcmd⟩) hgt ?_).runs
        intro hsome
        exact hother (Option.some.inj hsome)

end

/-! ## The calls of a driver -/

theorem armTimer_plain (e : GroupEngine) : ∀ x ∈ [e.armTimer], x.isLead = false := by
  simp [armTimer, Effect.isLead]

section

variable (h : e.seat = some s)

include h

theorem start_runs (now : Time) : Runs now .tick s (e.start now) := by
  have hboot : Row now .tick .quiet s [] _ := Row.boot
  have hprimed : ({ e.observeNow now with
      nextAntiEntropy := satAdd now e.config.gossipIntervalMs
      nextProbe := satAdd now e.config.probeIntervalMs } : GroupEngine).seat = some s := h
  have hseat := seat_modifyElection hprimed fun el =>
    { el with noClaimBefore := satAdd now el.activationWindowMs }.quorumStart now
  have hround : Ends now .tick .quiet _ _ _ := Ends.aside hseat (aside_disseminateDigest _ now)
  exact ((Ends.after hboot hround).andPlain (f := fun e => [e.armTimer]) (armTimer_plain _)).runs

theorem onTick_runs (now : Time) : Runs now .tick s (e.onTick now) := by
  have hlive : Ends now .tick .quiet s ((e.observeNow now).tickLiveness now) s :=
    Ends.aside ((seat_eq_of_core (core_observeNow e now)).trans h) (aside_tickLiveness _ now)
  unfold onTick
  dsimp only
  generalize (e.observeNow now).tickLiveness now = live at hlive ⊢
  have hround : Ends now .tick .quiet s (live.andThen fun e => e.roundIfDue now) s :=
    hlive.andThen (Ends.aside hlive.seat (aside_roundIfDue _ now)) (Or.inl rfl)
  generalize decide (live.1.nextAntiEntropy ≤ now) = due
  generalize (live.andThen fun e => e.roundIfDue now) = round at hround ⊢
  obtain ⟨mv, s', helect⟩ : Runs now .tick s (round.1.electionTick now due) :=
    electionTick_runs hround.seat due
  have hall := hround.andThen (f := fun e => e.electionTick now due) helect (Or.inl rfl)
  exact (hall.andPlain (f := fun e => [e.armTimer]) (armTimer_plain _)).runs

theorem onLead_runs (source : NodeId) (frame : Frame) (now : Time) :
    Runs now (.ofFrame source frame) s (e.onLead source frame now) := by
  unfold onLead
  rw [election_of_seat h]
  simp only [Option.isNone_some, Bool.false_eq_true, if_false]
  unfold Input.ofFrame
  cases hlead : frame.lead with
  | none => exact (Ends.skip h).runs
  | some body =>
    cases body with
    | claim epoch claimant => exact onLeadClaim_runs h rfl
    | grant epoch claimant granter => exact onLeadGrant_runs h rfl
    | state epoch host => exact onLeadState_runs h rfl
    | resign epoch host => exact onLeadResign_runs h rfl

theorem onFrame_runs (source : NodeId) (frame : Frame) (now : Time) :
    Runs now (.ofFrame source frame) s (e.onFrame source frame now) := by
  cases hlead : frame.kind.isLead with
  | false => exact (Ends.aside h (aside_onFrame e source now hlead)).runs
  | true =>
    unfold onFrame
    cases hkind : frame.kind with
    | leadClaim | leadGrant | leadState | leadResign => exact onLead_runs h source frame now
    | _ =>
      rw [hkind] at hlead
      cases hlead

theorem onMessage_runs (source : NodeId) (bytes : List UInt8) (now : Time) :
    Runs now (.ofBytes source bytes) s (e.onMessage source bytes now) := by
  have hseat : (e.observeNow now).seat = some s := h
  unfold onMessage Input.ofBytes
  cases Wire.decode bytes with
  | none => exact (Ends.skip hseat).runs
  | some frame =>
    dsimp only
    split
    · exact (Ends.skip hseat).runs
    split
    · exact (Ends.skip hseat).runs
    · exact onFrame_runs hseat source frame now

/-- A command reads no clock, so its rows are those of any instant. -/
theorem apply_runs (cmd : Command) (now : Time) : Runs now (.command cmd) s (e.apply cmd) := by
  cases cmd with
  | leave => exact leave_runs h
  | anchorActivated epoch leaseUntil => exact onAnchorActivated_runs h rfl
  | anchorObserved epoch host => exact onAnchorObserved_runs h rfl
  | _ => exact (Ends.aside h (aside_apply e rfl)).runs

/-- Every call is a chain of rows. -/
theorem handle_runs (ev : Event) (given : Time) :
    Runs (ev.time given) (.ofEvent ev) s (e.handle ev) := by
  cases ev with
  | start now => exact start_runs h now
  | tick now => exact onTick_runs h now
  | message source bytes now => exact onMessage_runs h source bytes now
  | command cmd => exact apply_runs h cmd given

end

theorem seat_new {group : GroupId} {me : NodeId} {seeds : List NodeId} {config : Config}
    {hosted : HostedConfig} (hnew : new group me seeds config = .ok e)
    (hmode : config.mode = .hosted hosted) :
    e.seat = some ⟨me, group, false, Election.new hosted⟩ := by
  unfold new at hnew
  split at hnew
  · cases hnew
  cases hnew
  have hcore : (blank group me seeds config).filed.core = (blank group me seeds config).core := by
    unfold filed
    exact (core_of_still (still_reindex ..)).trans (core_of_still (still_restamp ..))
  rw [seat_eq_of_core hcore]
  simp [seat, blank, hmode]

end GroupEngine

end Groupnet
