import Groupnet.Rows.Aside

/-!
# The rows of a tick

Each election function of the engine does what some chain of rows does to the seat,
and emits the effects of that chain and no other election effect.  This module says
what that means (`Ends`), reads an engine off its seat, and shows it of the grant
rounds and of a tick.
-/

namespace Groupnet

open Wire (Frame LeadBody)

/-! ## The election effects of a batch -/

@[simp] theorem Seat.isLead_lead (s : Seat) (dest : NodeId) (body : LeadBody) :
    (s.lead dest body).isLead = true := rfl

theorem Says.isLead {inp : Input} {s : Seat} {x : Effect} (h : Says inp s x) : x.isLead = true := by
  cases h <;> rfl

theorem leads_eq_self {fx : List Effect} (h : ∀ x ∈ fx, x.isLead = true) : leads fx = fx :=
  List.filter_eq_self.mpr h

/-! ## Where an outcome ends -/

/-- An outcome leaves its engine at the seat a chain of rows leads to, and emits what
the chain emits. -/
structure Ends (now : Time) (inp : Input) (mv : Move) (s : Seat) (o : Outcome) (s' : Seat) : Prop
    where
  seat : o.1.seat = some s'
  rows : Rows now inp mv s (leads o.2) s'

/-- An outcome is a chain of rows. -/
def Runs (now : Time) (inp : Input) (s : Seat) (o : Outcome) : Prop :=
  ∃ mv s', Ends now inp mv s o s'

variable {now : Time} {inp : Input}

namespace Ends

variable {s s' : Seat} {o : Outcome} {m : Move} {e : GroupEngine}

theorem skip (h : e.seat = some s) : Ends now inp .quiet s (e, []) s :=
  ⟨h, Rows.nil s⟩

theorem aside (h : e.seat = some s) (ha : GroupEngine.Aside e o) : Ends now inp .quiet s o s := by
  refine ⟨(GroupEngine.seat_eq_of_core ha.core).trans h, ?_⟩
  rw [ha.leads_eq]
  exact Rows.nil s

theorem row {mv : Move} {fx : List Effect} (h : Row now inp mv s fx s') (hseat : e.seat = some s')
    (hfx : leads fx = fx) : Ends now inp mv s (e, fx) s' :=
  ⟨hseat, hfx.symm ▸ Rows.one h⟩

theorem andThen {m' : Move} {s'' : Seat} {f : GroupEngine → Outcome} (h : Ends now inp m s o s')
    (hf : Ends now inp m' s' (f o.1) s'') (hquiet : m = .quiet ∨ m' = .quiet) :
    Ends now inp (m.join m') s (o.andThen f) s'' := by
  refine ⟨hf.seat, ?_⟩
  rw [Emit.andThen_snd, leads_append]
  exact h.rows.append hf.rows hquiet

theorem andSay {f : GroupEngine → List Effect} (h : Ends now inp m s o s')
    (hf : ∀ x ∈ f o.1, Says inp s' x) :
    Ends now inp m s (o.andSay f) s' := by
  refine ⟨h.seat, ?_⟩
  rw [Emit.andSay_snd, leads_append, leads_eq_self fun x hx => (hf x hx).isLead]
  have hrows := h.rows.append (Rows.said hf) (Or.inr rfl)
  rwa [Move.join_quiet] at hrows

/-- Says nothing of the election. -/
theorem andPlain {f : GroupEngine → List Effect} (h : Ends now inp m s o s')
    (hf : ∀ x ∈ f o.1, x.isLead = false) :
    Ends now inp m s (o.andSay f) s' := by
  refine ⟨h.seat, ?_⟩
  have hnil : leads (f o.1) = [] := List.filter_eq_nil_iff.mpr fun x hx => by simp [hf x hx]
  rw [Emit.andSay_snd, leads_append, hnil, List.append_nil]
  exact h.rows

theorem cons {m m' : Move} {s s' s'' : Seat} {fx : List Effect} {o : Outcome}
    (h : Row now inp m s fx s') (ho : Ends now inp m' s' o s'') (hquiet : m = .quiet ∨ m' = .quiet)
    (hfx : leads fx = fx) :
    Ends now inp (m.join m') s (o.1, fx ++ o.2) s'' := by
  refine ⟨ho.seat, ?_⟩
  rw [leads_append, hfx]
  exact Rows.cons h ho.rows hquiet

theorem after {s'' : Seat} (h : Row now inp .quiet s [] s') (ho : Ends now inp m s' o s'') :
    Ends now inp m s o s'' :=
  cons h ho (Or.inl rfl) rfl

theorem runs (h : Ends now inp m s o s') : Runs now inp s o :=
  ⟨m, s', h⟩

end Ends

/-! ## Reading an engine by its seat -/

namespace Seat

variable (s : Seat)

@[simp] theorem withEl_el (el : Election) : (s.withEl el).el = el := rfl

@[simp] theorem withEl_me (el : Election) : (s.withEl el).me = s.me := rfl

@[simp] theorem withEl_group (el : Election) : (s.withEl el).group = s.group := rfl

@[simp] theorem withEl_leaving (el : Election) : (s.withEl el).leaving = s.leaving := rfl
@[simp] theorem withEl_self (s : Seat) : s.withEl s.el = s := rfl

@[simp] theorem withQuorum_el (f : QuorumState → QuorumState) :
    (s.withQuorum f).el = s.el.modifyQuorum f := rfl

@[simp] theorem withQuorum_me (f : QuorumState → QuorumState) : (s.withQuorum f).me = s.me := rfl

@[simp] theorem withQuorum_leaving (f : QuorumState → QuorumState) :
    (s.withQuorum f).leaving = s.leaving := rfl

/-- A round is run for an epoch. -/
theorem standing_cases {s : Seat} {epoch : Nat} (h : s.standing = some epoch) :
    (s.el.role = .claimant ∧ ∃ c, s.el.claim = some c ∧ c.epoch = epoch) ∨
      (s.el.role = .host ∧ s.el.epoch = epoch) := by
  unfold standing at h
  cases hrole : s.el.role with
  | follower => simp [hrole] at h
  | claimant =>
    simp only [hrole] at h
    obtain ⟨c, hc, rfl⟩ := Option.map_eq_some_iff.mp h
    exact Or.inl ⟨rfl, c, hc, rfl⟩
  | host =>
    simp only [hrole, Option.some.injEq] at h
    exact Or.inr ⟨rfl, h⟩

end Seat

namespace Election

variable (el : Election) (f : QuorumState → QuorumState)

@[simp] theorem modifyQuorum_cfg : (el.modifyQuorum f).cfg = el.cfg := rfl

@[simp] theorem modifyQuorum_role : (el.modifyQuorum f).role = el.role := rfl

@[simp] theorem modifyQuorum_claim : (el.modifyQuorum f).claim = el.claim := rfl

@[simp] theorem modifyQuorum_epoch : (el.modifyQuorum f).epoch = el.epoch := rfl

@[simp] theorem modifyQuorum_host : (el.modifyQuorum f).host = el.host := rfl

@[simp] theorem modifyQuorum_highestSeen : (el.modifyQuorum f).highestSeen = el.highestSeen := rfl

@[simp] theorem modifyQuorum_leaseUntil : (el.modifyQuorum f).leaseUntil = el.leaseUntil := rfl

@[simp] theorem modifyQuorum_voters : (el.modifyQuorum f).voters = el.voters := rfl

@[simp] theorem modifyQuorum_isExternal : (el.modifyQuorum f).isExternal = el.isExternal := rfl

@[simp] theorem modifyQuorum_quorum : (el.modifyQuorum f).quorum = el.quorum.map f := rfl

theorem modifyQuorum_of_none (h : el.quorum = none) : el.modifyQuorum f = el := by
  cases el
  simp only at h
  simp [modifyQuorum, h]

theorem modifyQuorum_id (hf : ∀ q, f q = q) : el.modifyQuorum f = el := by
  cases el
  simp [modifyQuorum, funext hf, Option.map_id']

end Election

/-! ## What no row changes -/

variable {s s' : Seat}

@[simp] theorem Election.adopted_cfg (el : Election) (epoch : Nat) (host : Option NodeId) :
    (el.adopted epoch host).cfg = el.cfg := by
  unfold adopted
  split <;> rfl

@[simp] theorem Seat.yield_cfg (s : Seat) (epoch : Nat) (claimant : NodeId) :
    (s.yield epoch claimant).cfg = s.el.cfg := by
  unfold yield
  split <;> rfl

/-- What identifies a seat: the node, its group and the group's configuration. -/
def Seat.fixed (s : Seat) : NodeId × GroupId × HostedConfig := (s.me, s.group, s.el.cfg)

theorem Row.fixed {mv : Move} {fx : List Effect} (h : Row now inp mv s fx s') :
    s'.fixed = s.fixed := by
  cases h <;> simp [Seat.fixed, Seat.withEl, Seat.withQuorum] <;> rfl

theorem Rows.fixed {mv : Move} {fx : List Effect} (h : Rows now inp mv s fx s') :
    s'.fixed = s.fixed := by
  induction h with
  | nil s => rfl
  | cons hrow _ _ ih => exact ih.trans hrow.fixed

theorem Seat.me_eq_of_fixed (h : s'.fixed = s.fixed) : s'.me = s.me :=
  congrArg Prod.fst h

theorem Seat.group_eq_of_fixed (h : s'.fixed = s.fixed) : s'.group = s.group :=
  congrArg (fun p => p.2.1) h

theorem Seat.cfg_eq_of_fixed (h : s'.fixed = s.fixed) : s'.el.cfg = s.el.cfg :=
  congrArg (fun p => p.2.2) h

theorem Seat.voters_eq_of_fixed (h : s'.fixed = s.fixed) : s'.el.voters = s.el.voters := by
  unfold Election.voters
  rw [Seat.cfg_eq_of_fixed h]

namespace Election

theorem isExternal_eq_of_cfg {el el' : Election} (h : el'.cfg = el.cfg) :
    el'.isExternal = el.isExternal := by
  unfold isExternal
  rw [h]

theorem voters_of_external {el : Election} (h : el.isExternal = true) : el.voters = none := by
  unfold isExternal at h
  unfold voters
  cases hact : el.cfg.activation <;> simp_all

theorem voters_of_closesOnWindow {el : Election} (h : el.closesOnWindow = true) :
    el.voters = none := by
  unfold closesOnWindow at h
  unfold voters
  cases hact : el.cfg.activation <;> simp_all

end Election

namespace GroupEngine

variable {e : GroupEngine} {s : Seat}

variable {epoch : Nat}

theorem seat_eq_some :
    e.seat = some s ↔
      e.election = some s.el ∧ e.localId = s.me ∧ e.group = s.group ∧ e.leaving = s.leaving := by
  unfold seat
  constructor
  · intro h
    obtain ⟨el, hel, rfl⟩ := Option.map_eq_some_iff.mp h
    exact ⟨hel, rfl, rfl, rfl⟩
  rintro ⟨hel, hme, hgroup, hleaving⟩
  rw [hel, hme, hgroup, hleaving]
  rfl

section

variable (h : e.seat = some s)

include h

theorem election_of_seat : e.election = some s.el := (seat_eq_some.mp h).1

theorem localId_of_seat : e.localId = s.me := (seat_eq_some.mp h).2.1

theorem group_of_seat : e.group = s.group := (seat_eq_some.mp h).2.2.1

theorem leaving_of_seat : e.leaving = s.leaving := (seat_eq_some.mp h).2.2.2

theorem seat_modifyElection (f : Election → Election) :
    (e.modifyElection f).seat = some (s.withEl (f s.el)) := by
  obtain ⟨hel, hme, hgroup, hleaving⟩ := seat_eq_some.mp h
  exact seat_eq_some.mpr ⟨by simp [modifyElection, hel], hme, hgroup, hleaving⟩

theorem seat_modifyQuorum (f : QuorumState → QuorumState) :
    (e.modifyQuorum f).seat = some (s.withQuorum f) :=
  seat_modifyElection h _

theorem quorumVoters_of_seat : e.quorumVoters = s.el.voters := by
  simp [quorumVoters, election_of_seat h]

theorem quorum_of_seat : e.quorum = s.el.quorum := by
  simp [quorum, election_of_seat h]

theorem isVoter_of_seat : e.isVoter = true ↔ s.isVoter := by
  simp [isVoter, Seat.isVoter, quorumVoters_of_seat h, localId_of_seat h, Option.any_eq_true]

theorem leaseMs_of_seat : e.leaseMs = s.el.cfg.leaseMs := by
  simp [leaseMs, election_of_seat h]

theorem role_of_seat : e.role = s.el.role := by
  simp [role, election_of_seat h]

theorem leadership_of_seat : e.leadership = (s.el.epoch, s.el.host) := by
  simp [leadership, election_of_seat h]

theorem isQuorum_of_seat : e.isQuorum = s.el.voters.isSome := by
  simp [isQuorum, quorumVoters_of_seat h]

theorem isExternal_of_seat : e.isExternal = s.el.isExternal := by
  simp [isExternal, election_of_seat h]

theorem sendLead_of_seat (dest : NodeId) (body : LeadBody) :
    e.sendLead dest body = s.lead dest body := by
  simp [sendLead, Seat.lead, Seat.frame, group_of_seat h]

theorem standingAt_of_seat (hstand : e.standingAt epoch = true) : s.standing = some epoch := by
  simp only [standingAt, election_of_seat h, Option.any_some] at hstand
  unfold Seat.standing
  cases hrole : s.el.role with
  | follower => simp [hrole] at hstand
  | claimant =>
    simp only [hrole, Option.any_eq_true, decide_eq_true_eq] at hstand
    obtain ⟨c, hc, hepoch⟩ := hstand
    simp [hc, hepoch]
  | host =>
    simp only [hrole, decide_eq_true_eq] at hstand
    simp [hstand]

/-- The adopted pair is only ever said to be what it is. -/
theorem says_teach (dest : NodeId) : ∀ x ∈ e.teach dest, Says inp s x := by
  intro x hx
  simp only [teach, stateBody, election_of_seat h, Option.map_some, List.mem_singleton] at hx
  rw [hx, sendLead_of_seat h]
  exact Says.teach s dest

theorem says_teachAll (dests : List NodeId) : ∀ x ∈ dests.flatMap e.teach, Says inp s x := by
  intro x hx
  obtain ⟨dest, _, hx⟩ := List.mem_flatMap.mp hx
  exact says_teach h dest x hx

/-- The standing claim is only said while it stands. -/
theorem says_claim (hrole : s.el.role = .claimant) (hstand : s.standing = some epoch) :
    ∀ x ∈ e.broadcastClaim epoch, Says inp s x := by
  intro x hx
  obtain ⟨dest, _, rfl⟩ := List.mem_map.mp hx
  rcases Seat.standing_cases hstand with ⟨_, c, hc, rfl⟩ | ⟨hhost, _⟩
  · rw [sendLead_of_seat h, localId_of_seat h]
    exact Says.claim dest hrole hc
  · rw [hrole] at hhost
    cases hhost

/-! ## Closing a round -/

/-- Taking an epoch tells the world of it. -/
theorem activate_ends {leaseUntil : Time}
    (hrow : Row now inp .raise s [.leadershipChanged epoch (some s.me)]
      (s.withEl (s.el.activated s.me epoch leaseUntil))) : Ends now inp .raise s
        (e.activate epoch leaseUntil)
      (s.withEl (s.el.activated s.me epoch leaseUntil)) := by
  have hseat : (e.modifyElection fun el => el.activated e.localId epoch leaseUntil).seat =
      some (s.withEl (s.el.activated s.me epoch leaseUntil)) := by
    rw [localId_of_seat h]
    exact seat_modifyElection h _
  have hrow' : Ends now inp .raise s
      (e.modifyElection fun el => el.activated e.localId epoch leaseUntil,
        [.leadershipChanged epoch (some s.me)])
      (s.withEl (s.el.activated s.me epoch leaseUntil)) := Ends.row hrow hseat rfl
  have hsay := hrow'.andSay (f := broadcastState) fun x hx => says_teachAll hseat _ x hx
  have hlocal : (e.modifyElection fun el => el.activated e.localId epoch leaseUntil).localId =
      s.me :=
    (localId_of_seat h : e.localId = s.me)
  simpa only [activate, Emit.andSay, List.singleton_append, hlocal] using hsay

end

theorem closeRoundIfMajority_ends (now : Time) (inp : Input) (h : e.seat = some s)
    (hstand : s.standing = some epoch) :
    ∃ mv s', Ends now inp mv s (e.closeRoundIfMajority epoch) s' ∧ s'.standing = some epoch ∧
      (s.el.role = .host → mv = .quiet ∧ s'.el.role = .host) := by
  unfold closeRoundIfMajority
  rw [election_of_seat h]
  dsimp only
  split
  next r q hr hq =>
    split
    · exact ⟨_, s, Ends.skip h, hstand, fun hrole => ⟨rfl, hrole⟩⟩
    next hmaj =>
      rcases Seat.standing_cases hstand with ⟨hrole, c, hc, rfl⟩ | ⟨hrole, rfl⟩
      · have hwin : Row now inp .raise s _ _ := Row.win hr hq hrole hc (Nat.le_of_not_lt hmaj)
        simp only [hrole]
        exact ⟨_, _, activate_ends h hwin, rfl, fun hhost => by cases hhost⟩
      have hext : Row now inp .quiet s _ _ := Row.extend hr hq hrole (Nat.le_of_not_lt hmaj)
      simp only [hrole]
      refine ⟨_, _, Ends.row hext (seat_modifyElection h _) rfl, ?_, fun _ => ⟨rfl, hrole⟩⟩
      simp [Seat.standing, hrole]
  next => exact ⟨_, s, Ends.skip h, hstand, fun hrole => ⟨rfl, hrole⟩⟩

/-! ## The voter's answer -/

theorem seat_recordGrant_refuse (h : e.seat = some s) {claimant : NodeId}
    (hv : (e.recordGrant epoch claimant now).2 = .refuse) :
    (e.recordGrant epoch claimant now).1.seat = some s := by
  unfold recordGrant at hv ⊢
  split
  · exact h
  next hvoter =>
    rw [if_neg hvoter] at hv
    split
    · exact h
    next q hq =>
      simp only [hq] at hv
      have hsame : (s.el.modifyQuorum fun q => q.recorded .refuse e.leaseMs now epoch claimant) =
          s.el := Election.modifyQuorum_id _ _ fun q => rfl
      refine (seat_modifyQuorum h _).trans ?_
      rw [hv, Seat.withQuorum, hsame, Seat.withEl_self]

/-- A claim that is not refused was put to a voter, and its ledger says so. -/
theorem recordGrant_granted (h : e.seat = some s) {claimant : NodeId}
    (hv : (e.recordGrant epoch claimant now).2 ≠ .refuse) : ∃ q, s.el.quorum = some q ∧ s.isVoter ∧
      q.verdict s.leaving now epoch claimant = (e.recordGrant epoch claimant now).2 ∧
      (e.recordGrant epoch claimant now).1.seat = some (s.withQuorum fun q =>
        q.recorded (e.recordGrant epoch claimant now).2 s.el.cfg.leaseMs now epoch claimant) := by
  unfold recordGrant at hv ⊢
  split at hv
  · exact absurd rfl hv
  next hvoter =>
    rw [if_neg hvoter]
    have hisVoter : s.isVoter := (isVoter_of_seat h).mp (by simpa using hvoter)
    rw [quorum_of_seat h] at hv ⊢
    cases hq : s.el.quorum with
    | none => simp [hq] at hv
    | some q =>
      refine ⟨q, rfl, hisVoter, by rw [leaving_of_seat h], ?_⟩
      rw [leaseMs_of_seat h]
      exact seat_modifyQuorum h _

/-- The write-ahead effect of a verdict is an election effect. -/
theorem leads_persistOf (v : Verdict) (epoch : Nat) (claimant : NodeId) :
    leads (persistOf v epoch claimant) = persistOf v epoch claimant := by
  cases v <;> rfl

/-- The self-grant records, counts and closes. -/
theorem selfGrant_ends (now : Time) (inp : Input) (h : e.seat = some s)
    (hstand : s.standing = some epoch) :
    ∃ mv s', Ends now inp mv s (e.selfGrant epoch now) s' ∧ s'.standing = some epoch ∧
      (s.el.role = .host → mv = .quiet ∧ s'.el.role = .host) := by
  unfold selfGrant
  dsimp only
  split
  next hv =>
    exact ⟨_, s, Ends.skip (seat_recordGrant_refuse h hv), hstand, fun hrole => ⟨rfl, hrole⟩⟩
  next hv =>
    obtain ⟨q, hq, hvoter, hverdict, hseat⟩ := recordGrant_granted h hv
    rw [localId_of_seat h] at hv hverdict hseat ⊢
    have hrow : Row now inp .quiet s _ _ := Row.selfGrant hq hvoter hverdict hv hstand
    have hcounted := seat_modifyQuorum hseat fun q => q.counted s.me
    have hsame : ((s.withQuorum fun q => q.recorded (e.recordGrant epoch s.me now).2
        s.el.cfg.leaseMs now epoch s.me).withQuorum fun q => q.counted s.me) =
        s.withQuorum fun q => (q.recorded (e.recordGrant epoch s.me now).2
          s.el.cfg.leaseMs now epoch s.me).counted s.me := by
      simp [Seat.withQuorum, Seat.withEl, Election.modifyQuorum, hq]
    rw [hsame] at hcounted
    have hlocal : ((e.recordGrant epoch s.me now).1.modifyQuorum fun q => q.counted s.me).localId =
        s.me := (localId_of_seat hcounted).trans rfl
    rw [hlocal]
    obtain ⟨mv, s', hclose, hstand', hhost⟩ :=
      closeRoundIfMajority_ends now inp hcounted hstand
    have hall := (Ends.row hrow hcounted (leads_persistOf _ _ _)).andThen
      (f := fun e => e.closeRoundIfMajority epoch) hclose (Or.inl rfl)
    exact ⟨mv, s', hall, hstand', hhost⟩

/-! ## Ticks -/

theorem quorumOpenRound_ends (now : Time) (inp : Input) (h : e.seat = some s)
    (hstand : s.standing = some epoch) :
    ∃ mv s', Ends now inp mv (s.withQuorum fun q => q.opened now) (e.quorumOpenRound epoch now) s' ∧
      s'.standing = some epoch := by
  unfold quorumOpenRound
  rw [quorum_of_seat h]
  cases hq : s.el.quorum with
  | none =>
    have hsame : s.withQuorum (fun q => q.opened now) = s := by
      rw [Seat.withQuorum, Election.modifyQuorum_of_none _ _ hq, Seat.withEl_self]
    rw [hsame]
    exact ⟨_, s, Ends.skip h, hstand⟩
  | some q =>
    obtain ⟨mv, s', hends, hstand', _⟩ :=
      selfGrant_ends now inp (seat_modifyQuorum h fun q => q.opened now) hstand
    exact ⟨mv, s', hends, hstand'⟩

theorem tickFollower_runs (h : e.seat = some s) (hrole : s.el.role = .follower) (due : Bool) :
    Runs now .tick s (e.tickFollower now due) := by
  unfold tickFollower
  rw [election_of_seat h]
  dsimp only
  split
  · exact (Ends.skip h).runs
  next hguard =>
    rw [Bool.not_eq_true', Bool.not_eq_false] at hguard
    simp only [ClaimGuard.opens, Bool.and_eq_true, Bool.not_eq_true',
      decide_eq_false_iff_not] at hguard
    obtain ⟨⟨⟨hstay, _⟩, _⟩, hhost⟩ := hguard
    rw [leaving_of_seat h] at hstay
    rw [localId_of_seat h] at hhost
    split
    next hext =>
      refine (Ends.andSay (f := fun e => e.externalClaimPrompt _ due) (Ends.skip h) ?_).runs
      intro x hx
      dsimp only [externalClaimPrompt] at hx
      split at hx
      · cases hx
      · rw [List.mem_singleton.mp hx]
        exact Says.prompt s _ hext
    next hext =>
      have hopen : Row now .tick .quiet s [] _ :=
        Row.openClaim rfl (satAdd now s.el.activationWindowMs) hrole hstay hhost
          (Bool.eq_false_iff.mpr hext)
      have hseat := seat_modifyElection h fun el =>
        { el with
          highestSeen := satAdd s.el.highestSeen 1
          claim := some ⟨satAdd s.el.highestSeen 1, satAdd now s.el.activationWindowMs⟩
          role := .claimant }
      obtain ⟨mv, s', hends, hstand⟩ := quorumOpenRound_ends now .tick hseat
        (rfl : _ = some (satAdd s.el.highestSeen 1))
      refine (Ends.andSay (Ends.after hopen hends) ?_).runs
      intro x hx
      split at hx
      next hclaimant =>
        rw [role_of_seat hends.seat] at hclaimant
        exact says_claim hends.seat hclaimant hstand x hx
      next => cases hx

theorem abandonClaim_ends (h : e.seat = some s) (hrole : s.el.role = .claimant) :
    Ends now inp .quiet s (e.abandonClaim, []) (s.withEl s.el.abandoned) :=
  Ends.row (Row.abandon hrole) (seat_modifyElection h _) rfl

theorem quorumRetrySelfGrant_ends (now : Time) (inp : Input) (h : e.seat = some s)
    (hstand : s.standing = some epoch) :
    ∃ mv s', Ends now inp mv s (e.quorumRetrySelfGrant epoch now) s' ∧
      s'.standing = some epoch := by
  unfold quorumRetrySelfGrant
  split
  · exact ⟨_, s, Ends.skip h, hstand⟩
  · obtain ⟨mv, s', hends, hstand', _⟩ := selfGrant_ends now inp h hstand
    exact ⟨mv, s', hends, hstand'⟩

section

variable (h : e.seat = some s)

include h

theorem tickClaimant_runs (hrole : s.el.role = .claimant) (due : Bool) :
    Runs now inp s (e.tickClaimant now due) := by
  unfold tickClaimant
  rw [election_of_seat h, Option.bind_some]
  split
  · exact (abandonClaim_ends h hrole).runs
  next c hc =>
    split
    · exact (abandonClaim_ends h hrole).runs
    split
    · split
      · exact (abandonClaim_ends h hrole).runs
      next hquorum =>
        rw [isQuorum_of_seat h, Bool.not_eq_true, Option.isSome_eq_false_iff,
          Option.isNone_iff_eq_none] at hquorum
        rw [leaseMs_of_seat h]
        exact (activate_ends h (Row.settle hquorum hrole hc)).runs
    · have hstand : s.standing = some c.epoch := by simp [Seat.standing, hrole, hc]
      obtain ⟨mv, s', hends, hstand'⟩ := quorumRetrySelfGrant_ends now inp h hstand
      dsimp only
      split
      · exact hends.runs
      next hclaimant =>
        rw [role_of_seat hends.seat, not_not] at hclaimant
        split
        · exact (hends.andSay (says_claim hends.seat hclaimant hstand')).runs
        · exact hends.runs

theorem beacon_ends : ∃ s', Ends now inp .quiet s e.beacon s' := by
  have hrot : (e.rotatedTargets ((e.election.map Election.beaconCursor).getD 0)
      e.config.gossipFanout.val).1.seat = some s :=
    h
  have hseat := seat_modifyElection hrot fun el => { el with
    beaconCursor := wrapAdd ((e.election.map Election.beaconCursor).getD 0)
      (e.rotatedTargets ((e.election.map Election.beaconCursor).getD 0)
        e.config.gossipFanout.val).2.length }
  have hcursor : Ends now inp .quiet s (e.beaconTargets.1, []) _ :=
    Ends.row (Row.cursor _) hseat rfl
  exact ⟨_, hcursor.andSay (f := fun e' => e.beaconTargets.2.flatMap e'.teach)
    (says_teachAll hseat _)⟩

theorem demoteHost_ends (hrole : s.el.role = .host) (hlapse : s.el.leaseUntil ≤ now) :
    Ends now inp .vacate s e.demoteHost (s.withEl s.el.demoted) := by
  unfold demoteHost
  rw [election_of_seat h]
  exact Ends.row (Row.lapse hrole hlapse) (seat_modifyElection h _) rfl

theorem renewalRound_ends (hrole : s.el.role = .host) :
    ∃ mv s', Ends now .tick mv s (e.renewalRound now) s' := by
  unfold renewalRound
  split
  · exact ⟨_, s, Ends.skip h⟩
  next hguard =>
    simp only [Bool.or_eq_true, Bool.not_eq_true', not_or, Bool.not_eq_false,
      isQuorum_of_seat h] at hguard
    obtain ⟨r, hr⟩ := Option.isSome_iff_exists.mp hguard.1
    rw [election_of_seat h]
    dsimp only
    rw [if_neg (not_not.mpr hrole)]
    have hopen : Row now .tick .renew s [] _ := Row.openRenewal rfl hr hrole
    have hstand : s.standing = some s.el.epoch := by simp [Seat.standing, hrole]
    obtain ⟨mv, s', hends, hstand', hquiet⟩ :=
      selfGrant_ends now .tick (seat_modifyQuorum h fun q => q.opened now) hstand
    obtain ⟨rfl, hhost⟩ := hquiet hrole
    refine ⟨_, s', (Ends.cons hopen hends (Or.inr rfl) rfl).andSay ?_⟩
    intro x hx
    obtain ⟨dest, _, rfl⟩ := List.mem_map.mp hx
    have hepoch : s'.el.epoch = s.el.epoch := by simpa [Seat.standing, hhost] using hstand'
    rw [sendLead_of_seat hends.seat, localId_of_seat hends.seat, ← hepoch]
    exact Says.renewal dest ((Seat.voters_eq_of_fixed hends.rows.fixed).trans hr) hhost

theorem says_externalRenewalPrompt : ∀ x ∈ e.externalRenewalPrompt, Says inp s x := by
  intro x hx
  unfold externalRenewalPrompt at hx
  split at hx
  · cases hx
  next hguard =>
    simp only [Bool.or_eq_true, Bool.not_eq_eq_eq_not, Bool.not_true, not_or, Bool.not_eq_false,
      isExternal_of_seat h] at hguard
    rw [List.mem_singleton.mp hx]
    exact Says.prompt s _ hguard.1

/-- The host's tick once its lease has been renewed off its rank. -/
theorem tickHost_after (hrole : s.el.role = .host) (due : Bool) : Runs now .tick s
      (if e.election.any fun el => decide (el.leaseUntil ≤ now) then e.demoteHost
      else if !due then (e, [])
      else ((e.renewalRound now).andSay fun e => e.externalRenewalPrompt).andThen beacon) := by
  rw [election_of_seat h, Option.any_some]
  split
  next hlapse => exact (demoteHost_ends h hrole (by simpa using hlapse)).runs
  · split
    · exact (Ends.skip h).runs
    obtain ⟨mv, s', hends⟩ : ∃ mv s', Ends now .tick mv s (e.renewalRound now) s' :=
      renewalRound_ends h hrole
    have hprompt := hends.andSay (says_externalRenewalPrompt hends.seat)
    obtain ⟨s'', hbeacon⟩ : ∃ s'', Ends now .tick .quiet s' (e.renewalRound now).1.beacon s'' :=
      beacon_ends hends.seat
    exact (hprompt.andThen (f := beacon) hbeacon (Or.inr rfl)).runs

theorem tickHost_runs (hrole : s.el.role = .host) (due : Bool) :
    Runs now .tick s (e.tickHost now due) := by
  unfold tickHost
  split
  next hsettle =>
    simp only [Bool.and_eq_true, isSettle, election_of_seat h, Option.any_some] at hsettle
    have hrenew : Row now .tick .quiet s [] _ := Row.renew hsettle.2 hrole
    obtain ⟨mv, s', hends⟩ : Runs now .tick _ _ :=
      tickHost_after (seat_modifyElection h fun el =>
        { el with leaseUntil := satAdd now el.cfg.leaseMs }) hrole due
    exact (Ends.after hrenew hends).runs
  · exact tickHost_after h hrole due

theorem says_resendResign (due : Bool) : ∀ x ∈ e.resendResign due, Says inp s x := by
  intro x hx
  unfold resendResign at hx
  rw [quorum_of_seat h] at hx
  split at hx
  · cases hx
  next epoch pending hres =>
    obtain ⟨q, hq, hres⟩ := Option.bind_eq_some_iff.mp hres
    split at hx
    · obtain ⟨dest, _, rfl⟩ := List.mem_map.mp hx
      rw [sendLead_of_seat h, localId_of_seat h]
      exact Says.resign dest hq hres
    · cases hx

theorem electionTick_runs (due : Bool) : Runs now .tick s (e.electionTick now due) := by
  obtain ⟨out, hout, mv, s', hends⟩ : ∃ out : Outcome,
      e.electionTick now due = out.andSay (fun e => e.resendResign due) ∧ Runs now .tick s out := by
    unfold electionTick
    rw [election_of_seat h, Option.map_some]
    cases hrole : s.el.role with
    | follower => exact ⟨_, rfl, tickFollower_runs h hrole due⟩
    | claimant => exact ⟨_, rfl, tickClaimant_runs h hrole due⟩
    | host => exact ⟨_, rfl, tickHost_runs h hrole due⟩
  rw [hout]
  exact (hends.andSay (f := fun e => e.resendResign due) (says_resendResign hends.seat due)).runs

end

end GroupEngine

end Groupnet
