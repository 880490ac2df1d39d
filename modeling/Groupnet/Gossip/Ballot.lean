import Groupnet.Gossip.Touch

/-!
# The election's share of a call

The election functions move the election state and say bare frames.  They change
nothing that gossip keeps, except that a beacon builds the dissemination targets and
a claim of an unknown node makes it a member.
-/

namespace Groupnet

open Wire (Frame LeadBody)

namespace GroupEngine

def Free (p : Powers) (x : Effect) : Prop := ∀ (c : Cause) (e : GroupEngine), e.Utters p c x

variable {p : Powers}

/-- A frame of no lines, no wants, no sections and no registers. -/
theorem free_bare {dest : NodeId} {frame : Frame} (hdigest : frame.digest = [])
    (hwants : frame.wants = []) (hmembers : frame.members = []) (hmetadata : frame.metadata = [])
    (hlead : p.votes ∨ frame.lead = none) :
    Free p (.send dest frame) := by
  intro c e
  refine .lines dest frame 0 hmembers hlead (.inl hmetadata)
    (.inr ⟨by simp [hdigest], by simp [hwants]⟩) ?_
  intro d hd
  rw [hdigest] at hd
  exact absurd hd List.not_mem_nil

theorem free_sendLead (e : GroupEngine) (dest : NodeId) (body : LeadBody) :
    Free .all (e.sendLead dest body) :=
  free_bare rfl rfl rfl rfl (.inl trivial)

theorem free_sendProbe (e : GroupEngine) (dest : NodeId) (kind : Wire.Kind)
    (target : Option NodeId) : Free p (e.sendProbe dest kind target) :=
  free_bare rfl rfl rfl rfl (.inr rfl)

theorem free_leadershipChanged (epoch : Nat) (host : Option NodeId) :
    Free .all (.leadershipChanged epoch host) :=
  fun _ _ => .leadershipChanged epoch host trivial

theorem free_anchorClaimDue (epochHint : Nat) : Free .all (.anchorClaimDue epochHint) :=
  fun _ _ => .anchorClaimDue epochHint trivial

structure Electoral (e : GroupEngine) (o : Outcome) : Prop where
  bearing : o.1.bearing = e.bearing
  free : ∀ x ∈ o.2, Free .all x

namespace Electoral

variable {e e' : GroupEngine} {o : Outcome}

theorem skip (h : e'.bearing = e.bearing) : Electoral e (e', []) :=
  ⟨h, fun _ hx => absurd hx List.not_mem_nil⟩

theorem refl (e : GroupEngine) : Electoral e (e, []) := skip rfl

theorem one (h : e'.bearing = e.bearing) {x : Effect} (hx : Free .all x) : Electoral e (e', [x]) :=
  ⟨h, fun _ hy => List.mem_singleton.mp hy ▸ hx⟩

theorem andThen {f : GroupEngine → Outcome} (h : Electoral e o) (hf : Electoral o.1 (f o.1)) :
    Electoral e (o.andThen f) := by
  refine ⟨hf.bearing.trans h.bearing, ?_⟩
  intro x hx
  rcases List.mem_append.mp hx with hx | hx
  · exact h.free x hx
  · exact hf.free x hx

theorem andSay {f : GroupEngine → List Effect} (h : Electoral e o) (hf : ∀ x ∈ f o.1, Free .all x) :
    Electoral e (o.andSay f) := by
  refine ⟨h.bearing, ?_⟩
  intro x hx
  rcases List.mem_append.mp hx with hx | hx
  · exact h.free x hx
  · exact hf x hx

theorem of (h : Electoral e' o) (hb : e'.bearing = e.bearing) : Electoral e o :=
  ⟨h.bearing.trans hb, h.free⟩

theorem touched {now : Time} {c : Cause} (h : Electoral e o) : Touched .all now c e o :=
  .sayAt (.aside h.bearing (.inl trivial)) fun x hx => h.free x hx c o.1

end Electoral

/-! ## Fencing -/

variable (e : GroupEngine)

theorem free_teach (dest : NodeId) : ∀ x ∈ e.teach dest, Free .all x := by
  unfold teach
  split
  · simpa using free_sendLead _ _ _
  · simp

theorem free_broadcastState : ∀ x ∈ e.broadcastState, Free .all x := by
  intro x hx
  obtain ⟨dest, _, hx⟩ := List.mem_flatMap.mp hx
  exact free_teach e dest x hx

theorem electoral_activate (epoch : Nat) (leaseUntil : Time) :
    Electoral e (e.activate epoch leaseUntil) := by
  refine ⟨rfl, ?_⟩
  intro x hx
  rcases List.mem_cons.mp hx with rfl | hx
  · exact free_leadershipChanged _ _
  · exact free_broadcastState _ x hx

theorem electoral_demoteHost : Electoral e e.demoteHost := by
  unfold demoteHost
  split
  · exact .refl e
  · refine .one ?_ (free_leadershipChanged _ _)
    rfl

theorem electoral_adopt (epoch : Nat) (host : Option NodeId) :
    Electoral e (e.adopt epoch host) := by
  unfold adopt
  split
  · exact .refl e
  · refine .one ?_ (free_leadershipChanged _ _)
    rfl

theorem electoral_learnSelfNamed (epoch : Nat) : Electoral e (e.learnSelfNamed epoch) := by
  unfold learnSelfNamed
  split
  · exact .refl e
  split
  · exact .skip rfl
  · refine .one ?_ (free_leadershipChanged _ _)
    rfl

/-! ## Rounds -/

theorem bearing_recordGrant (epoch : Nat) (claimant : NodeId) (now : Time) :
    (e.recordGrant epoch claimant now).1.bearing = e.bearing := by
  unfold recordGrant
  split
  · rfl
  · split <;> rfl

theorem free_persistOf (verdict : Verdict) (epoch : Nat) (claimant : NodeId) :
    ∀ x ∈ persistOf verdict epoch claimant, Free .all x := by
  cases verdict with
  | fresh =>
    intro x hx c e
    rw [List.mem_singleton.mp hx]
    exact .persistGrant epoch claimant trivial
  | again | refuse => simp [persistOf]

theorem free_floorAnswer (epoch : Nat) (claimant : NodeId) :
    ∀ x ∈ e.floorAnswer epoch claimant, Free .all x := by
  unfold floorAnswer
  split
  · simp
  split
  · simp
  split
  · simp
  split
  · simp
  · simpa using free_sendLead _ _ _

theorem electoral_onClaimAsVoter (epoch : Nat) (claimant : NodeId) (now : Time) :
    Electoral e (e.onClaimAsVoter epoch claimant now) := by
  have hrec := bearing_recordGrant e epoch claimant now
  unfold onClaimAsVoter
  dsimp only
  split
  · exact ⟨hrec, free_floorAnswer _ _ _⟩
  refine ⟨hrec, ?_⟩
  intro x hx
  rcases List.mem_append.mp hx with hx | hx
  · exact free_persistOf _ _ _ x hx
  · rw [List.mem_singleton.mp hx]
    exact free_sendLead _ _ _

theorem electoral_closeRoundIfMajority (epoch : Nat) :
    Electoral e (e.closeRoundIfMajority epoch) := by
  unfold closeRoundIfMajority
  split
  · exact .refl e
  split
  · split
    · exact .refl e
    split
    · exact electoral_activate e _ _
    · exact .skip rfl
    · exact .refl e
  · exact .refl e

theorem electoral_selfGrant (epoch : Nat) (now : Time) : Electoral e (e.selfGrant epoch now) := by
  have hrec := bearing_recordGrant e epoch e.localId now
  unfold selfGrant
  dsimp only
  split
  · exact .skip hrec
  · exact .andThen ⟨hrec, free_persistOf _ _ _⟩ (electoral_closeRoundIfMajority _ _)

theorem electoral_quorumRetrySelfGrant (epoch : Nat) (now : Time) :
    Electoral e (e.quorumRetrySelfGrant epoch now) := by
  unfold quorumRetrySelfGrant
  split
  · exact .refl e
  · exact electoral_selfGrant e _ _

theorem electoral_quorumOpenRound (epoch : Nat) (now : Time) :
    Electoral e (e.quorumOpenRound epoch now) := by
  unfold quorumOpenRound
  split
  · exact .refl e
  · exact (electoral_selfGrant _ _ _).of rfl

theorem free_leadTo (targets : List NodeId) (body : LeadBody) :
    ∀ x ∈ targets.map (fun dest => e.sendLead dest body), Free .all x := by
  intro x hx
  obtain ⟨dest, _, rfl⟩ := List.mem_map.mp hx
  exact free_sendLead _ _ _

theorem bearing_learnGrantedEpoch (epoch : Nat) (claimant granter : NodeId) :
    (e.learnGrantedEpoch epoch claimant granter).bearing = e.bearing := by
  unfold learnGrantedEpoch
  split
  · rfl
  dsimp only
  split
  · rfl
  split
  · split <;> rfl
  · rfl

theorem electoral_onLeadGrant (epoch : Nat) (claimant granter : NodeId) :
    Electoral e (e.onLeadGrant epoch claimant granter) := by
  have hlearn := bearing_learnGrantedEpoch e epoch claimant granter
  unfold onLeadGrant
  split
  · exact .refl e
  split
  · exact .refl e
  dsimp only
  split
  · exact .skip hlearn
  split
  · exact .skip hlearn
  · exact (electoral_closeRoundIfMajority _ _).of hlearn

theorem electoral_renewalRound (now : Time) : Electoral e (e.renewalRound now) := by
  unfold renewalRound
  split
  · exact .refl e
  split
  · exact .refl e
  split
  · exact .refl e
  · exact .andSay ((electoral_selfGrant _ _ _).of rfl) (free_leadTo _ _ _)

theorem electoral_broadcastResign (epoch : Nat) : Electoral e (e.broadcastResign epoch) :=
  ⟨rfl, free_leadTo _ _ _⟩

theorem free_resendResign (antiEntropyDue : Bool) :
    ∀ x ∈ e.resendResign antiEntropyDue, Free .all x := by
  unfold resendResign
  split
  · simp
  split
  · exact free_leadTo _ _ _
  · simp

theorem electoral_onLeadResign (source : NodeId) (epoch : Nat) (host : NodeId) (now : Time) :
    Electoral e (e.onLeadResign source epoch host now) := by
  unfold onLeadResign
  split
  · exact .refl e
  dsimp only
  have hreceipt : ∀ e' : GroupEngine, ∀ x ∈ (if e'.isVoter then
      [e'.sendLead source (.state epoch none)] else []), Free .all x := by
    intro e'
    split
    · simpa using free_sendLead _ _ _
    · simp
  split
  · exact ⟨rfl, hreceipt _⟩
  split
  · refine ⟨rfl, ?_⟩
    intro x hx
    rcases List.mem_cons.mp hx with rfl | hx
    · exact free_leadershipChanged _ _
    · exact hreceipt _ x hx
  · exact ⟨rfl, hreceipt _⟩

/-! ## Anchors -/

theorem free_externalClaimPrompt (epochHint : Nat) (antiEntropyDue : Bool) :
    ∀ x ∈ e.externalClaimPrompt epochHint antiEntropyDue, Free .all x := by
  unfold externalClaimPrompt
  split
  · simp
  · simpa using free_anchorClaimDue _

theorem free_externalRenewalPrompt : ∀ x ∈ e.externalRenewalPrompt, Free .all x := by
  unfold externalRenewalPrompt
  split
  · simp
  · simpa using free_anchorClaimDue _

theorem electoral_onAnchorActivated (epoch : Nat) (leaseUntil : Time) :
    Electoral e (e.onAnchorActivated epoch leaseUntil) := by
  unfold onAnchorActivated
  split
  · exact .refl e
  split
  · exact .refl e
  split
  · exact .refl e
  split
  · exact .refl e
  split
  · exact .refl e
  split
  · exact .skip rfl
  · exact electoral_activate e _ _

theorem electoral_onAnchorObserved (epoch : Nat) (host : NodeId) :
    Electoral e (e.onAnchorObserved epoch host) := by
  unfold onAnchorObserved
  split
  · exact .refl e
  split
  · exact .refl e
  split
  · exact .refl e
  split
  · exact electoral_learnSelfNamed e _
  · exact electoral_adopt e _ _

/-! ## Ticks -/

theorem electoral_tickFollower (now : Time) (antiEntropyDue : Bool) :
    Electoral e (e.tickFollower now antiEntropyDue) := by
  unfold tickFollower
  split
  · exact .refl e
  dsimp only
  split
  · exact .refl e
  split
  · exact ⟨rfl, free_externalClaimPrompt _ _ _⟩
  refine .andSay ((electoral_quorumOpenRound _ _ _).of rfl) ?_
  split
  · exact free_leadTo _ _ _
  · simp

theorem electoral_tickClaimant (now : Time) (antiEntropyDue : Bool) :
    Electoral e (e.tickClaimant now antiEntropyDue) := by
  unfold tickClaimant
  split
  · exact .skip rfl
  split
  · exact .skip rfl
  split
  · split
    · exact .skip rfl
    · exact electoral_activate e _ _
  dsimp only
  split
  · exact electoral_quorumRetrySelfGrant e _ _
  split
  · exact .andSay (electoral_quorumRetrySelfGrant e _ _) (free_leadTo _ _ _)
  · exact electoral_quorumRetrySelfGrant e _ _

variable {now : Time} {c : Cause}

variable (e : GroupEngine)

/-- Building the targets, whatever the cursors do. -/
theorem touches_targets {e e' : GroupEngine}
    (h : e'.bearing = { e with targets := some (e.targets.getD e.disseminationTargets) }.bearing)
    (helection : p.votes ∨ e'.election = e.election) : Touches p now c e [] [] e' :=
  .cons .targeted (Touches.aside h helection)

theorem touched_beacon : Touched .all now c e e.beacon := by
  refine .sayAt (touches_targets rfl (.inl trivial)) ?_
  intro x hx
  obtain ⟨dest, _, hx⟩ := List.mem_flatMap.mp hx
  exact free_teach _ dest x hx _ _

theorem touched_tickHost (now' : Time) (antiEntropyDue : Bool) :
    Touched .all now c e (e.tickHost now' antiEntropyDue) := by
  unfold tickHost
  have hlease : (if e.isCoordinator && e.isSettle then
      e.modifyElection fun el => { el with leaseUntil := satAdd now' el.cfg.leaseMs }
    else e).bearing = e.bearing := by
    split <;> rfl
  generalize (if e.isCoordinator && e.isSettle then
      e.modifyElection fun el => { el with leaseUntil := satAdd now' el.cfg.leaseMs }
    else e) = renewed at hlease ⊢
  dsimp only
  split
  · exact ((electoral_demoteHost _).of hlease).touched
  split
  · exact .aside hlease (.inl trivial)
  · have hround := ((electoral_renewalRound _ now').of hlease).andSay (free_externalRenewalPrompt _)
    exact hround.touched.andThen (touched_beacon _)

theorem touched_electionTick (now' : Time) (antiEntropyDue : Bool) :
    Touched .all now c e (e.electionTick now' antiEntropyDue) := by
  refine Touched.andSay ?_ fun x hx => free_resendResign _ _ x hx _ _
  split
  · exact (electoral_tickFollower e _ _).touched
  · exact (electoral_tickClaimant e _ _).touched
  · exact touched_tickHost e _ _
  · exact .refl e

theorem electoral_electionOnLeave : Electoral e e.electionOnLeave := by
  unfold electionOnLeave
  cases e.resignEpoch with
  | none =>
    split
    · exact electoral_demoteHost e
    · exact .skip rfl
    · exact .refl e
    · exact .refl e
  | some epoch =>
    refine Electoral.andThen ?_ (electoral_broadcastResign _ _)
    split
    · exact electoral_demoteHost e
    · exact .skip rfl
    · exact .refl e
    · exact .refl e

/-! ## Frames -/

theorem touched_recomputeCoordinator : Touched p now c e e.recomputeCoordinator := by
  unfold recomputeCoordinator
  dsimp only
  split
  · exact .refl e
  · refine .sayAt (.single .coordinated) ?_
    simpa using Utters.coordinatorChanged _

/-- A change of membership announced, and the coordinator re-derived. -/
theorem touched_announced {e e' : GroupEngine} {o : Outcome} {nudge : GroupEngine → GroupEngine}
    (h : Touched p now c e o) (ht : Touches p now c o.1 [] [] e')
    (hn : ∀ e, (nudge e).bearing = e.bearing) (helection : ∀ e, (nudge e).election = e.election) :
    Touched p now c e (nudge (Emit.andThen (e', o.2 ++ [Effect.membershipChanged])
        recomputeCoordinator).1,
      (Emit.andThen (e', o.2 ++ [Effect.membershipChanged]) recomputeCoordinator).2) := by
  have hsaid : Touched p now c e (e', o.2 ++ [Effect.membershipChanged]) := by
    refine Touched.andSay (f := fun _ => [.membershipChanged]) (h.map ht) ?_
    simpa using Utters.membershipChanged
  exact (hsaid.andThen (touched_recomputeCoordinator _)).map (.aside (hn _) (.inr (helection _)))

theorem touched_learnClaimant {f : Frame} (claimant : NodeId) (since : Time) (hc : c = .frame f) :
    Touched p now c e (e.learnClaimant claimant since) := by
  unfold learnClaimant
  split
  · exact .refl e
  next hnew =>
    obtain ⟨hne, hnot⟩ := not_or.mp hnew
    refine touched_announced (.refl e) (.single (.met claimant since (.inl ⟨f, hc⟩) hne ?_))
      (fun _ => rfl) fun _ => rfl
    simpa using hnot

theorem touched_onLead {source : NodeId} {frame : Frame} (now' : Time) (hc : c = .frame frame) :
    Touched .all now c e (e.onLead source frame now') := by
  unfold onLead
  split
  · exact .refl e
  split
  next epoch claimant _ =>
    unfold onLeadClaim
    refine Touched.map (Touched.andThen (Touched.andSay ((touched_learnClaimant _ _ _ hc).of
      (.aside rfl (.inl trivial))) ?_) (electoral_onClaimAsVoter _ _ _ _).touched)
      (.aside ?_ (.inl trivial))
    · intro x hx
      split at hx
      · exact free_teach _ _ x hx _ _
      · exact absurd hx List.not_mem_nil
    · split <;> rfl
  next epoch host _ =>
    unfold onLeadState
    dsimp only
    split
    · exact .aside rfl (.inl trivial)
    split
    · split
      · refine Electoral.touched ((electoral_learnSelfNamed _ _).of ?_)
        rfl
      · refine Electoral.touched ((electoral_adopt _ _ _).of ?_)
        rfl
    · exact .sayAt (.aside rfl (.inl trivial)) fun x hx => free_teach _ _ x hx _ _
    · exact .aside rfl (.inl trivial)
  next => exact (electoral_onLeadGrant e _ _ _).touched
  next => exact (electoral_onLeadResign e _ _ _ _).touched
  next => exact .refl e

end GroupEngine

end Groupnet
