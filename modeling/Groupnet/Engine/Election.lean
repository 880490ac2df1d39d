import Groupnet.Engine.External

/-!
# The Hosted-mode election

The rows of the election: what a tick does to a follower, a claimant and a host,
what a voluntary leave gives up, and what each inbound election frame does.  All
three activations share them.  In an Eventual group there is no election state and
every row is inert.
-/

namespace Groupnet

open Wire (Frame LeadBody)

namespace GroupEngine

variable (e : GroupEngine)

/-- Arms the boot guard, and under a roster the boot blackout. -/
def electionStart (now : Time) : GroupEngine :=
  e.modifyElection fun el =>
    { el with noClaimBefore := satAdd now el.activationWindowMs }.quorumStart now

/-! ## Ticks -/

/-- Opens a claim, or under an anchor prompts for one. -/
def tickFollower (now : Time) (antiEntropyDue : Bool) : Outcome :=
  match e.election with
  | none => (e, [])
  | some el =>
    let guard : ClaimGuard :=
      { leaving := e.leaving
        pastBootGuard := decide (el.noClaimBefore ≤ now)
        topRanked := e.isCoordinator
        adoptedHostIsSelf := decide (el.host = some e.localId) }
    if !guard.opens then (e, [])
    else
      let epoch := satAdd el.highestSeen 1
      if el.isExternal then (e, e.externalClaimPrompt epoch antiEntropyDue)
      else
        let settleAt := satAdd now el.activationWindowMs
        let e := e.modifyElection fun el =>
          { el with highestSeen := epoch, claim := some ⟨epoch, settleAt⟩, role := .claimant }
        let out := e.quorumOpenRound epoch now
        -- A roster of one is closed by the self-grant alone.
        out.andSay fun e => if e.role = .claimant then e.broadcastClaim epoch else []

/-- Abandons on lost rank, activates when the window closes, otherwise keeps the claim
visible. -/
def tickClaimant (now : Time) (antiEntropyDue : Bool) : Outcome :=
  match e.election.bind Election.claim with
  | none => (e.abandonClaim, [])
  | some claim =>
    if !e.isCoordinator then (e.abandonClaim, [])
    else if claim.settleAt ≤ now then
      if e.isQuorum then (e.abandonClaim, [])
      else e.activate claim.epoch (satAdd now e.leaseMs)
    else
      let out := e.quorumRetrySelfGrant claim.epoch now
      if out.1.role ≠ .claimant then out
      else if antiEntropyDue then out.andSay fun e => e.broadcastClaim claim.epoch
      else out

/-- The targets of a host's beacon, on a cursor of its own. -/
def beaconTargets : GroupEngine × List NodeId :=
  let start := (e.election.map Election.beaconCursor).getD 0
  let out := e.rotatedTargets start e.config.gossipFanout.val
  (out.1.modifyElection fun el => { el with beaconCursor := wrapAdd start out.2.length }, out.2)

/-- The beacon of the adopted pair. -/
def beacon : Outcome :=
  let picked := e.beaconTargets
  (picked.1, picked.2.flatMap picked.1.teach)

/-- Renews while top-ranked, steps down once the lease lapses, and beacons the adopted
pair. -/
def tickHost (now : Time) (antiEntropyDue : Bool) : Outcome :=
  let e :=
    if e.isCoordinator && e.isSettle then
      e.modifyElection fun el => { el with leaseUntil := satAdd now el.cfg.leaseMs }
    else e
  if e.election.any fun el => decide (el.leaseUntil ≤ now) then e.demoteHost
  else if !antiEntropyDue then (e, [])
  else
    let out := e.renewalRound now
    let out := out.andSay fun e => e.externalRenewalPrompt
    out.andThen beacon

def electionTick (now : Time) (antiEntropyDue : Bool) : Outcome :=
  let out := match e.election.map Election.role with
    | some .follower => e.tickFollower now antiEntropyDue
    | some .claimant => e.tickClaimant now antiEntropyDue
    | some .host => e.tickHost now antiEntropyDue
    | none => (e, [])
  out.andSay fun e => e.resendResign antiEntropyDue

/-! ## Leaving -/

/-- A voluntary leave gives up hostship or a claim, then resigns it. -/
def electionOnLeave : Outcome :=
  let resigned := e.resignEpoch
  let out : Outcome := match e.election.map Election.role with
    | some .host => e.demoteHost
    | some .claimant => (e.abandonClaim, [])
    | some .follower | none => (e, [])
  match resigned with
  | some epoch => out.andThen fun e => e.broadcastResign epoch
  | none => out

/-! ## Frames -/

def learnClaimant (claimant : NodeId) (now : Time) : Outcome :=
  if claimant = e.localId ∨ e.members.contains claimant then (e, [])
  else
    let e := { e with members := e.members.insert claimant (Member.new 0 .alive now) }
    let out := Emit.andThen (e.stamp claimant, [.membershipChanged]) recomputeCoordinator
    (out.1.nudgeAntiEntropy, out.2)

/-- Whether a claim is behind the adopted pair. -/
def claimIsStale (epoch : Nat) (claimant : NodeId) : Bool :=
  (e.election.any fun el =>
    decide (epoch < el.epoch) || (decide (epoch = el.epoch) && el.host.isSome)) &&
    !e.claimIsRenewal epoch claimant

def claimIsOutranked (epoch : Nat) (claimant : NodeId) : Bool :=
  e.election.any fun el =>
    decide (el.role = .claimant) && el.claim.any fun c =>
      decide (cmpPair e.group (epoch, some claimant) (c.epoch, some e.localId) = .gt)

def onLeadClaim (source : NodeId) (epoch : Nat) (claimant : NodeId) (now : Time) :
    Outcome :=
  let e := e.modifyElection fun el => { el with highestSeen := max el.highestSeen epoch }
  let out := e.learnClaimant claimant now
  let out := out.andSay fun e => if e.claimIsStale epoch claimant then e.teach source else []
  let out := out.andThen fun e => e.onClaimAsVoter epoch claimant now
  (if out.1.claimIsOutranked epoch claimant then out.1.abandonClaim else out.1, out.2)

/-- Adopts a better pair, learns the epoch of a better pair that names us, or teaches
back a worse one. -/
def onLeadState (source : NodeId) (epoch : Nat) (host : Option NodeId) : Outcome :=
  let e := e.noteResignReceipt source epoch host
  match e.election with
  | none => (e, [])
  | some el =>
    match cmpPair e.group (epoch, host) (el.epoch, el.host) with
    | .gt => if host = some e.localId then e.learnSelfNamed epoch else e.adopt epoch host
    | .lt => (e, e.teach source)
    | .eq => (e, [])

/-- Routes an inbound election frame. -/
def onLead (source : NodeId) (frame : Frame) (now : Time) : Outcome :=
  if e.election.isNone then (e, [])
  else match frame.lead with
    | some (.claim epoch claimant) => e.onLeadClaim source epoch claimant now
    | some (.state epoch host) => e.onLeadState source epoch host
    | some (.grant epoch claimant granter) => e.onLeadGrant epoch claimant granter
    | some (.resign epoch host) => e.onLeadResign source epoch host now
    | none => (e, [])

end GroupEngine

end Groupnet
