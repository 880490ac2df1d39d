import Groupnet.Engine.Liveness

/-!
# The fencing order and the election's basic moves

Beliefs about the group are pairs of an epoch and a host, ordered epoch-major.  At
equal epochs no host is below any host, and two hosts are separated by the
placement owner of the group among the two, which every node computes alike.

The moves below are what the election's rows are made of: take an epoch, adopt a
better pair, learn an epoch from a pair that names us, drop a claim, step down.
-/

namespace Groupnet

open Wire (Frame LeadBody)

/-- The fencing order over pairs, as a comparison. -/
def cmpPair (group : GroupId) (a b : Nat × Option NodeId) : Ordering :=
  match compare a.1 b.1 with
  | .eq =>
    match a.2, b.2 with
    | none, none => .eq
    | none, some _ => .lt
    | some _, none => .gt
    | some x, some y =>
      if x = y then .eq
      else if Placement.owner group.str ((∅ : Std.TreeSet NodeId).insert x |>.insert y) = some x
      then .gt else .lt
  | byEpoch => byEpoch

structure ClaimGuard where
  /-- This node has left. -/
  leaving : Bool
  pastBootGuard : Bool
  /-- This node is the top-ranked live candidate. -/
  topRanked : Bool
  /-- The adopted pair already names this node. -/
  adoptedHostIsSelf : Bool

def ClaimGuard.opens (g : ClaimGuard) : Bool :=
  !g.leaving && g.pastBootGuard && g.topRanked && !g.adoptedHostIsSelf

/-! ## The election state -/

/-- The quorum state of an activation, `some` exactly under `Activation.quorum`. -/
def QuorumState.forActivation : Activation → Option QuorumState
  | .settle _ | .external _ => none
  | .quorum _ => some ⟨none, Time.max, 0, ∅, ∅, false, none⟩

namespace Election

def new (cfg : HostedConfig) : Election where
  cfg := cfg
  role := .follower
  highestSeen := 0
  epoch := 0
  host := none
  claim := none
  leaseUntil := 0
  noClaimBefore := 0
  beaconCursor := 0
  quorum := QuorumState.forActivation cfg.activation

variable (el : Election)

/-- The claim window, and the boot guard. -/
def activationWindowMs : Nat :=
  match el.cfg.activation with
  | .settle claimSettleMs => claimSettleMs
  | .quorum _ | .external _ => el.cfg.leaseMs

/-- Whether an epoch is closed on the settle window alone. -/
def closesOnWindow : Bool :=
  match el.cfg.activation with
  | .settle _ => true
  | .quorum _ | .external _ => false

/-- Whether epochs are allocated by an external anchor. -/
def isExternal : Bool :=
  match el.cfg.activation with
  | .external _ => true
  | .settle _ | .quorum _ => false

/-- The roster epochs are closed by, `some` exactly under `Activation.quorum`. -/
def voters (el : Election) : Option VoterRoster :=
  match el.cfg.activation with
  | .quorum voters => some voters
  | .settle _ | .external _ => none

/-- The instant the election next needs a tick. -/
def deadline : Option Time :=
  match el.role with
  | .claimant => el.claim.map Claim.settleAt
  | .host => some el.leaseUntil
  | .follower => none

def modifyQuorum (f : QuorumState → QuorumState) : Election :=
  { el with quorum := el.quorum.map f }

/-- Arms the boot blackout of a voter whose promise is unarmed. -/
def quorumStart (now : Time) : Election :=
  el.modifyQuorum fun q =>
    if q.grantPromiseUntil = Time.max then
      { q with grantPromiseUntil := satAdd now el.cfg.leaseMs }
    else q

def activated (me : NodeId) (epoch : Nat) (leaseUntil : Time) : Election :=
  { el with
    role := .host
    claim := none
    epoch := epoch
    host := some me
    highestSeen := max el.highestSeen epoch
    leaseUntil := leaseUntil }

/-- Drops a standing claim. -/
def abandoned : Election := { el with claim := none, role := .follower }

/-- Steps down, keeping the epoch. -/
def demoted : Election := { el with role := .follower, host := none }

/-- Whether a pair at `epoch` ends what this node is doing. -/
def outdone (epoch : Nat) : Bool :=
  decide (el.role = .host) || el.claim.any fun c => decide (c.epoch ≤ epoch)

/-- Takes a better pair, standing down from whatever it invalidates. -/
def adopted (epoch : Nat) (host : Option NodeId) : Election :=
  let taken := { el with
    epoch := epoch
    host := host
    highestSeen := max el.highestSeen epoch }
  if el.outdone epoch then { taken with role := .follower, claim := none } else taken

/-- Learns the epoch of a better pair that names this node, without its hostship. -/
def learnedSelf (epoch : Nat) : Election :=
  if epoch ≤ el.epoch then { el with highestSeen := max el.highestSeen epoch }
  else el.adopted epoch none

end Election

namespace GroupEngine

variable (e : GroupEngine)

/-- One election frame.  Its kind is the one its body belongs on. -/
def sendLead (dest : NodeId) (body : LeadBody) : Effect :=
  .send dest { Frame.bare (Wire.leadKind body) e.group none with lead := some body }

/-- The adopted pair as an election body. -/
def stateBody : Option LeadBody :=
  e.election.map fun el => .state el.epoch el.host

/-- The adopted pair to one node. -/
def teach (dest : NodeId) : List Effect :=
  match e.stateBody with
  | some body => [e.sendLead dest body]
  | none => []

/-- The adopted pair to every live member. -/
def broadcastState : List Effect := e.probeCandidates.flatMap e.teach

/-- Takes the epoch, arms the lease and tells the world. -/
def activate (epoch : Nat) (leaseUntil : Time) : Outcome :=
  let e := e.modifyElection fun el => el.activated e.localId epoch leaseUntil
  (e, .leadershipChanged epoch (some e.localId) :: e.broadcastState)

/-- Drops a standing claim, silently. -/
def abandonClaim : GroupEngine := e.modifyElection Election.abandoned

/-- Steps down, keeping the epoch. -/
def demoteHost : Outcome :=
  match e.election with
  | none => (e, [])
  | some el => (e.modifyElection Election.demoted, [.leadershipChanged el.epoch none])

/-- Adopts a pair that outranks ours. -/
def adopt (epoch : Nat) (host : Option NodeId) : Outcome :=
  match e.election with
  | none => (e, [])
  | some _ =>
    (e.modifyElection fun el => el.adopted epoch host, [.leadershipChanged epoch host])

def learnSelfNamed (epoch : Nat) : Outcome :=
  match e.election with
  | none => (e, [])
  | some el =>
    (e.modifyElection fun el => el.learnedSelf epoch,
      if epoch ≤ el.epoch then [] else [.leadershipChanged epoch none])

def isSettle : Bool := e.election.any Election.closesOnWindow

/-- Whether the group closes its epochs at an external anchor. -/
def isExternal (e : GroupEngine) : Bool := e.election.any Election.isExternal

end GroupEngine

end Groupnet
