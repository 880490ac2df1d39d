import Groupnet.Config
import Groupnet.Lib.Emit
import Groupnet.Membership
import Groupnet.Placement
import Groupnet.Spread
import Groupnet.Wire

/-!
# The engine's state and effects

One `GroupEngine` owns the state of one group on one node.  It is a plain value.
Every event is a function from an engine to the engine after it and the effects
the driver is asked to carry out, in order (`Emit GroupEngine Effect`).

An effect that ships a frame holds the `Frame`.  The source encodes it on the
spot, and the driver's model applies `Wire.encode` where it hands the bytes to a
transport.

The election state is `some` exactly in a Hosted group, and its quorum state
exactly under `Activation.quorum`.  The traffic counters of the source are left
out, no decision reads them.
-/

namespace Groupnet

open Wire (Frame LeadBody)

/-! ## Effects -/

/-- An intent the engine emits.  The driver carries it out. -/
inductive Effect where
  /-- Ship a frame to a node, best-effort. -/
  | send (dest : NodeId) (frame : Frame)
  /-- Tick no later than `due`. -/
  | armTimer (due : Time)
  | coordinatorChanged (coordinator : Option NodeId)
  | membershipChanged
  | nodeStateChanged (node : NodeId) (key : String)
  | leadershipChanged (epoch : Nat) (host : Option NodeId)
  /-- Write the grant down before any frame it licenses leaves. -/
  | persistGrant (epoch : Nat) (claimant : NodeId)
  /-- Run an external-anchor round, bidding at least `epochHint`. -/
  | anchorClaimDue (epochHint : Nat)
  | metadataChanged (key value : String)
deriving DecidableEq

/-! ## The election state -/

/-- What part the local node plays in its group's election. -/
inductive Role where
  /-- Following whatever pair this node has adopted. -/
  | follower
  /-- A claim of this node's own is standing. -/
  | claimant
  /-- This node activated its claim and holds the group. -/
  | host
deriving DecidableEq

/-- A standing bid for an epoch. -/
structure Claim where
  /-- The epoch being claimed. -/
  epoch : Nat
  /-- When the claim's window closes. -/
  settleAt : Time
deriving DecidableEq

/-- A voter's ledger and the grant round it is collecting. -/
structure QuorumState where
  /-- The one pair this voter has granted. -/
  granted : Option (Nat × NodeId)
  /-- When the promise to that claimant ends, `Time.max` while unarmed. -/
  grantPromiseUntil : Time
  /-- When the claim of the current round was broadcast. -/
  roundSentAt : Time
  roundGrants : Std.TreeSet NodeId
  /-- The voters the round can no longer win. -/
  roundRefused : Std.TreeSet NodeId
  /-- Whether the claimant of `granted` resigned that pair. -/
  resigned : Bool
  /-- On a node that resigned, the epoch and the voters that did not confirm. -/
  resigning : Option (Nat × Std.TreeSet NodeId)

/-- The per-engine election state. -/
structure Election where
  /-- The activation policy and lease. -/
  cfg : HostedConfig
  /-- What this node is playing. -/
  role : Role
  /-- The highest epoch observed. -/
  highestSeen : Nat
  /-- The epoch of the adopted pair. -/
  epoch : Nat
  /-- The host of the adopted pair. -/
  host : Option NodeId
  claim : Option Claim
  /-- When this node's authority expires. -/
  leaseUntil : Time
  /-- The boot guard. -/
  noClaimBefore : Time
  /-- The beacon's rotation over the dissemination targets. -/
  beaconCursor : Nat
  /-- The grant ledger, exactly under `Activation.quorum`. -/
  quorum : Option QuorumState

/-! ## The engine -/

inductive ProbePhase where
  | direct
  | indirect
deriving DecidableEq

/-- The probe awaiting a response. -/
structure Pending where
  target : NodeId
  deadline : Time
  phase : ProbePhase
deriving DecidableEq

/-- What a node remembers about the digests it built for one peer. -/
structure PeerDigest where
  /-- Digests built so far. -/
  visits : Nat
  /-- The change clock as of the last one. -/
  cursor : Nat
  /-- The last member the rolling window walked past. -/
  resume : Option NodeId
deriving DecidableEq

structure VersionedValue where
  value : String
  version : Nat
  writer : NodeId
deriving DecidableEq

/-- The engine's ordered views of its member map. -/
structure Index where
  /-- Every member with a pending deadline, under its earliest. -/
  due : Std.TreeSet (Time ×ₗ NodeId)
  /-- The live members by coordinator score. -/
  live : Std.TreeSet Placement.Rank
  /-- Members by change stamp. -/
  changed : Std.TreeMap Nat NodeId
  /-- Stamped members by liveness instant and change stamp. -/
  news : Std.TreeSet (Time ×ₗ (Nat ×ₗ NodeId))
  forgotten : Std.TreeMap Nat NodeId
  /-- The stamp of the latest record dropped from `forgotten`. -/
  forgottenFloor : Nat

def Index.empty : Index := ⟨∅, ∅, ∅, ∅, ∅, 0⟩

def dueKey (due : Time) (node : NodeId) : Time ×ₗ NodeId := toLex (due, node)

def newsKey (liveness : Time) (stamp : Nat) (node : NodeId) : Time ×ₗ (Nat ×ₗ NodeId) :=
  toLex (liveness, toLex (stamp, node))

/-- The per-group coordination state machine. -/
structure GroupEngine where
  group : GroupId
  localId : NodeId
  /-- The local node's incarnation. -/
  incarnation : Nat
  /-- Set once the local node has left. -/
  leaving : Bool
  /-- All known members, including self. -/
  members : Std.TreeMap NodeId Member
  /-- Bootstrap contacts. -/
  seeds : Std.TreeSet NodeId
  /-- Replaceable discovery contacts. -/
  bootstrapContacts : Std.TreeSet NodeId
  /-- The dissemination targets in id order, cached. -/
  targets : Option (List NodeId)
  /-- The live probe candidates in id order, cached. -/
  ring : Option (List NodeId)
  index : Index
  metadata : Std.TreeMap String VersionedValue
  coordinator : Option NodeId
  config : Config
  /-- When the next digest round is due. -/
  nextAntiEntropy : Time
  lastRound : Time
  nextProbe : Time
  probeCursor : Nat
  gossipCursor : Nat
  rng : Spread.SplitMix
  /-- The outstanding probe. -/
  pending : Option Pending
  /-- As an indirect prober: the origins waiting on a target. -/
  relaying : Std.TreeMap NodeId (Std.TreeSet NodeId)
  /-- The most recent instant observed. -/
  nowHint : Time
  /-- The keys authored since boot. -/
  authored : Std.TreeSet String
  /-- Bumped whenever a member's summary changes.  A `u64` in the source, whose increment is
  not checked: the model is the code's as long as it stays below `2 ^ 64`. -/
  changeClock : Nat
  /-- Per peer: digest cadence, cursor and window position. -/
  digestPeers : Std.TreeMap NodeId PeerDigest
  /-- The election state, exactly in a Hosted group. -/
  election : Option Election

/-- What one engine call leaves: the engine after it, and its effects in order. -/
abbrev Outcome := Emit GroupEngine Effect

namespace GroupEngine

variable (e : GroupEngine)

/-- Applies `f` to the record of `node`, if it is known. -/
def modifyMember (node : NodeId) (f : Member → Member) : GroupEngine :=
  match e.members[node]? with
  | some m => { e with members := e.members.insert node (f m) }
  | none => e

def modifyElection (f : Election → Election) : GroupEngine :=
  { e with election := e.election.map f }

/-- Moves the freshest observed instant. -/
def observeNow (now : Time) : GroupEngine :=
  { e with nowHint := max e.nowHint now }

/-! ## Read accessors -/

def isCoordinator : Bool := decide (e.coordinator = some e.localId)

/-- The adopted pair. -/
def leadership : Nat × Option NodeId :=
  (e.election.map fun el => (el.epoch, el.host)).getD (0, none)

/-- What part this node plays. -/
def role (e : GroupEngine) : Role := (e.election.map Election.role).getD .follower

def observedEpoch : Nat := (e.election.map Election.highestSeen).getD 0

/-- When this node's hostship expires, `some` exactly while it is host. -/
def hostLeaseUntil : Option Time :=
  (e.election.filter fun el => el.role = .host).map Election.leaseUntil

end GroupEngine

end Groupnet
