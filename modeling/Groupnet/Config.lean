import Mathlib.Data.List.Sort
import Mathlib.Data.List.Dedup
import Groupnet.Id

/-!
# Per-group configuration

The gossip, failure detection and election tunables of one group.  Counts and
byte sizes are `NonZero`, so they cannot be zero at all.  The timers are checked
by `Config.validate`, which names the first that is zero, and an engine is built
only from a configuration that passes it.

A `VoterRoster` is canonical by construction: its voters are strictly sorted, so
two rosters of the same nodes are the same roster and a majority of it counts
distinct nodes.
-/

namespace Groupnet

/-- A count or size that is not zero. -/
abbrev NonZero := { n : Nat // 0 < n }

/-! ## The voter roster -/

/-- The static set of nodes whose grants close an epoch under `Activation.quorum`. -/
structure VoterRoster where
  /-- The voters, in canonical order. -/
  voters : List NodeId
  /-- The order is strict, so no voter is listed twice. -/
  sorted : voters.Pairwise (· < ·)
deriving DecidableEq

namespace VoterRoster

theorem pairwise_lt_dedup_insertionSort (voters : List NodeId) :
    (voters.insertionSort (· ≤ ·)).dedup.Pairwise (· < ·) := by
  have hle : (voters.insertionSort (· ≤ ·)).dedup.Pairwise (· ≤ ·) :=
    (List.pairwise_insertionSort (· ≤ ·) voters).sublist (List.dedup_sublist _)
  exact (hle.and (List.nodup_dedup _)).imp fun h => lt_of_le_of_ne h.1 h.2

/-- Builds a roster: sorted, with duplicates collapsed. -/
def new (voters : List NodeId) : VoterRoster :=
  ⟨(voters.insertionSort (· ≤ ·)).dedup, pairwise_lt_dedup_insertionSort voters⟩

/-- How many distinct nodes vote. -/
def len (r : VoterRoster) : Nat := r.voters.length

def contains (r : VoterRoster) (node : NodeId) : Bool := decide (node ∈ r.voters)

/-- How many grants close an epoch, a strict majority of the roster. -/
def majority (r : VoterRoster) : Nat := r.len / 2 + 1

@[simp] theorem contains_iff {r : VoterRoster} {node : NodeId} :
    r.contains node = true ↔ node ∈ r.voters := by
  simp [contains]

theorem nodup (r : VoterRoster) : r.voters.Nodup := r.sorted.imp fun h => ne_of_lt h

end VoterRoster

/-! ## Modes -/

/-- How a Hosted group closes an epoch. -/
inductive Activation where
  /-- A claim that stands unchallenged for the settle window activates. -/
  | settle (claimSettleMs : Nat)
  /-- A majority of a static voter roster closes the epoch. -/
  | quorum (voters : VoterRoster)
  /-- A linearizable external register closes the epoch. -/
  | external (stealMarginMs : Nat)
deriving DecidableEq

/-- The election and lease tunables of a Hosted group. -/
structure HostedConfig where
  /-- What makes a claimant the host. -/
  activation : Activation
  /-- How long a host's authority survives its last renewal. -/
  leaseMs : Nat
deriving DecidableEq

/-- The lobby-style default. -/
def HostedConfig.default : HostedConfig where
  activation := .settle 600
  leaseMs := 1000

/-- The consistency posture of a group. -/
inductive GroupMode where
  /-- Metadata and membership only. -/
  | eventual
  /-- The group elects one epoch-fenced host. -/
  | hosted (config : HostedConfig)
deriving DecidableEq

/-! ## The configuration and its check -/

/-- The tunables of one group's gossip and failure detection. -/
structure Config where
  /-- Cadence of the gossip round. -/
  gossipIntervalMs : Nat
  /-- How often to probe a member. -/
  probeIntervalMs : Nat
  /-- How long to wait for a direct probe's ack. -/
  probeTimeoutMs : Nat
  /-- How long a member this node found silent stays suspect. -/
  suspectTimeoutMs : Nat
  /-- How long a tombstone is gossiped.  It is reaped after twice this. -/
  deadTimeoutMs : Nat
  indirectProbes : NonZero
  /-- How many peers each round sends a digest to. -/
  gossipFanout : NonZero
  /-- Whether a local write is pushed at once. -/
  eagerPush : Bool
  /-- Soft cap on the encoded size of a frame. -/
  maxDeltaFrameBytes : NonZero
  fullDigestEvery : NonZero
  /-- The most summaries one digest lists. -/
  digestWindow : NonZero
  /-- The group's posture. -/
  mode : GroupMode
deriving DecidableEq

/-- One rule a configuration violates, naming the field at fault. -/
inductive ConfigError where
  | zeroGossipInterval
  | zeroProbeInterval
  | zeroProbeTimeout
  | zeroSuspectTimeout
  | zeroDeadTimeout
  | digestWindowTooSmall (digestWindow : Nat)
deriving DecidableEq

namespace Config

/-- The defaults, for a small and fast cluster. -/
def default : Config where
  gossipIntervalMs := 200
  probeIntervalMs := 100
  probeTimeoutMs := 50
  suspectTimeoutMs := 500
  deadTimeoutMs := 10000
  indirectProbes := ⟨2, by decide⟩
  gossipFanout := ⟨2, by decide⟩
  eagerPush := true
  maxDeltaFrameBytes := ⟨60000, by decide⟩
  fullDigestEvery := ⟨4, by decide⟩
  digestWindow := ⟨64, by decide⟩
  mode := .eventual

/-- Checks every timer and the digest window, returning the first violated rule. -/
def validate (c : Config) : Except ConfigError Unit :=
  if c.gossipIntervalMs = 0 then .error .zeroGossipInterval
  else if c.probeIntervalMs = 0 then .error .zeroProbeInterval
  else if c.probeTimeoutMs = 0 then .error .zeroProbeTimeout
  else if c.suspectTimeoutMs = 0 then .error .zeroSuspectTimeout
  else if c.deadTimeoutMs = 0 then .error .zeroDeadTimeout
  else if c.digestWindow.val < 2 then .error (.digestWindowTooSmall c.digestWindow.val)
  else .ok ()

example : Config.default.validate = .ok () := rfl

end Config

end Groupnet
