import Groupnet.Placement
import Groupnet.Lib.Checked
import Groupnet.Replication.Identity

/-!
# The limits of a session

What a session is configured with, and the schedule of its source checks.  An idle session
checks its source less and less often.  How long a proof is fresh does not depend on that.
-/

namespace Groupnet.Replication

/-! ## Idle checks -/

structure IdlePolicy where
  /-- Unchanged checks in a row before the interval grows. -/
  unchangedChecks : ℕ+
  maxIntervalMs : Nat
  jitterMs : Nat
deriving DecidableEq

inductive IdlePolicyError where
  | zeroMaxInterval
  | maxIntervalBelowTailCheck
  | jitterExceedsMaxInterval
deriving DecidableEq

def IdlePolicy.validate (policy : IdlePolicy) (tailCheckMs : Nat) : Except IdlePolicyError Unit :=
  if policy.maxIntervalMs = 0 then .error .zeroMaxInterval
  else if policy.maxIntervalMs < tailCheckMs then .error .maxIntervalBelowTailCheck
  else if policy.maxIntervalMs < policy.jitterMs then .error .jitterExceedsMaxInterval
  else .ok ()

structure IdleState where
  unchanged : Nat
  pollSequence : Nat
  forceHotOnce : Bool
deriving DecidableEq

/-- The eight bytes of a word, lowest first. -/
def leBytes (n : Nat) : List UInt8 := (List.range 8).map fun i => UInt8.ofNat (n >>> (8 * i))

/-- The same jitter for the same check of the same session. -/
def stableJitter (scope : Scope) (session sequence : Nat) : Nat :=
  Placement.fnv1a (scope.names.map Placement.bytes ++ [leBytes session, leBytes sequence])

namespace IdleState

def start : IdleState := ⟨0, 0, false⟩

def reset (s : IdleState) : IdleState := { s with unchanged := 0 }

/-- The next check counts as a change. -/
def forceHotNext (s : IdleState) : IdleState := { s.reset with forceHotOnce := true }

/-- The interval to the next check; no interval when a counter is at its end.  The outer
option is a panic: the number of doublings is computed on plain words. -/
def checkedInterval (s : IdleState) (unchanged : Bool) (policy : Option IdlePolicy) (baseMs : Nat)
    (scope : Scope) (session : Nat) : Option (IdleState × Option Nat) :=
  match policy with
  | none => some (s, some baseMs)
  | some policy =>
    match checkedAdd u64Max s.pollSequence 1 with
    | none => some (s, none)
    | some sequence =>
      let unchanged := unchanged && !s.forceHotOnce
      let s := { s with pollSequence := sequence, forceHotOnce := false }
      match (if unchanged then checkedAdd u32Max s.unchanged 1 else some 0) with
      | none => some (s, none)
      | some count =>
        let s := { s with unchanged := count }
        if count < policy.unchangedChecks then some (s, some baseMs)
        else do
          let shifts ← checkedAdd u32Max (count - policy.unchangedChecks) 1
          let interval := min (if 63 ≤ shifts then u64Max else satMul baseMs (2 ^ shifts))
            policy.maxIntervalMs
          let jitter := if policy.jitterMs = 0 then 0
            else stableJitter scope session sequence % satAdd policy.jitterMs 1
          some (s, some (min (satAdd interval jitter) policy.maxIntervalMs))

end IdleState

/-! ## Snapshots -/

structure SnapshotConfig where
  maxMetadataBytes : ℕ+
  maxSnapshotBytes : ℕ+
  maxChunks : ℕ+
  maxChunkBytes : ℕ+
  maxCandidateBytes : ℕ+
  maxTotalMs : Nat
deriving DecidableEq

inductive SnapshotConfigError where
  | zeroMaxTotal
deriving DecidableEq

def SnapshotConfig.validate (config : SnapshotConfig) : Except SnapshotConfigError Unit :=
  if config.maxTotalMs = 0 then .error .zeroMaxTotal else .ok ()

/-! ## The session -/

/-- What a missing stretch of history means. -/
inductive Mode where
  /-- A snapshot stands in for it. -/
  | stateSync
  /-- It is lost. -/
  | eventComplete
deriving DecidableEq

structure Config where
  idle : Option IdlePolicy
  snapshot : Option SnapshotConfig
  maxCursorBytes : ℕ+
  maxBatchEvents : ℕ+
  maxBatchBytes : ℕ+
  /-- How long a proof is fresh, and the interval of source checks. -/
  tailCheckMs : Nat
  retryMs : Nat
  maxRetries : ℕ+
  attemptTimeoutMs : Nat
deriving DecidableEq

def Config.default : Config where
  idle := none
  snapshot := none
  maxCursorBytes := 4096
  maxBatchEvents := 4096
  maxBatchBytes := 8388608
  tailCheckMs := 5000
  retryMs := 1000
  maxRetries := 3
  attemptTimeoutMs := 30000

inductive ConfigError where
  | zeroTailCheck
  | zeroRetry
  | zeroAttemptTimeout
  | snapshot (error : SnapshotConfigError)
  | idle (error : IdlePolicyError)
  | zeroSession
  | identity (error : IdentityError)
deriving DecidableEq

def Config.validate (config : Config) : Except ConfigError Unit :=
  if config.tailCheckMs = 0 then .error .zeroTailCheck
  else if config.retryMs = 0 then .error .zeroRetry
  else if config.attemptTimeoutMs = 0 then .error .zeroAttemptTimeout
  else
    match config.snapshot.map SnapshotConfig.validate,
        config.idle.map (IdlePolicy.validate · config.tailCheckMs) with
    | some (.error error), _ => .error (.snapshot error)
    | _, some (.error error) => .error (.idle error)
    | _, _ => .ok ()

end Groupnet.Replication
